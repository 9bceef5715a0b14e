import TexasPoker.Vault.Custody
import TexasPoker.Runtime.Client

/-! # Seating while a deck is shuffled

Every step keeps the masks of a shuffle, except that players may still sit down, get up and start
another hand while the first deck of a hand is shuffled.
-/

namespace TexasPoker

variable {G : Type}

namespace TexasPokerTable

variable {t t' : TexasPokerTable G}

theorem Proceeds.of_seat {k : ℕ} {x : Seat G} (h : t' = t.setSeat k x)
    (hx : x.kind = (t.seat k).kind) : Proceeds t t' := by
  rw [h]
  exact .of_undated rfl (.setSeat hx)

theorem getActiveSeatMask_kicked {i : Fin maxSeats} :
    (t.kicked i).getActiveSeatMask = seatMaskRemove t.getActiveSeatMask i := by
  refine Mask.ext_mem fun j _ => ?_
  rw [mem_seatMaskRemove i.isLt, Bool.eq_iff_iff]
  constructor
  · intro hm
    obtain ⟨k, hk, rfl⟩ := mem_maskOf_iff.mp hm
    by_cases hki : k = i
    · subst hki
      rw [show (t.kicked k).seats k = (t.seats k).departed from seats_setSeat_self k _] at hk
      cases hs : t.seats k <;> rw [hs] at hk <;> cases hk
    · have hsame : (t.kicked i).seats k = t.seats k :=
        seats_setSeat_of_ne (fun he => hki (Fin.ext he)) _
      rw [hsame] at hk
      rw [Bool.and_eq_true]
      exact ⟨mem_maskOf_iff.mpr ⟨k, hk, rfl⟩, by simpa using fun he => hki (Fin.ext he)⟩
  · intro hm
    obtain ⟨hm, hne⟩ := Bool.and_eq_true_iff.mp hm
    obtain ⟨k, hk, rfl⟩ := mem_maskOf_iff.mp hm
    have hki : k.1 ≠ i.1 := by simpa using hne
    refine mem_maskOf_iff.mpr ⟨k, ?_, rfl⟩
    rw [show (t.kicked i).seats k = t.seats k from seats_setSeat_of_ne hki _]
    exact hk

theorem shuffling_of_removeSeat {p : HandPhase G} {i : ℕ} {phase' : ShufflingPhase G}
    (h : p.removeSeat i = .shuffling phase') : ∃ phase, p = .shuffling phase ∧
      phase'.state = ⟨seatMaskRemove phase.state.pendingMask i,
        seatMaskRemove phase.state.completedMask i⟩ := by
  cases p with
  | shuffling phase =>
    cases phase <;> cases h <;> exact ⟨_, rfl, rfl⟩
  | _ => cases h

/-- A kick takes its seat out of the masks. -/
theorem masksMatch_kicked {i : Fin maxSeats} (h : t.MasksMatch) : (t.kicked i).MasksMatch := by
  intro phase' hp'
  obtain ⟨phase, hp, hs⟩ := shuffling_of_removeSeat hp'
  obtain ⟨hdis, hall⟩ := h phase hp
  rw [hs, getActiveSeatMask_kicked, ← hall]
  constructor
  · rw [Mask.eq_zero_iff] at hdis ⊢
    intro j
    have hj := hdis j
    rw [Mask.mem_and] at hj ⊢
    rw [mem_seatMaskRemove i.isLt, mem_seatMaskRemove i.isLt]
    grind
  · refine Mask.ext_mem fun j _ => ?_
    rw [Mask.mem_or, mem_seatMaskRemove i.isLt, mem_seatMaskRemove i.isLt,
      mem_seatMaskRemove i.isLt, Mask.mem_or]
    grind

theorem waiting_of_removeSeat {p : HandPhase G} {i : ℕ} (h : p = .waiting) :
    p.removeSeat i = .waiting := by
  rw [h]
  rfl

theorem proceeds_kicked {i : Fin maxSeats} (ho : (t.seats i).isOccupied = true) :
    Proceeds t (t.kicked i) :=
  ⟨masksMatch_kicked, fun hw => ⟨fun h => hw (waiting_of_removeSeat h), onlyKicks_kicked ho⟩⟩

theorem masksMatch_of_betting (h : t.bettingRound.isSome = true) : t.MasksMatch := by
  refine masksMatch_of_not_shuffling fun phase hp => ?_
  simp [bettingRound, hp] at h

/-- A move inside a betting round. -/
theorem Proceeds.of_betting (h : t.bettingRound.isSome = true)
    (h' : t'.bettingRound.isSome = true) (hm : SameMembers t t') : Proceeds t t' :=
  ⟨fun _ => masksMatch_of_betting h', fun _ => ⟨not_waiting_of_betting h, hm.onlyKicks⟩⟩

theorem bettingRound_acted (i : ℕ) : (t.acted i).bettingRound = t.bettingRound := by
  cases hp : t.handPhase <;> simp [bettingRound, acted, HandPhase.undated, hp]

end TexasPokerTable

namespace Exec

open TexasPokerTable

variable {s s' : Exec G}

variable [AddCommGroup G] [Protocol G] [DecidableEq G]

theorem Play.proceeds (h : Play s s') : Proceeds s s' := by
  cases h with
  | notice _ => exact .refl _
  | clock ht => exact ht.proceeds
  | turn _ h => exact setCurrentTurn_proceeds h
  | closeRound _ _ hcol h =>
    obtain ⟨hct, -⟩ := collectBetsToPot_eq_ok hcol
    refine Proceeds.trans (.of_undated ?_ ?_) (advanceRound_proceeds h)
    · rw [hct]
      rfl
    · rw [hct]
      exact sameMembers_collected
  | ended _ h => exact endWithoutShowdown_proceeds h
  | openPreflop hrev hb ha h =>
    obtain ⟨hpb, hmb⟩ := postBlinds_members hb
    obtain ⟨hpa, hma⟩ := collectAnte_members ha
    refine Proceeds.trans (.of_undated ?_ (hmb.trans hma)) (opened_proceeds ?_ h)
    · rw [hpa, hpb]
    · rw [hpa, hpb]
      exact not_waiting_of_revealed hrev
  | openStreet hrev h => exact opened_proceeds (not_waiting_of_revealed hrev) h
  | display hrev =>
    exact .of_phase (not_waiting_of_revealed hrev) (fun _ hp => by cases hp) (.of_seats rfl rfl)
  | passShuffle h => exact (advanceShuffle_eq_ok h).proceeds
  | completeReconstruct _ h => exact onCompleteReconstruct_proceeds h
  | submitShuffle _ h => exact applySubmitShuffleV2_proceeds h
  | submitReconstruct h =>
    obtain ⟨_, _, _, _, _, _, _, _, m, hp, -, -, -, -, -, -, hm, -, h⟩ :=
      applySubmitReconstructDeck_eq_ok h
    have hw : s.table.handPhase ≠ .waiting := fun h => by rw [hp] at h; cases h
    have hsm : Proceeds s m := by
      subst hm
      exact .of_phase hw (fun _ hp => by cases hp) (.of_seats rfl rfl)
    rcases h with rfl | ⟨-, h⟩
    · exact hsm
    · exact hsm.trans (onCompleteReconstruct_proceeds h)
  | fold _ _ h =>
    obtain ⟨-, hb, ht, -⟩ := foldSeat_eq_ok h
    rw [Exec.Proceeds, ht]
    exact .of_betting hb (by rw [bettingRound_acted]; exact hb)
      (sameMembers_acted (SameMembers.setSeat (Seat.kind_setStatus _ _)))
  | matchBet _ _ h =>
    obtain ⟨-, -, -, round, hb, ⟨-, ht⟩ | ⟨-, k, p, -, hk, ht⟩⟩ := matchBet_eq_ok h
    · have hsome : s.table.bettingRound.isSome = true := by rw [hb]; rfl
      rw [Exec.Proceeds, ht]
      exact .of_betting hsome (by rw [bettingRound_acted]; exact hsome) (.of_seats rfl rfl)
    · have hsome : s.table.bettingRound.isSome = true := by rw [hb]; rfl
      rw [Exec.Proceeds, ht]
      exact .of_betting hsome (by rw [bettingRound_acted]; exact hsome)
        (sameMembers_acted (sameMembers_posted hk))
  | raise _ _ h =>
    obtain ⟨-, -, street, _, turn, d, newRound, needed, k, p, hp, -, -, hk, u, hu, ht⟩ :=
      raiseTo_eq_ok h
    have hphase : s'.table.handPhase = .betting street newRound turn 0 := by
      rw [ht]
      split <;> rw [hu] <;> rfl
    have hsu : SameMembers s.table u := by
      rw [hu]
      exact sameMembers_acted (t := s.table) ⟨(sameMembers_posted
        (t := { s.table with handPhase := .betting street newRound turn d }) hk).kinds, rfl⟩
    refine .of_betting (by simp [bettingRound, hp]) (by simp [bettingRound, hphase]) ?_
    rw [ht]
    split
    · exact hsu.trans (.of_seats rfl rfl)
    · exact hsu
  | fund h =>
    obtain ⟨k, x, -, -, -, hx, ht, -⟩ := applyFundSeat_eq_ok h
    have hkind : x.kind = (s.table.seat k).kind := by
      rw [seat_val]
      rcases hx with ⟨-, hx⟩ | ⟨-, hx⟩
      · exact Seat.kind_setPendingAddon hx
      · exact Seat.kind_setStack hx
    rw [Exec.Proceeds, ht]
    exact .of_undated rfl ⟨(SameMembers.setSeat hkind).kinds, rfl⟩
  | askLeave h =>
    obtain ⟨-, -, rfl | ht⟩ := applySetLeaveAfterHand_eq_ok h
    · exact .refl _
    · rw [Exec.Proceeds, ht]
      exact .of_undated rfl (.of_seats rfl rfl)
  | timeBank h =>
    obtain ⟨-, -, ht⟩ := consumeTimeBank_eq_ok h
    exact .of_seat ht (Seat.kind_setTimeBankMs _ _)
  | settle _ h =>
    rcases settleHand_eq_ok h with rfl | ⟨plan, m, -, h⟩
    · exact .refl _
    · exact .of_waiting (resetForNextHand_loses h).2.phase

theorem Repair.proceeds (h : Repair s s') : Proceeds s s' := by
  cases h with
  | kick h =>
    rcases kickSeatRaw_eq_ok h with ⟨-, rfl⟩ | ⟨k, -, hk⟩
    · exact .refl _
    · rw [Exec.Proceeds, hk.table]
      exact proceeds_kicked hk.occupied
  | reset h => exact resetForNextHand_proceeds h
  | refundReset _ h => exact .of_waiting (resetForNextHand_loses h).2.phase
  | suspend h =>
    obtain ⟨-, reveal, d, hr, -, ht⟩ := startReconstruct_eq_ok h
    rw [Exec.Proceeds, ht]
    exact .of_phase (not_waiting_of_reveal hr) (fun _ hp => by cases hp) (.of_seats rfl rfl)
  | rebuild hp h =>
    have hw := not_waiting_of_shufflePhase hp
    obtain ⟨-, ⟨-, reveal, -, -, ht⟩ | ⟨-, ht⟩⟩ := rebuildDeckAndShuffleOnTimeout_eq_ok h
    · have hm : SameMembers s.table s'.table := by rw [ht]; exact .of_seats rfl rfl
      exact .of_state hw (by rw [ht]) (by rw [hm.getActiveSeatMask]; rfl) hm
    · have hm : SameMembers s.table s'.table := by rw [ht]; exact .of_seats rfl rfl
      exact .of_state hw (by rw [ht]) (by rw [hm.getActiveSeatMask]; rfl) hm

theorem Moves.proceeds (h : Moves s s') : Proceeds s s' :=
  h.keeps (P := fun u => Proceeds s u) (fun hm hu => hu.trans (by
    cases hm with
    | play h => exact h.proceeds
    | repair h => exact h.proceeds)) (.refl _)

theorem Plays.proceeds (h : Plays s s') : Proceeds s s' := Moves.proceeds h.moves

theorem GivesTokens.proceeds {i : ℕ} {tokens : List G} (h : GivesTokens s s' i tokens) :
    Proceeds s s' := by
  have hkinds (j : Fin maxSeats) : (s'.table.seats j).kind = (s.table.seats j).kind :=
    Seat.kind_of_withoutHand (h.sameChips.slots j)
  cases h with
  | waits hp _ _ ht _ =>
    refine .of_phase ?_ ?_ ⟨hkinds, by rw [ht]; rfl⟩
    · rw [hp]
      simp
    · rw [ht]
      exact fun _ hq => by cases hq
  | writes hp _ hm _ hw ht _ =>
    obtain ⟨ledger, hrest⟩ := hw.writesCards.1.rest
    refine .of_phase ?_ ?_ ⟨hkinds, by rw [ht, hrest, hm]; rfl⟩
    · rw [hp]
      simp
    · rw [ht]
      exact fun _ hq => by cases hq

end Exec

/-! ## Runs -/

/-- The commands that change who sits in a hand. -/
def CanonicalCommand.changesSeats : CanonicalCommand → Bool
  | .joinTable | .leaveTable | .startHand => true
  | _ => false

namespace Exec

open TexasPokerTable

variable {s m s' : Exec G} [AddCommGroup G] [Protocol G] [DecidableEq G]
  {context : DispatchContext} {args : Bytes} {command : CanonicalCommand}

theorem Runs.round (h : Runs context args s command m) (hc : command.changesSeats = true) :
    s.table.roundState = roundWaiting := by
  cases h with
  | join h => exact of_decide_eq_true (applyJoinTable_eq_ok h).1
  | leave _ h => exact of_decide_eq_true (applyLeaveTable_eq_ok h).1
  | start h => exact (startHand_eq_ok h).1
  | play hplay _ =>
    cases command <;> first | exact absurd hc (by decide) | exact absurd hplay (by decide)
  | _ => cases hc

theorem Runs.masksMatch (h : Runs context args s command m)
    (hc : command.changesSeats = true → s.table.handPhase = .waiting) (hm : s.table.MasksMatch) :
    m.table.MasksMatch := by
  have hidle {u : TexasPokerTable G} (hu : u.handPhase = .waiting) : u.MasksMatch :=
    (Proceeds.of_waiting (t := u) hu).masks (masksMatch_of_not_shuffling fun _ hp => by
      rw [hu] at hp; cases hp)
  cases h with
  | create h =>
    simp only [applyCreateTable, Fallible.bind_eq_ok, Fallible.pure_eq_ok] at h
    obtain ⟨_, -, _, -, _, -, _, -, h⟩ := h
    exact hidle (by rw [withTable_table, ← h]; rfl)
  | join h =>
    obtain ⟨-, -, -, -, k, o, -, -, -, -, -, -, ht, -⟩ := applyJoinTable_eq_ok h
    exact hidle (by rw [ht]; exact hc rfl)
  | leave _ h =>
    obtain ⟨-, k, -, -, -, ht, -⟩ := applyLeaveTable_eq_ok h
    exact hidle (by rw [ht]; exact hc rfl)
  | start h =>
    obtain ⟨-, -, n, hn, -, hpass⟩ := startHand_eq_ok h
    refine hpass.proceeds.masks (masksMatch_of_state (by rw [hn]) ?_)
    rw [hn]
    rfl
  | foldWithProof _ h =>
    obtain ⟨_, _, n, hb, -, -, -, -, -, -, -, ht, -, h⟩ := applyFoldWithProof_eq_ok h
    have hn : n.table.MasksMatch := by
      refine masksMatch_of_betting ?_
      rw [ht, foldedOut, bettingRound_acted]
      exact (Bool.and_eq_true_iff.mp hb).1
    rcases h with ⟨-, h⟩ | h
    · exact (endWithoutShowdown_proceeds h).masks hn
    · exact (Plays.proceeds (advanceTurn_deals h).plays).masks hn
  | kick h => exact (Moves.proceeds (kickPlayerInternal_moves h)).masks hm
  | tokens _ hk hplays => exact (Plays.proceeds hplays).masks (hk.proceeds.masks hm)
  | advance h => exact (Moves.proceeds (advanceDeadlineWithReport_moves h)).masks hm
  | play _ h => exact (Plays.proceeds h).masks hm

/-- While a deck is shuffled a command that leaves the seats alone loses kicked members only. -/
theorem Runs.onlyKicks {phase : ShufflingPhase G} (h : Runs context args s command m)
    (hp : s.table.handPhase = .shuffling phase) (hc : command.changesSeats = false)
    (hm : m.table.handPhase ≠ .waiting) : OnlyKicks s.table m.table := by
  cases h with
  | create h =>
    simp only [applyCreateTable, Fallible.bind_eq_ok, Fallible.pure_eq_ok] at h
    obtain ⟨_, -, _, -, _, -, _, -, h⟩ := h
    exact absurd (by rw [withTable_table, ← h]; rfl) hm
  | foldWithProof _ h =>
    obtain ⟨_, _, _, hb, -⟩ := applyFoldWithProof_eq_ok h
    have hbet := (Bool.and_eq_true_iff.mp hb).1
    simp [bettingRound, hp] at hbet
  | kick h => exact ((Moves.proceeds (kickPlayerInternal_moves h)).members hm).2
  | tokens _ hk hplays => exact ((hk.proceeds.trans (Plays.proceeds hplays)).members hm).2
  | advance h => exact ((Moves.proceeds (advanceDeadlineWithReport_moves h)).members hm).2
  | play _ h => exact ((Plays.proceeds h).members hm).2
  | join | leave | start => cases hc

theorem Calls.proceeds {c : Call} {n : Exec G} (h : Calls s c command m n s') :
    m.table.Proceeds s'.table := by
  obtain ⟨u, hu, hcount⟩ := h.table
  refine (Plays.proceeds h.normalizes).trans (hu.proceeds.trans ?_)
  rw [hcount.rest]
  exact .of_undated rfl (.of_seats rfl rfl)

/-- Nobody joins, leaves or starts a hand while the first deck of a hand is shuffled. -/
def KeepsSeats (s : Exec G) (c : Call) : Prop :=
  ∀ command, CanonicalCommand.fromSelector G c.selector = some command →
    command.changesSeats = true → s.table.shufflePhase ≠ shufflePhaseBeforePreflop

/-- The members of a hand are stable while its deck is shuffled, and seats change between hands
only. -/
structure StableMembers (s : Exec G) : Prop where
  masks : s.table.MasksMatch
  contributors : ∀ c s', ((session G).restrict KeepsSeats).next s c s' →
    (∃ phase, s.table.handPhase = .shuffling phase) → s'.table.handPhase ≠ .waiting →
      OnlyKicks s.table s'.table
  between : ∀ c s' command, ((session G).restrict KeepsSeats).next s c s' →
    CanonicalCommand.fromSelector G c.selector = some command → command.changesSeats = true →
      s.table.handPhase = .waiting

theorem waiting_of_keepsSeats {c : Call} {n : Exec G} (h : Calls s c command m n s')
    (hkeeps : KeepsSeats s c) (hcustody : s.table.Custody) (hc : command.changesSeats = true) :
    s.table.handPhase = .waiting := by
  have hs := stage_eq_between hcustody.toPhased (h.runs.round hc)
  have hne := hkeeps command h.decoded hc
  unfold TexasPokerTable.stage at hs
  unfold shufflePhase at hne
  cases hp : s.table.handPhase with
  | waiting => rfl
  | shuffling phase =>
    rw [hp] at hs hne
    cases phase with
    | initial => exact absurd rfl hne
    | reconstruct => cases hs
  | _ => rw [hp] at hs; cases hs

theorem stableMembers_of_masks (hs : (session G).Reachable s) (hm : s.table.MasksMatch) :
    StableMembers s where
  masks := hm
  contributors c s' h hp hw := by
    obtain ⟨phase, hp⟩ := hp
    obtain ⟨command, m, n, hcalls⟩ := call_eq_ok h.2
    have hc : command.changesSeats = false := by
      by_contra hc
      rw [Bool.not_eq_false] at hc
      have hwait := waiting_of_keepsSeats hcalls h.1 (custody_isInvariant.of_reachable hs) hc
      rw [hp] at hwait
      cases hwait
    obtain ⟨hmw, hkicks⟩ := hcalls.proceeds.members hw
    exact (hcalls.runs.onlyKicks hp hc hmw).trans hkicks
  between c s' command h hcommand hc := by
    obtain ⟨command', m, n, hcalls⟩ := call_eq_ok h.2
    obtain rfl : command' = command := by
      have := hcalls.decoded
      rw [hcommand, Option.some.injEq] at this
      exact this.symm
    exact waiting_of_keepsSeats hcalls h.1 (custody_isInvariant.of_reachable hs) hc

/-- Membership is stable in every run that leaves the seats alone while the first deck of a hand is
shuffled. -/
theorem stableMembers_isInvariant :
    ((session G).restrict KeepsSeats).IsInvariant StableMembers where
  init s hi := by
    refine stableMembers_of_masks (.init hi) ?_
    obtain ⟨id, creator, rules, -, rfl⟩ := hi
    exact masksMatch_of_not_shuffling fun _ hp => by cases hp
  next s c s' hr hs h := by
    refine stableMembers_of_masks (.next c hr.of_restrict h.2) ?_
    obtain ⟨command, m, n, hcalls⟩ := call_eq_ok h.2
    refine hcalls.proceeds.masks (hcalls.runs.masksMatch (fun hc => ?_) hs.masks)
    change s.table.handPhase = .waiting
    exact waiting_of_keepsSeats hcalls h.1 (custody_isInvariant.of_reachable hr.of_restrict) hc

end Exec

section Transparent

open Transparent

/-- A player leaves while the first deck of a hand is shuffled. -/
@[irreducible] def leftShuffle : TexasPokerTable ℤ :=
  played (.new 4 50 100) [.join 1 1000 2, .join 2 1000 3, .join 3 1000 5, .start,
    .act .leaveTable 2 []]

theorem leftShuffle_facts : leftShuffle.shufflePhase = shufflePhaseBeforePreflop ∧
    leftShuffle.shuffleState.pendingMask ||| leftShuffle.shuffleState.completedMask ≠
      leftShuffle.getActiveSeatMask := by
  unfold leftShuffle
  decide +kernel

/-- A player who leaves then still has to shuffle. -/
theorem leftShuffle_unstable : ∃ s : Exec ℤ, (session ℤ).Reachable s ∧ ¬ s.StableMembers := by
  obtain ⟨events, hs⟩ : leftShuffle.Reachable := by
    unfold leftShuffle
    exact played_reachable (by decide) _
  refine ⟨_, hs, fun h => ?_⟩
  obtain ⟨hphase, hne⟩ := leftShuffle_facts
  unfold TexasPokerTable.shufflePhase at hphase
  unfold TexasPokerTable.shuffleState at hne
  cases hp : leftShuffle.handPhase with
  | shuffling phase =>
    rw [hp] at hne
    exact hne (h.masks phase hp).2
  | _ => rw [hp] at hphase; cases hphase

/-- The call leaves the seats alone while the first deck of a hand is shuffled. -/
def keepsSeats (s : Exec ℤ) (c : Call) : Bool :=
  (CanonicalCommand.fromSelector ℤ c.selector).all fun command =>
    !command.changesSeats || s.table.shufflePhase ≠ shufflePhaseBeforePreflop

theorem keepsSeats_of_eq_true {s : Exec ℤ} {c : Call} (h : keepsSeats s c = true) :
    s.KeepsSeats c := by
  intro command hc hseats
  rw [keepsSeats, hc, Option.all_some, hseats] at h
  exact of_decide_eq_true h

/-- Three players sit down, and two of them shuffle. -/
def twoShuffled : PokerL1Result (Exec ℤ) :=
  playAllowed keepsSeats (.new 4 50 100) [.join 1 1000 2, .join 2 1000 3, .join 3 1000 5, .start,
    .shuffle 0, .shuffle 1]

/-- The third still has to shuffle, and the members are stable. -/
theorem twoShuffled_stable : ∃ s : Exec ℤ, s.table.shuffleState = ⟨4, 3⟩ ∧ s.StableMembers := by
  have hrun : Fallible.holds twoShuffled (fun s => s.table.shuffleState.pendingMask = 4 ∧
      s.table.shuffleState.completedMask = 3) = true := by
    decide +kernel
  obtain ⟨s, hs, hp⟩ := Fallible.holds_iff.mp hrun
  obtain ⟨hpending, hcompleted⟩ := of_decide_eq_true hp
  have hr := playAllowed_reachable (fun _ _ => keepsSeats_of_eq_true) (by decide) hs
  refine ⟨s, ?_, Exec.stableMembers_isInvariant.of_reachable hr⟩
  rw [← hpending, ← hcompleted]

end Transparent

end TexasPoker
