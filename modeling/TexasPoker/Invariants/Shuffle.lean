import TexasPoker.Invariants.Members

/-! # Membership during a shuffle

The masks of a shuffle split the seats of the hand, and the contributors lose kicked seats
only: every move of a hand keeps this, so it holds in every run that leaves the seats alone
while the first deck of a hand is shuffled.
-/

namespace TexasPoker

variable {G : Type}

theorem HandPhase.shuffling_of_undated {p p' : HandPhase G} {phase' : ShufflingPhase G}
    (h : p'.undated = p.undated) (hp : p' = .shuffling phase') :
    ∃ phase, p = .shuffling phase ∧ phase.state = phase'.state := by
  subst hp
  cases p with
  | shuffling phase =>
    refine ⟨phase, rfl, ?_⟩
    cases phase <;> cases phase' <;> simp_all [undated, ShufflingPhase.withDeadline,
      ShufflingPhase.state]
  | _ => cases h

theorem HandPhase.waiting_of_undated {p p' : HandPhase G} (h : p'.undated = p.undated)
    (hp : p = .waiting) : p' = .waiting := by
  subst hp
  cases p' <;> first | rfl | cases h

namespace TexasPokerTable

/-- While a deck is shuffled, the seats of the hand either still have to shuffle or have. -/
def MasksMatch (t : TexasPokerTable G) : Prop :=
  ∀ phase, t.handPhase = .shuffling phase →
    phase.state.pendingMask &&& phase.state.completedMask = 0 ∧
      phase.state.pendingMask ||| phase.state.completedMask = t.getActiveSeatMask

/-- A hand goes on: the masks still match, and only kicked members are lost. -/
structure Proceeds (t t' : TexasPokerTable G) : Prop where
  masks : t.MasksMatch → t'.MasksMatch
  members : t'.handPhase ≠ .waiting → t.handPhase ≠ .waiting ∧ OnlyKicks t t'

variable {t t' t'' : TexasPokerTable G}

theorem Proceeds.trans (h : Proceeds t t') (h' : Proceeds t' t'') : Proceeds t t'' := by
  refine ⟨fun hm => h'.masks (h.masks hm), fun hw => ?_⟩
  obtain ⟨hw', hk'⟩ := h'.members hw
  obtain ⟨hw, hk⟩ := h.members hw'
  exact ⟨hw, hk.trans hk'⟩

theorem masksMatch_of_not_shuffling (h : ∀ phase, t.handPhase ≠ .shuffling phase) :
    t.MasksMatch := fun phase hp => absurd hp (h phase)

theorem masksMatch_of_state {phase : ShufflingPhase G} (hp : t.handPhase = .shuffling phase)
    (hs : phase.state = ⟨t.getActiveSeatMask, 0⟩) : t.MasksMatch := by
  intro phase' hp'
  rw [hp] at hp'
  obtain rfl := HandPhase.shuffling.inj hp'
  rw [hs]
  exact ⟨BitVec.and_zero, BitVec.or_zero⟩

/-- The same phase up to its clock, with the same members. -/
theorem Proceeds.of_undated (hp : t'.handPhase.undated = t.handPhase.undated)
    (hm : SameMembers t t') : Proceeds t t' := by
  refine ⟨fun h phase hp' => ?_, fun hw => ⟨fun hw' => ?_, hm.onlyKicks⟩⟩
  · obtain ⟨phase₀, hp₀, hs⟩ := HandPhase.shuffling_of_undated hp hp'
    rw [← hs, hm.getActiveSeatMask]
    exact h phase₀ hp₀
  · exact hw (HandPhase.waiting_of_undated hp hw')

theorem Proceeds.refl (t : TexasPokerTable G) : Proceeds t t := .of_undated rfl (.refl t)

/-- The hand is over. -/
theorem Proceeds.of_waiting (h : t'.handPhase = .waiting) : Proceeds t t' := by
  refine ⟨fun _ => masksMatch_of_not_shuffling fun phase hp => ?_, fun hw => absurd h hw⟩
  rw [h] at hp
  cases hp

/-- Another phase that shuffles nothing, with the same members. -/
theorem Proceeds.of_phase (hw : t.handPhase ≠ .waiting)
    (hs : ∀ phase, t'.handPhase ≠ .shuffling phase) (hm : SameMembers t t') : Proceeds t t' :=
  ⟨fun _ => masksMatch_of_not_shuffling hs, fun _ => ⟨hw, hm.onlyKicks⟩⟩

/-- A shuffle that starts over, with the same members. -/
theorem Proceeds.of_state {phase : ShufflingPhase G} (hw : t.handPhase ≠ .waiting)
    (hp : t'.handPhase = .shuffling phase) (hs : phase.state = ⟨t'.getActiveSeatMask, 0⟩)
    (hm : SameMembers t t') : Proceeds t t' :=
  ⟨fun _ => masksMatch_of_state hp hs, fun _ => ⟨hw, hm.onlyKicks⟩⟩

theorem not_waiting_of_betting (h : t.bettingRound.isSome = true) : t.handPhase ≠ .waiting := by
  intro hp
  simp [bettingRound, hp] at h

theorem not_waiting_of_reveal {reveal : RevealTokenState G} (h : t.revealTokenState = some reveal) :
    t.handPhase ≠ .waiting := by
  intro hp
  simp [revealTokenState, hp] at h

theorem not_waiting_of_shufflePhase (h : t.shufflePhase ≠ shufflePhaseNone) :
    t.handPhase ≠ .waiting := by
  intro hp
  simp [shufflePhase, hp] at h

theorem not_waiting_of_round (h : t.roundState ≠ roundWaiting) : t.handPhase ≠ .waiting := by
  intro hp
  simp [roundState, hp] at h

theorem Retimed.proceeds (h : Retimed t t') : Proceeds t t' :=
  .of_undated h.phase (.of_seats h.seats (by rw [h.deckState]))

theorem proceeds_opened {street dealt : ℕ} {purpose : RevealPurpose}
    {assignments : List (RevealAssignment G)} (hw : t.handPhase ≠ .waiting) :
    Proceeds t (t.opened street dealt purpose assignments) :=
  .of_phase hw (fun _ h => by cases h) (.of_seats rfl rfl)

end TexasPokerTable

namespace Exec

open TexasPokerTable

variable {s s' : Exec G}

/-- The step keeps a hand going. -/
abbrev Proceeds (s s' : Exec G) : Prop := s.table.Proceeds s'.table

theorem setCurrentTurn_proceeds {turn : Option ℕ} (h : s.setCurrentTurn turn = .ok s') :
    Proceeds s s' := by
  obtain ⟨-, hb, ht, -⟩ := setCurrentTurn_eq_ok h
  refine .of_phase (not_waiting_of_betting hb) (fun phase hp => ?_) ?_
  · rw [ht] at hp
    have hb' : (s.table.withTurn (turn.getD noSeat)).bettingRound.isSome = true := by
      rwa [bettingRound_withTurn]
    simp [bettingRound, hp] at hb'
  · rw [ht]
    exact .of_seats rfl rfl

theorem sameMembers_collected {t : TexasPokerTable G} : SameMembers t t.collected :=
  ⟨fun _ => Seat.kind_clearBet _, rfl⟩

theorem OpensNext.proceeds (h : OpensNext s s') : Proceeds s s' := by
  cases h with
  | board hd ho ht _ =>
    have hw : s.table.handPhase ≠ .waiting := by
      refine not_waiting_of_round fun h0 => ?_
      rw [h0] at hd
      simp [streetDeals, roundWaiting, roundPreflop, roundFlop, roundTurn] at hd
    rw [Exec.Proceeds, ht, (startCommunityRevealPhase_eq_ok ho).2.2.1]
    exact proceeds_opened hw
  | showdown hr ho ht _ =>
    obtain ⟨_, -, ho, -⟩ := startShowdownRevealPhase_eq_ok ho
    have hw : s.table.handPhase ≠ .waiting := by
      refine not_waiting_of_round fun h0 => ?_
      rw [h0] at hr
      cases hr
    rw [Exec.Proceeds, ht, ho]
    exact proceeds_opened hw

theorem maybeTriggerRunItTwice_proceeds (h : s.maybeTriggerRunItTwice = .ok s') :
    Proceeds s s' := by
  rcases maybeTriggerRunItTwice_eq_ok h with rfl | ⟨-, -, _, -, ht, -⟩
  · exact .refl _
  · rw [Exec.Proceeds, ht]
    exact .of_undated rfl (.of_seats rfl rfl)

theorem RestartsReveal.proceeds (hw : s.table.handPhase ≠ .waiting) (h : RestartsReveal s s') :
    Proceeds s s' := by
  cases h with
  | hole _ h =>
    rw [Exec.Proceeds, (startPreflopRevealPhase_eq_ok h).1]
    exact .of_phase hw (fun _ h => by cases h) (.of_seats rfl rfl)
  | board _ _ _ h =>
    rw [Exec.Proceeds, (startCommunityRevealPhase_eq_ok h).2.2.1]
    exact proceeds_opened hw
  | showdown _ h =>
    obtain ⟨_, -, ht, -⟩ := startShowdownRevealPhase_eq_ok h
    rw [Exec.Proceeds, ht]
    exact proceeds_opened hw
  | idle h => exact h ▸ .refl _

theorem PassesShuffle.proceeds (h : PassesShuffle s s') : Proceeds s s' := by
  cases h with
  | idle _ h => exact h ▸ .refl _
  | next _ _ ht _ => exact ht.proceeds
  | deal hp _ _ h =>
    have hw := not_waiting_of_shufflePhase (t := s.table) (by rw [hp]; decide)
    rw [Exec.Proceeds, (startPreflopRevealPhase_eq_ok h).1]
    exact proceeds_opened hw
  | restart hp _ _ h =>
    have hw := not_waiting_of_shufflePhase (t := s.table) (by rw [hp]; decide)
    exact RestartsReveal.proceeds (s := s.emit _) hw h

variable [AddCommGroup G] [Protocol G] [DecidableEq G]

theorem endWithoutShowdown_proceeds (h : s.endWithoutShowdown = .ok s') : Proceeds s s' :=
  .of_waiting (endWithoutShowdown_loses h).2.phase

theorem resetForNextHand_proceeds (h : s.resetForNextHand = .ok s') : Proceeds s s' :=
  .of_waiting (resetForNextHand_loses h).2.phase

theorem advanceRound_proceeds (h : s.advanceRound = .ok s') : Proceeds s s' := by
  rcases advanceRound_eq_ok h with ⟨-, h⟩ | ⟨-, m, hm, h⟩
  · exact endWithoutShowdown_proceeds h
  · refine (maybeTriggerRunItTwice_proceeds hm).trans ?_
    rcases h with ⟨-, rfl⟩ | h
    · exact .refl _
    · exact h.proceeds

/-! ## Openings -/

omit [AddCommGroup G] [Protocol G] [DecidableEq G] in
theorem sameMembers_posted {t : TexasPokerTable G} {k : Fin maxSeats} {p p' : PlayingSeat G}
    (hk : t.seats k = .playing p) : SameMembers t (t.setSeat k (.playing p')) :=
  .setSeat (by rw [seat_val, hk]; rfl)

omit [AddCommGroup G] [Protocol G] [DecidableEq G] in
/-- Blinds and antes leave the phase and the members alone. -/
theorem postBlinds_members {bbSeat : ℕ} (h : s.postBlinds = .ok (s', bbSeat)) :
    s'.table.handPhase = s.table.handPhase ∧ SameMembers s.table s'.table := by
  obtain ⟨-, -, ht⟩ := postBlinds_eq_ok h
  have hstep : ∀ b ∈ s.table.blinds, ∀ t t' : TexasPokerTable G,
      t.postBlind b.1 b.2.1 b.2.2 = .ok t' →
      t.handPhase = s.table.handPhase ∧ SameMembers s.table t →
      t'.handPhase = s.table.handPhase ∧ SameMembers s.table t' := by
    rintro b - t t' hb ⟨hp, hm⟩
    obtain ⟨k, p, -, hk, -, rfl⟩ := postBlind_eq_ok hb
    exact ⟨hp, hm.trans (sameMembers_posted hk)⟩
  exact Fallible.foldlM_keeps (P := fun t : TexasPokerTable G =>
    t.handPhase = s.table.handPhase ∧ SameMembers s.table t) hstep ht ⟨rfl, .of_seats rfl rfl⟩

omit [AddCommGroup G] [Protocol G] [DecidableEq G] in
theorem collectAnte_members {bbSeat : ℕ} (h : s.collectAnte bbSeat = .ok s') :
    s'.table.handPhase = s.table.handPhase ∧ SameMembers s.table s'.table := by
  obtain ⟨-, ⟨-, rfl⟩ | ⟨-, ht⟩⟩ := collectAnte_eq_ok h
  · exact ⟨rfl, .refl _⟩
  have hstep : ∀ a ∈ s.table.antes bbSeat, ∀ t t' : TexasPokerTable G, t.postAnte a = .ok t' →
      t.handPhase = s.table.handPhase ∧ SameMembers s.table t →
      t'.handPhase = s.table.handPhase ∧ SameMembers s.table t' := by
    rintro a - t t' ha ⟨hp, hm⟩
    obtain ⟨k, p, -, hk, rfl⟩ := postAnte_eq_ok ha
    exact ⟨hp, hm.trans (sameMembers_posted hk)⟩
  exact Fallible.foldlM_keeps (P := fun t : TexasPokerTable G =>
    t.handPhase = s.table.handPhase ∧ SameMembers s.table t) hstep ht ⟨rfl, .of_seats rfl rfl⟩

omit [AddCommGroup G] [Protocol G] [DecidableEq G] in
theorem sameMembers_bettingOpened {t : TexasPokerTable G} {isPreflop : Bool} :
    SameMembers t (t.bettingOpened isPreflop) := by
  cases isPreflop
  · exact ⟨fun _ => Seat.kind_clearBet _, rfl⟩
  · exact .of_seats rfl rfl

omit [AddCommGroup G] [Protocol G] [DecidableEq G] in
/-- A betting round opens out of a reveal. -/
theorem opened_proceeds {isPreflop : Bool} {turn : Option ℕ} (hw : s.table.handPhase ≠ .waiting)
    (h : (s.withTable (s.table.bettingOpened isPreflop)).setCurrentTurn turn = .ok s') :
    Proceeds s s' := by
  have hopened : Proceeds s (s.withTable (s.table.bettingOpened isPreflop)) := by
    refine .of_phase hw (fun phase hp => ?_) sameMembers_bettingOpened
    cases isPreflop <;> cases hp
  exact hopened.trans (setCurrentTurn_proceeds h)

omit [AddCommGroup G] [Protocol G] [DecidableEq G] in
theorem not_waiting_of_revealed {t : TexasPokerTable G} {purpose : RevealPurpose}
    (h : t.Revealed purpose) : t.handPhase ≠ .waiting := by
  obtain ⟨_, _, hp⟩ := h
  rw [hp]
  nofun


/-! ## Moves -/

omit [AddCommGroup G] [Protocol G] [DecidableEq G] in
theorem sameMembers_acted {t u : TexasPokerTable G} {i : ℕ} (h : SameMembers t u) :
    SameMembers t (u.acted i) := ⟨h.kinds, h.contributors⟩

omit [AddCommGroup G] [Protocol G] [DecidableEq G] in
theorem PassesShuffle.after {m : Exec G} (hs : Proceeds s m) (h : PassesShuffle m s') :
    Proceeds s s' := Proceeds.trans hs h.proceeds

omit [AddCommGroup G] [Protocol G] [DecidableEq G] in
theorem onCompleteReconstruct_proceeds (h : s.onCompleteReconstruct = .ok s') :
    Proceeds s s' := by
  obtain ⟨m, reveal, encrypted, hr, -, ht, -, h⟩ := onCompleteReconstruct_eq_ok h
  have hm : SameMembers s.table m.table := by
    rw [ht]
    exact .of_seats rfl rfl
  refine h.after (.of_state (not_waiting_of_reveal hr) (by rw [ht]) ?_ hm)
  rw [hm.getActiveSeatMask]
  rfl

/-- The shuffler passes from the pending to the completed seats. -/
theorem applySubmitShuffleV2_proceeds {i : ℕ} {outputCards : List (ElGamalCiphertext G)}
    {proof : Protocol.ShuffleProof G}
    (h : s.applySubmitShuffleV2 i outputCards proof = .ok s') : Proceeds s s' := by
  obtain ⟨phase, _, _, _, m, hp, hcur, hocc, -, -, -, -, ht, -, hpass⟩ :=
    applySubmitShuffleV2_eq_ok h
  obtain ⟨k, rfl, -⟩ := isOccupied_seat hocc
  have hi := k.isLt
  have hm : SameMembers s.table m.table := by
    rw [ht]
    exact .of_seats rfl rfl
  have hw : s.table.handPhase ≠ .waiting := by
    rw [hp]
    nofun
  refine hpass.after ⟨fun hmasks phase' hp' => ?_, fun _ => ⟨hw, hm.onlyKicks⟩⟩
  obtain ⟨hdis, hall⟩ := hmasks phase hp
  have hpending : Mask.mem phase.state.pendingMask k = true := by
    rw [ShuffleState.derivedCurrentShuffler] at hcur
    cases hf : seatMaskFirst phase.state.pendingMask with
    | none =>
      rw [hf] at hcur
      simp only [Option.getD_none, noSeat] at hcur
      simp only [maxSeats] at hi
      omega
    | some j =>
      rw [hf] at hcur
      obtain rfl : j = k := hcur
      exact Mask.mem_of_first hf
  rw [ht] at hp'
  obtain rfl := HandPhase.shuffling.inj hp'
  rw [ShufflingPhase.state_withState, hm.getActiveSeatMask, ← hall]
  constructor
  · rw [Mask.eq_zero_iff] at hdis ⊢
    intro j
    have hj := hdis j
    rw [Mask.mem_and] at hj ⊢
    rw [mem_seatMaskRemove hi, Mask.mem_insert (hi.trans (by decide))]
    grind
  · refine Mask.ext_mem fun j _ => ?_
    rw [Mask.mem_or, Mask.mem_or, mem_seatMaskRemove hi, Mask.mem_insert (hi.trans (by decide))]
    grind

end Exec

end TexasPoker
