import TexasPoker.Invariants.Stored
import TexasPoker.Lib.Codec
import TexasPoker.Vault.Custody

/-! # Leaving an idle table

What a player gets who leaves a table between hands, and when the table lets the player go.
-/

namespace TexasPoker

variable {G : Type}

namespace TexasPokerTable

/-- The table after the player of a seat has left it. -/
def leftBy (t : TexasPokerTable G) (k : Fin maxSeats) : TexasPokerTable G :=
  { t.setSeat k .empty with
    chipPool := t.chipPool - ((t.seats k).stack + (t.seats k).pendingAddon)
    deckState := { t.deckState with
      contributorMask := seatMaskRemove t.deckState.contributorMask k } }

/-- The keys of the deck contributors other than a seat. -/
def otherKeys (t : TexasPokerTable G) (k : Fin maxSeats) : List G :=
  t.keysOf (seatMaskRemove t.deckState.contributorMask k)

/-- No flag stands at the seat, and the other contributors keep a proper shared key. -/
structure LetsGo [AddCommGroup G] (t : TexasPokerTable G) (k : Fin maxSeats) : Prop where
  acted : t.seatActedThisRound k = false
  stays : t.seatWantsLeave k = false
  keys : sharedKey (t.otherKeys k) ≠ some 0

variable {t : TexasPokerTable G} {k : Fin maxSeats}

theorem leftBy_seats_self : (t.leftBy k).seats k = .empty := if_pos rfl

theorem leftBy_seats_of_ne {i : Fin maxSeats} (h : i ≠ k) : (t.leftBy k).seats i = t.seats i :=
  if_neg (Fin.val_ne_of_ne h)

theorem leftBy_seat_of_ne {i : ℕ} (h : i ≠ k) : (t.leftBy k).seat i = t.seat i := by
  unfold seat
  split
  · rename_i hi
    exact leftBy_seats_of_ne (k := k) (i := ⟨i, hi⟩) fun h' => h (congrArg Fin.val h')
  · rfl

/-- A leaving player takes its cards along. -/
theorem leftBy_materializedCards :
    List.Sublist (t.leftBy k).materializedCards t.materializedCards := by
  refine List.Sublist.append_left (List.Sublist.flatMap_right _ fun i _ => ?_) _
  by_cases hi : i = k
  · rw [hi, leftBy_seats_self]
    exact List.nil_sublist _
  · rw [leftBy_seats_of_ne hi]

theorem leftBy_hand {i : ℕ} : ∀ hand ∈ ((t.leftBy k).seat i).hand, hand ∈ (t.seat i).hand := by
  by_cases hi : i = k
  · subst hi
    rw [seat_val, leftBy_seats_self]
    exact fun _ h => by cases h
  · rw [leftBy_seat_of_ne hi]
    exact fun _ h => h

theorem leftBy_validateLedgerRecord {seen seen' : List ℕ} {r : ℕ × ℕ × PartialHoleCard G}
    (h : t.validateLedgerRecord seen r = .ok seen') :
    (t.leftBy k).validateLedgerRecord seen r = .ok seen' := by
  simp only [validateLedgerRecord, Fallible.bind_eq_ok, Fallible.ensure_eq_ok] at h ⊢
  obtain ⟨_, hindex, _, howner, _, hnew, _, hhand, h⟩ := h
  exact ⟨(), hindex, (), howner, (), hnew, (), fun hand hm => hhand hand (leftBy_hand hand hm), h⟩

theorem ne_of_mem_remove {mask : SeatMask} {i max : ℕ}
    (h : i ∈ seatMaskToIndices (seatMaskRemove mask k) max) : i ≠ k := by
  have hmem := (seatMaskContains_iff.mp (List.mem_filter.mp h).2).2
  rw [mem_seatMaskRemove k.isLt, Bool.and_eq_true, decide_eq_true_eq] at hmem
  exact hmem.2

theorem mem_of_mem_remove {mask : SeatMask} {i max : ℕ}
    (h : i ∈ seatMaskToIndices (seatMaskRemove mask k) max) : i ∈ seatMaskToIndices mask max := by
  obtain ⟨hi, hmem⟩ := List.mem_filter.mp h
  obtain ⟨hlt, hmem⟩ := seatMaskContains_iff.mp hmem
  rw [mem_seatMaskRemove k.isLt, Bool.and_eq_true] at hmem
  exact List.mem_filter.mpr ⟨hi, seatMaskContains_iff.mpr ⟨hlt, hmem.1⟩⟩

theorem leftBy_keysOf : (t.leftBy k).keysOf (seatMaskRemove t.deckState.contributorMask k) =
    t.otherKeys k :=
  List.filterMap_congr fun _ hi => by rw [leftBy_seat_of_ne (ne_of_mem_remove hi)]

section Schema

variable [AddCommGroup G] [DecidableEq G]

/-- The shared key of a table without the seat. -/
theorem Schema.leftBy_derivedAggregatedPk (h : t.Schema) {key : Option G} :
    (t.leftBy k).derivedAggregatedPk = .ok key ↔
      key = TexasPokerTable.sharedKey (t.otherKeys k) ∧ key ≠ some 0 := by
  obtain ⟨_, hkey⟩ := h.sharedKey
  obtain ⟨hmask, hlive, -⟩ := aggregatedPkForContributorMask_eq_ok.mp hkey
  refine aggregatedPkForContributorMask_eq_ok.trans ?_
  constructor
  · rintro ⟨-, -, hk, hne⟩
    exact ⟨hk.trans (congrArg _ leftBy_keysOf), hne⟩
  · rintro ⟨hk, hne⟩
    refine ⟨seatMaskIsCanonical_remove hmask, fun i hi => ?_,
      hk.trans (congrArg _ leftBy_keysOf).symm, hne⟩
    obtain ⟨pk, hpk⟩ := hlive i (mem_of_mem_remove hi)
    refine ⟨pk, ?_⟩
    rwa [HasKey, leftBy_seat_of_ne (ne_of_mem_remove hi)]

theorem aggregatedPkForContributorMask_congr {t t' : TexasPokerTable G}
    (hrules : t'.rules = t.rules) (hseats : t'.seats = t.seats) (mask : SeatMask) :
    t'.aggregatedPkForContributorMask mask = t.aggregatedPkForContributorMask mask := by
  cases t
  cases t'
  cases hrules
  cases hseats
  rfl

/-- The key of a vacated seat is taken out unless the other keys cancel out. -/
theorem Schema.removeDeckContributor_iff (h : t.Schema) (chipPool : ℕ) {u : TexasPokerTable G} :
    (({ t with chipPool }).setSeat k .empty).removeDeckContributor k = .ok u ↔
      TexasPokerTable.sharedKey (t.otherKeys k) ≠ some 0 ∧ u = { t.leftBy k with chipPool } := by
  have hagg : (({ t with chipPool }).setSeat k .empty).aggregatedPkForContributorMask
      (seatMaskRemove t.deckState.contributorMask k) = (t.leftBy k).derivedAggregatedPk :=
    aggregatedPkForContributorMask_congr (t := t.leftBy k) rfl rfl _
  rw [removeDeckContributor, Fallible.bind_eq_ok]
  constructor
  · rintro ⟨_, hkey, hu⟩
    obtain ⟨rfl, hne⟩ := h.leftBy_derivedAggregatedPk.mp (hagg.symm.trans hkey)
    cases hu
    exact ⟨hne, rfl⟩
  · rintro ⟨hne, rfl⟩
    exact ⟨_, hagg.trans (h.leftBy_derivedAggregatedPk.mpr ⟨rfl, hne⟩), rfl⟩

theorem Schema.leftBy_validateSeat (h : t.Schema) (i : Fin maxSeats)
    (hk : i = k → t.seatActedThisRound k = false ∧ t.seatWantsLeave k = false) :
    (t.leftBy k).validateSeat i = .ok () := by
  have hi := h.seats i
  simp only [validateSeat, Fallible.bind_eq_ok, Fallible.ensure_eq_ok] at hi ⊢
  obtain ⟨_, hvalid, _, hone, hflags⟩ := hi
  by_cases hik : i = k
  · obtain ⟨hacted, hstays⟩ := hk hik
    subst hik
    rw [leftBy_seats_self]
    refine ⟨(), rfl, (), fun hocc => absurd hocc Bool.false_ne_true, fun _ => ?_⟩
    change ¬ (t.seatActedThisRound i || t.seatWantsLeave i) = true
    rw [hacted, hstays]
    decide
  · rw [leftBy_seats_of_ne hik]
    refine ⟨(), hvalid, (), fun hocc j hj hoccj => ?_, hflags⟩
    by_cases hjk : j = k
    · rw [hjk, leftBy_seats_self] at hoccj
      cases hoccj
    · rw [leftBy_seats_of_ne hjk] at hoccj ⊢
      exact hone hocc j hj hoccj

/-- A stored idle table is stored without a player exactly when it lets the player go. -/
theorem Schema.leftBy_iff (h : t.Schema) (hw : t.handPhase = .waiting) :
    (t.leftBy k).Schema ↔ t.LetsGo k := by
  have hphase : (t.leftBy k).handPhase = .waiting := hw
  constructor
  · intro h'
    obtain ⟨key, hkey⟩ := h'.sharedKey
    obtain ⟨rfl, hne⟩ := h.leftBy_derivedAggregatedPk.mp hkey
    have hk := h'.seats k
    simp only [validateSeat, Fallible.bind_eq_ok, Fallible.ensure_eq_ok] at hk
    obtain ⟨_, -, _, -, hflags⟩ := hk
    have hflags := hflags (by rw [leftBy_seats_self]; rfl)
    rw [Bool.or_eq_true, not_or, Bool.not_eq_true, Bool.not_eq_true] at hflags
    exact ⟨hflags.1, hflags.2, hne⟩
  · intro hgo
    refine
      { rules := h.rules, padding := fun i => ?_, flags := h.flags, button := h.button
        phase := by rw [validateHandPhase, hphase]
        seats := fun i => h.leftBy_validateSeat i fun _ => ⟨hgo.acted, hgo.stays⟩
        sharedKey := ⟨_, h.leftBy_derivedAggregatedPk.mpr ⟨rfl, hgo.keys⟩⟩
        board := h.board, runouts := h.runouts, cards := ?_, ledger := ?_, pending := h.pending
        completed := h.completed, shuffled := h.shuffled, reveals := h.reveals
        reconstruct := h.reconstruct, accumulated := h.accumulated }
    · by_cases hi : i = k
      · rw [hi, leftBy_seats_self]
        exact .inr rfl
      · rw [leftBy_seats_of_ne hi]
        exact h.padding i
    · have hsub := leftBy_materializedCards (t := t) (k := k)
      refine ⟨List.all_eq_true.mpr fun c hc => ?_, (hsub.map Card.index).nodup h.cards.2⟩
      exact List.all_eq_true.mp h.cards.1 c (hsub.subset hc)
    · obtain ⟨seen, hseen⟩ := h.ledger
      refine ⟨seen, Fallible.foldlM_imp (fun r _ seen seen' hr => ?_) hseen⟩
      exact leftBy_validateLedgerRecord hr

/-- A stored idle table can be stored without a player exactly when it lets the player go. -/
theorem leftBy_persist_iff [Protocol G] (h : t.persist = .ok ()) (hw : t.handPhase = .waiting) :
    (t.leftBy k).persist = .ok () ↔ t.LetsGo k := by
  obtain ⟨hschema, hfits⟩ := persist_eq_ok.mp h
  rw [persist_eq_ok, hschema.leftBy_iff hw, and_iff_left]
  rw [recordsFit, Bool.and_eq_true, List.all_eq_true] at hfits ⊢
  refine ⟨fun i hi => ?_, hfits.2⟩
  by_cases hik : i = k
  · rw [hik, leftBy_seats_self]
    have hvacant : recordFits 4 seatRecordWidth = true := by decide
    exact Bool.or_eq_true_iff.mpr (.inr hvacant)
  · rw [leftBy_seats_of_ne hik]
    exact hfits.1 i hi

/-- The player of a seat is found at it. -/
theorem Schema.authenticatedCallerSeat (h : t.Schema) (hk : (t.seats k).isOccupied = true)
    {context : DispatchContext} (hc : context.caller = (t.seats k).player) (method : String) :
    TexasPoker.authenticatedCallerSeat context t method = .ok k.1 := by
  have hpadding : t.paddingSeatsAreVacant = true :=
    List.all_eq_true.mpr fun i _ => by simpa using h.padding i
  have hfilter : (List.finRange maxSeats).filter (fun i =>
      (t.seats i).isOccupied && (t.seats i).player = context.caller) = [k] := by
    have hmem : ∀ i ∈ List.finRange maxSeats,
        ((t.seats i).isOccupied && decide ((t.seats i).player = context.caller)) = (i == k) := by
      intro i _
      rw [Bool.eq_iff_iff, Bool.and_eq_true, decide_eq_true_eq, beq_iff_eq, hc]
      constructor
      · rintro ⟨hi, hplayer⟩
        by_contra hne
        exact h.player_ne hne hi hk hplayer
      · rintro rfl
        exact ⟨hk, rfl⟩
    rw [List.filter_congr hmem, List.filter_beq, List.count_eq_one_of_mem
      (List.nodup_finRange _) (List.mem_finRange k)]
    rfl
  simp only [TexasPoker.authenticatedCallerSeat, Fallible.ensure_pos hpadding, Fallible.ok_bind,
    hfilter]
  rfl

end Schema

/-- What the table reports when a player leaves. -/
def leaveEvents (t : TexasPokerTable G) (k : Fin maxSeats) : List TexasPokerEvent :=
  let amount := (t.seats k).stack + (t.seats k).pendingAddon
  (if 0 < amount then [.playerRefund t.id k (t.seats k).player amount refundTypeStackOnly]
    else []) ++ [.playerLeft t.id k (t.seats k).player]

end TexasPokerTable

namespace Exec

variable [AddCommGroup G] [Protocol G] [DecidableEq G] {s s' : Exec G} {k : Fin maxSeats}

omit [Protocol G] in
/-- A covered player of a table between hands leaves unless the others' keys cancel out. -/
theorem applyLeaveTable_iff (h : s.table.Schema) (hr : s.table.canLeaveState = true)
    (hk : (s.table.seats k).isOccupied = true)
    (hmax : (s.table.seats k).stack + (s.table.seats k).pendingAddon ≤ u64Max)
    (hle : (s.table.seats k).stack + (s.table.seats k).pendingAddon ≤ s.table.chipPool) :
    s.applyLeaveTable k = .ok s' ↔
      TexasPokerTable.sharedKey (s.table.otherKeys k) ≠ some 0 ∧
        s' = ⟨s.table.leftBy k, s.events ++ s.table.leaveEvents k⟩ := by
  have hadd (e : PokerL1Error) := Fallible.checkedAdd_eq_ok (e := e) |>.mpr ⟨hmax, rfl⟩
  have hsub (e : PokerL1Error) := Fallible.checkedSub_eq_ok (e := e) |>.mpr ⟨hle, rfl⟩
  simp only [applyLeaveTable, TexasPokerTable.seat_val, Fallible.ensure_pos hr,
    Fallible.ensure_pos hk, hadd, hsub, Fallible.ok_bind]
  rw [Fallible.bind_eq_ok]
  by_cases hpos : 0 < (s.table.seats k).stack + (s.table.seats k).pendingAddon
  · simp only [if_pos hpos, TexasPokerTable.leaveEvents, ← List.append_assoc]
    constructor
    · rintro ⟨u, hu, hs'⟩
      obtain ⟨hne, rfl⟩ := (h.removeDeckContributor_iff _).mp hu
      cases hs'
      exact ⟨hne, rfl⟩
    · rintro ⟨hne, rfl⟩
      exact ⟨_, (h.removeDeckContributor_iff _).mpr ⟨hne, rfl⟩, rfl⟩
  · have hzero : (s.table.seats k).stack + (s.table.seats k).pendingAddon = 0 := by omega
    have hsame : { s.table.leftBy k with chipPool := s.table.chipPool } = s.table.leftBy k := by
      rw [TexasPokerTable.leftBy, hzero, Nat.sub_zero]
    simp only [if_neg hpos, TexasPokerTable.leaveEvents, List.nil_append]
    constructor
    · rintro ⟨u, hu, hs'⟩
      obtain ⟨hne, rfl⟩ := (h.removeDeckContributor_iff s.table.chipPool).mp hu
      rw [hsame] at hs'
      cases hs'
      exact ⟨hne, rfl⟩
    · rintro ⟨hne, rfl⟩
      refine ⟨_, (h.removeDeckContributor_iff s.table.chipPool).mpr ⟨hne, rfl⟩, ?_⟩
      rw [hsame]
      rfl

/-- A table between hands needs no stage. -/
theorem normalizeUntilBlocked_waiting (hw : s.table.handPhase = .waiting) {nowMs : ℕ}
    {r : Exec G × List NormalizationStep} :
    s.normalizeUntilBlocked nowMs = .ok r ↔ nowMs ≠ 0 ∧ s.table.Schema ∧ r = (s, []) := by
  have hloop : normalizeLoop nowMs maxNormalizationSteps s [] = .ok (s, []) := by
    rw [normalizeLoop, nextNormalizationStep_waiting hw]
    rfl
  have harm : s.table.armActiveDeadlineIfNeeded nowMs = (do
      ensure (nowMs ≠ 0)
        (.serialization "Texas active phase requires a non-zero consensus timestamp")
      return s.table) := by
    rw [TexasPokerTable.armActiveDeadlineIfNeeded, hw]
  simp only [normalizeUntilBlocked, harm, Fallible.bind_eq_ok, Fallible.ensure_eq_ok,
    Fallible.pure_eq_ok]
  constructor
  · rintro ⟨_, ⟨_, hnow, rfl⟩, _, hschema, h⟩
    exact ⟨hnow, TexasPokerTable.validateStateSchema_eq_ok.mp hschema, (Except.ok.inj (hloop.symm.trans h)).symm⟩
  · rintro ⟨hnow, hschema, rfl⟩
    exact ⟨_, ⟨(), hnow, rfl⟩, (), TexasPokerTable.validateStateSchema_eq_ok.mpr hschema, hloop⟩

/-! ## The call -/

/-- A call of `leave_table` by the player of a seat. -/
structure LeaveCall (t : TexasPokerTable G) (k : Fin maxSeats) (c : Call) : Prop where
  selector : CanonicalCommand.fromSelector G c.selector = some .leaveTable
  caller : c.context.caller = (t.seats k).player
  args : c.args = leBytes 1 k

variable {c : Call}

theorem runCommand_leaveTable (h : s.table.Schema) (hk : (s.table.seats k).isOccupied = true)
    (hc : LeaveCall s.table k c) :
    runCommand c.context c.args s .leaveTable = s.applyLeaveTable k := by
  have hk9 := k.isLt
  have hargs : decodeArgs (readSeatAnd (return ())) c.args "leave_table" = .ok (k.1, ()) := by
    rw [decodeArgs, labelled_eq_ok, Decoder.run_eq_ok, hc.args]
    have huint : Decoder.uint 1 (leBytes 1 k) = .ok (k.1, []) :=
      Decoder.uint_eq_ok.mpr ⟨hk9.trans (by decide), by simp⟩
    exact Decoder.bind_eq_ok.mpr ⟨k.1, [], huint, rfl⟩
  have hlt : k.1 < s.table.rules.maxPlayers := by
    refine (h.padding k).resolve_right fun hv => ?_
    cases hs : s.table.seats k <;> simp_all [Seat.isVacant, Seat.isOccupied]
  have hseat : resolveCallerSeat c.context s.table k "leave_table" = .ok k.1 := by
    rw [resolveCallerSeat, Fallible.ensure_pos hlt, Fallible.ok_bind,
      h.authenticatedCallerSeat hk hc.caller, Fallible.ok_bind, Fallible.ensure_pos rfl]
    rfl
  simp only [runCommand, dispatchLeaveTable, dispatchSeat, hargs, hseat, Fallible.ok_bind]

omit [AddCommGroup G] [Protocol G] [DecidableEq G] in
theorem leftBy_ne {t : TexasPokerTable G} (hk : (t.seats k).isOccupied = true) : t.leftBy k ≠ t := by
  intro h
  rw [← h, TexasPokerTable.leftBy_seats_self] at hk
  cases hk

omit [AddCommGroup G] [Protocol G] [DecidableEq G] in
theorem leaveEvents_not_started {t : TexasPokerTable G} :
    (t.leaveEvents k).any TexasPokerEvent.isHandStarted = false := by
  unfold TexasPokerTable.leaveEvents
  dsimp only
  split <;> rfl

/-- A covered player's call is accepted exactly when the table lets the player go, its clock
runs and its counter has room. -/
theorem call_leave_iff (hp : s.table.persist = .ok ()) (hw : s.table.handPhase = .waiting)
    (hk : (s.table.seats k).isOccupied = true)
    (hmax : (s.table.seats k).stack + (s.table.seats k).pendingAddon ≤ u64Max)
    (hle : (s.table.seats k).stack + (s.table.seats k).pendingAddon ≤ s.table.chipPool)
    (hc : LeaveCall s.table k c) :
    s.call c = .ok s' ↔ (s.table.LetsGo k ∧ c.context.blockTimestamp ≠ 0 ∧
      s.table.callSeq + 1 ≤ u32Max) ∧
        s' = ⟨s.table.counted (s.table.leftBy k) (s.table.leaveEvents k),
          s.events ++ s.table.leaveEvents k⟩ := by
  obtain ⟨hschema, -⟩ := TexasPokerTable.persist_eq_ok.mp hp
  have hleave : s.table.canLeaveState = true := by
    simp [TexasPokerTable.canLeaveState, TexasPokerTable.canJoinState,
      TexasPokerTable.roundState, hw]
  have hrun {m : Exec G} : runCommand c.context c.args ⟨s.table, []⟩ .leaveTable = .ok m ↔
      TexasPokerTable.sharedKey (s.table.otherKeys k) ≠ some 0 ∧
        m = ⟨s.table.leftBy k, s.table.leaveEvents k⟩ := by
    rw [runCommand_leaveTable (s := ⟨s.table, []⟩) hschema hk hc]
    exact applyLeaveTable_iff (s := ⟨s.table, []⟩) hschema hleave hk hmax hle
  have hrearm : rearmBettingDeadline c.context (s.table.leftBy k) = .ok (s.table.leftBy k) := by
    have hphase : (s.table.leftBy k).handPhase = .waiting := hw
    rw [rearmBettingDeadline, hphase]
  have hnorm (r : Exec G × List NormalizationStep) :
      normalizeUntilBlocked ⟨s.table.leftBy k, s.table.leaveEvents k⟩ c.context.blockTimestamp =
        .ok r ↔ c.context.blockTimestamp ≠ 0 ∧ (s.table.leftBy k).Schema ∧
          r = (⟨s.table.leftBy k, s.table.leaveEvents k⟩, []) :=
    normalizeUntilBlocked_waiting (s := ⟨s.table.leftBy k, _⟩) hw
  constructor
  · intro h
    obtain ⟨r, hd, hevents⟩ := call_dispatches h
    obtain ⟨command, m, n, report, u, hcommand, hm, hn, hu, ht, he⟩ := dispatch_eq_ok hd
    obtain rfl : command = .leaveTable := Option.some.inj (hcommand.symm.trans hc.selector)
    obtain ⟨-, rfl⟩ := hrun.mp hm
    obtain ⟨hnow, hleft, hn⟩ := (hnorm _).mp hn
    cases hn
    obtain rfl := Except.ok.inj (hrearm.symm.trans hu)
    rcases advanceCounters_eq_ok ht with ⟨h, -⟩ | ⟨-, hfits, ht⟩
    · exact absurd h (leftBy_ne hk)
    · refine ⟨⟨(hschema.leftBy_iff hw).mp hleft, hnow, hfits.1⟩, ?_⟩
      change (⟨s'.table, s'.events⟩ : Exec G) = _
      rw [hevents, he, ht]
  · rintro ⟨⟨hgo, hnow, hseq⟩, rfl⟩
    have hm := hrun.mpr ⟨hgo.keys, rfl⟩
    have hn := (hnorm _).mpr ⟨hnow, (hschema.leftBy_iff hw).mpr hgo, rfl⟩
    have hfits : CountersFit s.table (s.table.leaveEvents k) :=
      ⟨hseq, fun h => by rw [leaveEvents_not_started] at h; cases h⟩
    have ht := advanceCounters_of_fit (leftBy_ne hk) hfits
    have hpost : (s.table.counted (s.table.leftBy k) (s.table.leaveEvents k)).persist = .ok () :=
      (TexasPokerTable.leftBy_persist_iff hp hw).mpr hgo
    have ho : ∃ output, buildDispatchOutput (s.table.leaveEvents k) .leaveTable s.table
        (s.table.counted (s.table.leftBy k) (s.table.leaveEvents k)) = .ok output ∧
          output.events = s.table.leaveEvents k := by
      rw [buildDispatchOutput, if_neg (counted_ne _ _ _).symm, hp, hpost]
      exact ⟨_, rfl, rfl⟩
    obtain ⟨output, ho, he⟩ := ho
    simp only [call, dispatch, hc.selector, hm, hn, hrearm, ht, ho, Fallible.ok_bind, he]
    rfl

/-- What a leaving player gets, and what stays. -/
structure PaysOut (s s' : Exec G) (k : Fin maxSeats) : Prop where
  events : s'.events = s.events ++ s.table.leaveEvents k
  refunded : s'.refunded = s.refunded + ((s.table.seats k).stack + (s.table.seats k).pendingAddon)
  chipPool : s'.table.chipPool + ((s.table.seats k).stack + (s.table.seats k).pendingAddon) =
    s.table.chipPool
  contributors : ∀ i, Mask.mem s'.table.deckState.contributorMask i =
    (Mask.mem s.table.deckState.contributorMask i && decide (i ≠ k))
  sharedKey : s'.table.derivedAggregatedPk =
    .ok (TexasPokerTable.sharedKey (s.table.otherKeys k))
  seat : (s'.table.seats k).isVacant = true
  others : ∀ i, i ≠ k → s'.table.seats i = s.table.seats i

omit [Protocol G] in
/-- The table pays a leaving player out and keeps the rest of it as it is. -/
theorem paysOut_leftBy (h : s.table.Schema) (hgo : s.table.LetsGo k)
    (hle : (s.table.seats k).stack + (s.table.seats k).pendingAddon ≤ s.table.chipPool)
    {events : List TexasPokerEvent} : PaysOut s ⟨s.table.counted (s.table.leftBy k) events,
      s.events ++ s.table.leaveEvents k⟩ k where
  events := rfl
  refunded := by
    have hrefund : ((s.table.leaveEvents k).map TexasPokerEvent.refund).sum =
        (s.table.seats k).stack + (s.table.seats k).pendingAddon := by
      unfold TexasPokerTable.leaveEvents
      dsimp only
      split
      · simp [TexasPokerEvent.refund]
      · simp [TexasPokerEvent.refund]
        omega
    rw [refunded, List.map_append, List.sum_append, hrefund]
    rfl
  chipPool := Nat.sub_add_cancel hle
  contributors i := mem_seatMaskRemove k.isLt
  sharedKey := h.leftBy_derivedAggregatedPk.mpr ⟨rfl, hgo.keys⟩
  seat := by
    change ((s.table.leftBy k).seats k).isVacant = true
    rw [TexasPokerTable.leftBy_seats_self]
    rfl
  others _ hi := TexasPokerTable.leftBy_seats_of_ne hi

/-- On an idle table a player's call pays the player out exactly when no flag stands at the
seat and the other contributors' keys do not cancel out. -/
theorem pays_leaver_iff (hs : (session G).Reachable s) (hw : s.table.handPhase = .waiting)
    (hk : (s.table.seats k).isOccupied = true) (hc : LeaveCall s.table k c) :
    (∃ s', s.call c = .ok s' ∧ PaysOut s s' k) ↔ s.table.LetsGo k ∧
      c.context.blockTimestamp ≠ 0 ∧ s.table.callSeq + 1 ≤ u32Max := by
  have hp := persist_isInvariant.of_reachable hs
  have hcustody := custody_isInvariant.of_reachable hs
  obtain ⟨hschema, -⟩ := TexasPokerTable.persist_eq_ok.mp hp
  have hle : (s.table.seats k).stack + (s.table.seats k).pendingAddon ≤ s.table.chipPool := by
    have hheld := hcustody.held
    rw [TexasPokerTable.held_eq] at hheld
    have hchips := TexasPokerTable.le_seatSum (t := s.table) (g := Seat.chips) k
    unfold Seat.chips at hchips hheld
    omega
  have hmax : (s.table.seats k).stack + (s.table.seats k).pendingAddon ≤ u64Max :=
    hle.trans (hcustody.pool.trans (by decide))
  constructor
  · rintro ⟨s', hs', -⟩
    exact ((call_leave_iff hp hw hk hmax hle hc).mp hs').1
  · intro h
    have hcall := (call_leave_iff hp hw hk hmax hle hc).mpr ⟨h, rfl⟩
    exact ⟨_, hcall, paysOut_leftBy hschema h.1 hle⟩

end Exec

namespace Transparent

/-- Two players wait for a hand. -/
@[irreducible] def twoWaiting : TexasPokerTable ℤ :=
  played (.new 4 50 100) [.join 1 1000 2, .join 2 1000 3]

/-- The first of them has asked to leave after the hand. -/
@[irreducible] def oneAsked : TexasPokerTable ℤ :=
  played (.new 4 50 100) [.join 1 1000 2, .join 2 1000 3, .act .setLeaveAfterHand 0 (leBytes 1 1)]

/-- The first player's call. -/
def leaveFirst (t : TexasPokerTable ℤ) : Call := (ClientStep.act .leaveTable 0 []).call t

theorem fromSelector_leaveTable : CanonicalCommand.fromSelector ℤ
    (CanonicalCommand.leaveTable.selector ℤ) = some .leaveTable := by
  decide +kernel

theorem leaveCall_leaveFirst (t : TexasPokerTable ℤ) : Exec.LeaveCall t 0 (leaveFirst t) where
  selector := fromSelector_leaveTable
  caller := by rw [leaveFirst, ClientStep.call, seatCall, ← t.seat_val]; rfl
  args := List.append_nil _

theorem twoWaiting_facts : twoWaiting.handPhase = .waiting ∧
    (twoWaiting.seats 0).isOccupied = true ∧ twoWaiting.seatActedThisRound 0 = false ∧
    twoWaiting.seatWantsLeave 0 = false ∧ twoWaiting.otherKeys 0 = [3] ∧ twoWaiting.callSeq = 2 := by
  unfold twoWaiting
  decide +kernel

theorem oneAsked_facts : oneAsked.handPhase = .waiting ∧
    (oneAsked.seats 0).isOccupied = true ∧ oneAsked.seatWantsLeave 0 = true ∧
    oneAsked.callSeq = 3 ∧
    (dispatch (leaveFirst oneAsked).context oneAsked (leaveFirst oneAsked).selector
      (leaveFirst oneAsked).args).1.isOk = false := by
  unfold oneAsked
  decide +kernel

/-- The first player is paid out. -/
theorem twoWaiting_pays : ∃ events s', (session ℤ).Reachable ⟨twoWaiting, events⟩ ∧
    Exec.call ⟨twoWaiting, events⟩ (leaveFirst twoWaiting) = .ok s' ∧
      Exec.PaysOut ⟨twoWaiting, events⟩ s' 0 := by
  obtain ⟨hw, hk, hacted, hstays, hkeys, hseq⟩ := twoWaiting_facts
  obtain ⟨events, hr⟩ : twoWaiting.Reachable := by
    unfold twoWaiting
    exact played_reachable (by decide) _
  have hgo : twoWaiting.LetsGo 0 := ⟨hacted, hstays, by simp [hkeys, TexasPokerTable.sharedKey]⟩
  have hseq : twoWaiting.callSeq + 1 ≤ u32Max := by
    rw [hseq]
    decide
  obtain ⟨s', hs'⟩ := (Exec.pays_leaver_iff hr hw hk (leaveCall_leaveFirst twoWaiting)).mpr
    ⟨hgo, by decide, hseq⟩
  exact ⟨events, s', hr, hs'⟩

/-- A player who asked to leave after the hand cannot leave the idle table. -/
theorem oneAsked_stays : ∃ events, (session ℤ).Reachable ⟨oneAsked, events⟩ ∧
    oneAsked.handPhase = .waiting ∧ (oneAsked.seats 0).isOccupied = true ∧
    Exec.LeaveCall oneAsked 0 (leaveFirst oneAsked) ∧
    (leaveFirst oneAsked).context.blockTimestamp ≠ 0 ∧ oneAsked.callSeq + 1 ≤ u32Max ∧
    ¬ ∃ s', Exec.call ⟨oneAsked, events⟩ (leaveFirst oneAsked) = .ok s' ∧
      Exec.PaysOut ⟨oneAsked, events⟩ s' 0 := by
  obtain ⟨hw, hk, hasked, hseq, hcall⟩ := oneAsked_facts
  obtain ⟨events, hr⟩ : oneAsked.Reachable := by
    unfold oneAsked
    exact played_reachable (by decide) _
  have hseq : oneAsked.callSeq + 1 ≤ u32Max := by
    rw [hseq]
    decide
  refine ⟨events, hr, hw, hk, leaveCall_leaveFirst oneAsked, by decide, hseq, ?_⟩
  rintro ⟨s', hs', -⟩
  obtain ⟨r, hd, -⟩ := Exec.call_dispatches hs'
  rw [hd] at hcall
  cases hcall

end Transparent

end TexasPoker
