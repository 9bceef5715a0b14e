import TexasPoker.Runtime.Record
import Mathlib.Algebra.BigOperators.Group.List.Basic

/-! # What the schema says

The checks of a stored table as one statement, and the key its deck contributors share.
-/

namespace TexasPoker.TexasPokerTable

variable {G : Type}

/-! ## The shared key -/

/-- The live keys of the seats in a mask. -/
def keysOf (t : TexasPokerTable G) (mask : SeatMask) : List G :=
  (seatMaskToIndices mask t.rules.maxPlayers).filterMap fun i => (t.seat i).pk

/-- A live key of a seat. -/
def HasKey [Zero G] (t : TexasPokerTable G) (i : ℕ) (pk : G) : Prop :=
  (t.seat i).pk = some pk ∧ (t.seat i).isOccupied = true ∧ pk ≠ 0

/-- The sum of keys; none without a key. -/
def sharedKey [AddCommGroup G] (keys : List G) : Option G :=
  if keys = [] then none else some keys.sum

section Keys

variable [AddCommGroup G] {t : TexasPokerTable G} {mask : SeatMask} {l : List ℕ} {keys : List G}

/-- One more key. -/
def addKey (aggregate : Option G) (pk : G) : Option G :=
  some (match aggregate with
    | none => pk
    | some current => current + pk)

theorem foldl_addKey_some (a : G) : keys.foldl addKey (some a) = some (a + keys.sum) := by
  induction keys generalizing a with
  | nil => simp
  | cons pk keys ih =>
    rw [List.foldl_cons, addKey, ih, List.sum_cons, add_assoc]

theorem foldl_addKey : keys.foldl addKey none = sharedKey keys := by
  cases keys with
  | nil => rfl
  | cons pk keys =>
    rw [List.foldl_cons, addKey, foldl_addKey_some, sharedKey, if_neg (List.cons_ne_nil _ _),
      List.sum_cons]

/-- The keys of seats that all have one. -/
theorem forall₂_hasKey_iff : List.Forall₂ t.HasKey l keys ↔
    (∀ i ∈ l, ∃ pk, t.HasKey i pk) ∧ keys = l.filterMap fun i => (t.seat i).pk := by
  induction l generalizing keys with
  | nil => simp
  | cons i l ih =>
    rw [List.forall₂_cons_left_iff, List.forall_mem_cons]
    constructor
    · rintro ⟨pk, keys, hpk, hkeys, rfl⟩
      obtain ⟨hl, rfl⟩ := ih.mp hkeys
      exact ⟨⟨⟨pk, hpk⟩, hl⟩, (List.filterMap_cons_some (f := fun i => (t.seat i).pk) hpk.1).symm⟩
    · rintro ⟨⟨⟨pk, hpk⟩, hl⟩, rfl⟩
      exact ⟨pk, _, hpk, ih.mpr ⟨hl, rfl⟩, List.filterMap_cons_some hpk.1⟩

/-- Every seat in the mask has a live key, and the keys do not add up to the identity. -/
theorem aggregatedPkForContributorMask_eq_ok [DecidableEq G] {aggregate : Option G} :
    t.aggregatedPkForContributorMask mask = .ok aggregate ↔
      seatMaskIsCanonical mask t.rules.maxPlayers = true ∧
        (∀ i ∈ seatMaskToIndices mask t.rules.maxPlayers, ∃ pk, t.HasKey i pk) ∧
        aggregate = sharedKey (t.keysOf mask) ∧ aggregate ≠ some 0 := by
  simp only [aggregatedPkForContributorMask, Fallible.bind_eq_ok, Fallible.ensure_eq_ok,
    Fallible.pure_eq_ok]
  have hstep (acc : Option G) (i : ℕ) (acc' : Option G) : (do
      let pk ← orErr (t.seat i).pk
        (.serialization s!"Texas deck contributor seat {i} has no live key")
      ensure ((t.seat i).isOccupied ∧ pk ≠ 0) (.serialization
        s!"Texas deck contributor seat {i} is empty, out, or has identity pk")
      return some (match acc with
        | none => pk
        | some current => current + pk) : PokerL1Result (Option G)) = .ok acc' ↔
      ∃ pk, t.HasKey i pk ∧ acc' = addKey acc pk := by
    simp only [Fallible.bind_eq_ok, Fallible.orErr_eq_ok, Fallible.ensure_eq_ok,
      Fallible.pure_eq_ok, HasKey]
    constructor
    · rintro ⟨pk, hpk, _, ⟨hocc, hne⟩, rfl⟩
      exact ⟨pk, ⟨hpk, hocc, hne⟩, rfl⟩
    · rintro ⟨pk, ⟨hpk, hocc, hne⟩, rfl⟩
      exact ⟨pk, hpk, (), ⟨hocc, hne⟩, rfl⟩
  constructor
  · rintro ⟨_, hmask, sum, hsum, _, hne, rfl⟩
    obtain ⟨keys, hkeys, rfl⟩ := (Fallible.foldlM_eq_ok_iff hstep).mp hsum
    obtain ⟨hl, hk⟩ := forall₂_hasKey_iff.mp hkeys
    rw [foldl_addKey, hk] at hne ⊢
    exact ⟨hmask, hl, rfl, hne⟩
  · rintro ⟨hmask, hl, rfl, hne⟩
    have hkeys := forall₂_hasKey_iff.mpr ⟨hl, rfl⟩
    exact ⟨(), hmask, _, (Fallible.foldlM_eq_ok_iff hstep).mpr ⟨_, hkeys, foldl_addKey.symm⟩, (),
      hne, rfl⟩

end Keys

/-! ## The schema -/

/-- The checks of a stored table. -/
structure Schema [AddCommGroup G] [DecidableEq G] (t : TexasPokerTable G) : Prop where
  rules : t.rules.validateCanonical = .ok ()
  padding : ∀ i : Fin maxSeats, i.1 < t.rules.maxPlayers ∨ (t.seats i).isVacant = true
  flags : seatMaskIsCanonical t.actedMask t.rules.maxPlayers = true ∧
    seatMaskIsCanonical t.leaveAfterHandMask t.rules.maxPlayers = true
  button : t.button < t.rules.maxPlayers ∧
    (t.lastBbSeat = noSeat ∨ t.lastBbSeat < t.rules.maxPlayers)
  phase : t.validateHandPhase = .ok ()
  seats : ∀ i, t.validateSeat i = .ok ()
  sharedKey : ∃ key, t.derivedAggregatedPk = .ok key
  board : BoardCards.validateCanonical t.communityCards = .ok ()
  runouts : t.runItTwiceState.validateCanonical t.communityCards = .ok ()
  cards : t.materializedCards.all Card.isValid = true ∧
    (t.materializedCards.map Card.index).Nodup
  ledger : ∃ seen,
    t.deckState.ownerReadableHoleCards.iter.foldlM t.validateLedgerRecord [] = .ok seen
  pending : seatMaskIsCanonical t.shuffleState.pendingMask t.rules.maxPlayers = true
  completed : seatMaskIsCanonical t.shuffleState.completedMask t.rules.maxPlayers = true
  shuffled : t.shuffleState.pendingMask &&& t.shuffleState.completedMask = 0
  reveals : ∀ a ∈ t.revealAssignments, t.validateAssignmentMasks a = .ok ()
  reconstruct : seatMaskIsCanonical t.reconstructState.pendingMask t.rules.maxPlayers = true
  accumulated : ∀ deck ∈ t.deckState.reconstructAccumulated, deck.length = 52

section Schema

variable [AddCommGroup G] [DecidableEq G] {t : TexasPokerTable G}

theorem validateStateSchema_eq_ok : t.validateStateSchema = .ok () ↔ t.Schema := by
  unfold validateStateSchema validateMask
  simp only [Fallible.bind_eq_ok, Fallible.ensure_eq_ok, Fallible.forM_eq_ok, labelled_eq_ok,
    List.mem_finRange, true_imp_iff]
  constructor
  · rintro ⟨_, hrules, _, hpadding, _, hflags, _, hbutton, _, hphase, _, hseats, key, hkey, _,
      hboard, _, hruns, _, hcards, seen, hseen, _, hpending, _, hcompleted, _, hshuffled, _,
      hreveals, _, hreconstruct, hacc⟩
    refine ⟨hrules, hpadding, hflags, hbutton, hphase, hseats, ⟨key, hkey⟩, hboard, hruns, hcards,
      ⟨seen, hseen⟩, hpending, hcompleted, hshuffled, hreveals, hreconstruct, ?_⟩
    intro deck hdeck
    rw [Option.mem_def.mp hdeck] at hacc
    exact Fallible.ensure_eq_ok.mp hacc
  · intro h
    obtain ⟨key, hkey⟩ := h.sharedKey
    obtain ⟨seen, hseen⟩ := h.ledger
    refine ⟨_, h.rules, (), h.padding, (), h.flags, (), h.button, _, h.phase, (), h.seats, key,
      hkey, _, h.board, _, h.runouts, (), h.cards, seen, hseen, (), h.pending, (), h.completed, (),
      h.shuffled, (), h.reveals, (), h.reconstruct, ?_⟩
    cases hdeck : t.deckState.reconstructAccumulated with
    | none => rfl
    | some deck => exact Fallible.ensure_pos (h.accumulated deck hdeck)

theorem Schema.validateCanonical (h : t.Schema) (i : Fin maxSeats) :
    (t.seats i).validateCanonical = .ok () := by
  have hi := h.seats i
  simp only [validateSeat, Fallible.bind_eq_ok] at hi
  obtain ⟨_, hi, -⟩ := hi
  exact hi

/-- A player has one seat. -/
theorem Schema.player_ne (h : t.Schema) {i j : Fin maxSeats} (hij : i ≠ j)
    (hi : (t.seats i).isOccupied = true) (hj : (t.seats j).isOccupied = true) :
    (t.seats i).player ≠ (t.seats j).player := by
  have hlt {i j : Fin maxSeats} (hij : j < i) (hi : (t.seats i).isOccupied = true)
      (hj : (t.seats j).isOccupied = true) : (t.seats j).player ≠ (t.seats i).player := by
    have hs := h.seats i
    simp only [validateSeat, Fallible.bind_eq_ok, Fallible.ensure_eq_ok] at hs
    obtain ⟨_, -, _, hs, -⟩ := hs
    exact hs hi j hij hj
  rcases lt_or_gt_of_ne hij with h | h
  · exact hlt h hj hi
  · exact (hlt h hi hj).symm

/-- A table is stored exactly when its schema holds and its records fit. -/
theorem persist_eq_ok [Protocol G] :
    t.persist = .ok () ↔ t.Schema ∧ t.recordsFit (Protocol.pointLen G) = true := by
  simp only [persist, Fallible.bind_eq_ok, Fallible.mapError_eq_ok, Fallible.forM_eq_ok,
    Fallible.ensure_eq_ok, List.mem_finRange, true_imp_iff]
  constructor
  · rintro ⟨_, hschema, _, -, _, -, hfits⟩
    exact ⟨validateStateSchema_eq_ok.mp hschema, hfits⟩
  · rintro ⟨h, hfits⟩
    refine ⟨(), validateStateSchema_eq_ok.mpr h, (), fun i => ?_, (), h.phase, hfits⟩
    split
    · exact Fallible.mapError_eq_ok.mpr (h.validateCanonical i)
    · rfl

end Schema

end TexasPoker.TexasPokerTable
