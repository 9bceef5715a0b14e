import TexasPoker.Runtime.Atomicity
import TexasPoker.Spec.Schema

/-! # Stored tables

Every table a session reaches can be stored: its schema holds and its records fit.
-/

namespace TexasPoker

variable {G : Type} [AddCommGroup G] [Protocol G] [DecidableEq G]

namespace TexasPokerTable

/-- A table without players can be stored under canonical rules. -/
theorem fresh_persist (id : ObjectID) (creator : Address) {rules : TableRules}
    (h : rules.validateCanonical = .ok ()) :
    (fresh id creator rules : TexasPokerTable G).persist = .ok () := by
  have hrules := h
  simp only [TableRules.validateCanonical, Fallible.bind_eq_ok, Fallible.ensure_eq_ok] at h
  obtain ⟨_, ⟨hmin, hmax⟩, -⟩ := h
  have hzero := seatMaskIsCanonical_zero hmax
  have hledger : (PartialHoleCardLedger.empty : PartialHoleCardLedger G).iter = [] := by
    simp [PartialHoleCardLedger.iter, PartialHoleCardLedger.iterForSeat,
      PartialHoleCardLedger.get, PartialHoleCardLedger.empty]
  have hcards : (fresh id creator rules : TexasPokerTable G).materializedCards = [] := rfl
  have hkey : (fresh id creator rules : TexasPokerTable G).derivedAggregatedPk = .ok none := by
    refine aggregatedPkForContributorMask_eq_ok.mpr ⟨hzero, ?_, ?_, by simp⟩
    · change ∀ i ∈ seatMaskToIndices 0 rules.maxPlayers, _
      rw [seatMaskToIndices_zero]
      exact List.forall_mem_nil _
    · change _ = sharedKey ((seatMaskToIndices 0 rules.maxPlayers).filterMap _)
      rw [seatMaskToIndices_zero]
      rfl
  have hseat (i : Fin maxSeats) :
      (fresh id creator rules : TexasPokerTable G).validateSeat i = .ok () := by
    simp only [validateSeat, Fallible.bind_eq_ok, Fallible.ensure_eq_ok]
    have hflags : ¬ (seatMaskContains 0 i.1 || seatMaskContains 0 i.1) = true := by
      rw [seatMaskContains_zero]
      decide
    exact ⟨(), rfl, (), fun h => absurd h Bool.false_ne_true, fun _ => hflags⟩
  refine persist_eq_ok.mpr ⟨?_, ?_⟩
  · exact
      { rules := hrules, padding := fun i => .inr rfl, flags := ⟨hzero, hzero⟩
        button := ⟨by change 0 < rules.maxPlayers; omega, .inl rfl⟩, phase := rfl, seats := hseat
        sharedKey := ⟨none, hkey⟩, board := rfl, runouts := rfl, cards := by simp [hcards]
        ledger := ⟨[], by rw [fresh, new, DeckState.new, hledger]; rfl⟩, pending := hzero
        completed := hzero, shuffled := BitVec.and_self, reveals := fun a ha => by cases ha
        reconstruct := hzero, accumulated := fun deck hdeck => by cases hdeck }
  · have hseats : recordFits 4 seatRecordWidth = true := by decide
    have hphase : recordFits 0 handPhaseRecordWidth = true := by decide
    rw [recordsFit, Bool.and_eq_true, List.all_eq_true]
    exact ⟨fun i _ => Bool.or_eq_true_iff.mpr (.inr hseats), hphase⟩

/-- A dispatch that changes the table stores it. -/
theorem persist_of_dispatch {context : DispatchContext} {t t' : TexasPokerTable G}
    {selector : Hash} {args : Bytes} {r : DispatchResult G}
    (h : dispatch context t selector args = (.ok r, t')) : t' = t ∨ t'.persist = .ok () := by
  unfold dispatch at h
  split at h
  · cases h
  split at h
  · cases h
  split at h
  · cases h
  split at h
  · cases h
  split at h
  · cases h
  split at h
  · cases h
  rename_i output ho
  obtain ⟨hr, rfl⟩ := Prod.mk.inj h
  cases hr
  unfold buildDispatchOutput at ho
  split at ho
  · rename_i heq
    exact .inl heq.symm
  · simp only [Fallible.bind_eq_ok, labelled_eq_ok] at ho
    obtain ⟨_, -, _, hp, -⟩ := ho
    exact .inr hp

end TexasPokerTable

/-- Every reachable table can be stored. -/
theorem Exec.persist_isInvariant :
    (session G).IsInvariant fun s => s.table.persist = .ok () where
  init s hi := by
    obtain ⟨id, creator, rules, hr, rfl⟩ := hi
    exact TexasPokerTable.fresh_persist id creator hr
  next s c s' _ hs hn := by
    obtain ⟨r, hd, -⟩ := Exec.call_dispatches hn
    rcases TexasPokerTable.persist_of_dispatch hd with h | h
    · rw [h]
      exact hs
    · exact h

end TexasPoker
