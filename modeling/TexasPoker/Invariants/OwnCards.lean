import TexasPoker.Runtime.Client
import TexasPoker.Spec.Hand

/-! # The folder's own cards

A betting phase has no reveal assignments, so folding out of the deck excludes no slot: the
fold strips the folder's layer from its own hole cards too.
-/

namespace TexasPoker

variable {G : Type}

namespace TexasPokerTable

variable (t : TexasPokerTable G)

/-- The deck slots of a seat's hole cards in the ledger. -/
def dealtSlots (seatIndex : ℕ) : List ℕ :=
  (t.deckState.ownerReadableHoleCards.iterForSeat seatIndex).map fun r => r.2.encryptedCardIndex

/-- A new deck leaves the ciphertexts of a seat's hole cards as they are. -/
def KeepsOwnCards (seatIndex : ℕ) (newDeck : List (ElGamalCiphertext G)) : Prop :=
  ∀ i ∈ t.dealtSlots seatIndex, newDeck[i]? = t.deckState.encrypted.toVec[i]?

variable {t}

/-- Betting and revealing exclude each other. -/
theorem revealAssignments_of_isBettingRound (h : t.isBettingRound = true) :
    t.revealAssignments = [] := by
  simp only [isBettingRound, bettingRound, Bool.and_eq_true] at h
  cases hp : t.handPhase <;> simp [hp, revealAssignments, revealTokenState] at h ⊢

end TexasPokerTable

/-- The leave verifier accepts the removal of a key's layer only, the layer `layer pk c1` of
the key's discrete logarithm on the first component. -/
def LeaveSound [AddCommGroup G] [Protocol G] (layer : G → G → G) : Prop :=
  ∀ (proof : Protocol.LeaveProof G) (input output : List (ElGamalCiphertext G)) (pk : G),
    Protocol.verifyLeave proof input output pk = true →
      output = input.map fun c => ⟨c.c1, c.c2 - layer pk c.c1⟩

namespace Exec

theorem ownRevealSlots_of_isBettingRound {t : TexasPokerTable G} (h : t.isBettingRound = true)
    (seatIndex : ℕ) : ownRevealSlots t seatIndex = [] := by
  rw [ownRevealSlots, TexasPokerTable.revealAssignments_of_isBettingRound h]
  rfl

theorem dropSlots_nil (cards : List (ElGamalCiphertext G)) : dropSlots [] cards = cards := by
  rw [dropSlots, List.filter_eq_self.mpr (by simp), List.zipIdx_map_fst]

variable [AddCommGroup G] [Protocol G] [DecidableEq G] {s s' : Exec G} {seatIndex : ℕ}
  {outputCards : List (ElGamalCiphertext G)} {foldProof : Protocol.LeaveProof G}
  {layer : G → G → G} {pk : G}

/-- An accepted fold strips the whole deck, the folder's own slots included. -/
theorem strips_of_applyFoldWithProof (hsound : LeaveSound layer)
    (hpk : (s.table.seat seatIndex).pk = some pk)
    (h : s.applyFoldWithProof seatIndex outputCards foldProof = .ok s') :
    outputCards =
      s.table.deckState.encrypted.toVec.map fun c => ⟨c.c1, c.c2 - layer pk c.c1⟩ := by
  obtain ⟨pk', -, -, hb, -, -, -, -, hpk', hverify, -⟩ := applyFoldWithProof_eq_ok h
  obtain rfl := Option.some.inj (hpk.symm.trans hpk')
  rw [ownRevealSlots_of_isBettingRound hb, dropSlots_nil, dropSlots_nil] at hverify
  exact hsound _ _ _ _ hverify

/-- The published decks differ by the folder's layer, at every slot. -/
theorem layer_of_applyFoldWithProof (hsound : LeaveSound layer)
    (hpk : (s.table.seat seatIndex).pk = some pk)
    (h : s.applyFoldWithProof seatIndex outputCards foldProof = .ok s') {i : ℕ}
    {c : ElGamalCiphertext G} (hc : s.table.deckState.encrypted.toVec[i]? = some c) :
    ∃ c', outputCards[i]? = some c' ∧ c.c2 - c'.c2 = layer pk c.c1 := by
  refine ⟨⟨c.c1, c.c2 - layer pk c.c1⟩, ?_, sub_sub_cancel _ _⟩
  rw [strips_of_applyFoldWithProof hsound hpk h, List.getElem?_map, hc, Option.map_some]

/-- A fold with proof keeps the folder's hole cards exactly when its key has no layer on
them. -/
theorem keepsOwnCards_iff (hsound : LeaveSound layer)
    (hpk : (s.table.seat seatIndex).pk = some pk)
    (h : s.applyFoldWithProof seatIndex outputCards foldProof = .ok s') :
    s.table.KeepsOwnCards seatIndex outputCards ↔
      ∀ i ∈ s.table.dealtSlots seatIndex, ∀ c,
        s.table.deckState.encrypted.toVec[i]? = some c → layer pk c.c1 = 0 := by
  refine forall₂_congr fun i _ => ?_
  rw [strips_of_applyFoldWithProof hsound hpk h, List.getElem?_map]
  cases hc : s.table.deckState.encrypted.toVec[i]? with
  | none => simp
  | some c =>
    simp only [Option.map_some, Option.some.injEq, forall_eq']
    constructor
    · intro hkeep
      exact sub_eq_self.mp (congrArg ElGamalCiphertext.c2 hkeep)
    · intro hzero
      rw [hzero, sub_zero]

end Exec

namespace Transparent

theorem leaveSound : LeaveSound fun pk c1 : ℤ => pk * c1 :=
  fun _ _ _ _ h => of_decide_eq_true h

/-- Three players were dealt their hole cards; seat 0 opens the betting. -/
@[irreducible] def threeDealt : TexasPokerTable ℤ :=
  played (.new 4 50 100) [.join 1 1000 2, .join 2 1000 3, .join 3 1000 5, .start, .shuffle 0,
    .shuffle 1, .shuffle 2, .reveal 0, .reveal 1, .reveal 2]

theorem threeDealt_facts : threeDealt.isBettingRound = true ∧ (threeDealt.seat 0).pk = some 2 ∧
    threeDealt.dealtSlots 0 = [0, 1] ∧ threeDealt.deckState.encrypted.get 0 = some ⟨1, 1010⟩ ∧
    (foldedDeck threeDealt 0)[0]? = some ⟨1, 1008⟩ ∧
    Fallible.holds (Exec.applyFoldWithProof ⟨threeDealt, []⟩ 0 (foldedDeck threeDealt 0) ())
      (fun s' => s'.table.deckState.encrypted.get 0 = some ⟨1, 1008⟩) = true := by
  decide +kernel

theorem threeDealt_folds : ∃ s', Exec.applyFoldWithProof ⟨threeDealt, []⟩ 0
    (foldedDeck threeDealt 0) () = .ok s' ∧
      s'.table.deckState.encrypted.get 0 = some ⟨1, 1008⟩ := by
  obtain ⟨s', hs', hdeck⟩ := Fallible.holds_iff.mp threeDealt_facts.2.2.2.2.2
  exact ⟨s', hs', of_decide_eq_true hdeck⟩

/-- The key of seat 0 has a layer on its first card, so its honest fold does not keep it. -/
theorem threeDealt_strips_own : ∃ s', Exec.applyFoldWithProof ⟨threeDealt, []⟩ 0
    (foldedDeck threeDealt 0) () = .ok s' ∧
      ¬ threeDealt.KeepsOwnCards 0 (foldedDeck threeDealt 0) := by
  obtain ⟨s', hs', -⟩ := threeDealt_folds
  obtain ⟨-, hpk, hslots, hold, -⟩ := threeDealt_facts
  refine ⟨s', hs', fun hkeep => ?_⟩
  have hzero := (Exec.keepsOwnCards_iff leaveSound hpk hs').mp hkeep 0 (by simp [hslots]) _ hold
  exact absurd hzero (by decide)

/-- Seat 0 folds with an honest proof: the published decks give its token for its own first
card. -/
theorem fold_exposes_own_card : threeDealt.Reachable ∧
    LeaveSound (fun pk c1 : ℤ => pk * c1) ∧ threeDealt.isBettingRound = true ∧
    0 ∈ threeDealt.dealtSlots 0 ∧
    (∃ s', Exec.applyFoldWithProof ⟨threeDealt, []⟩ 0 (foldedDeck threeDealt 0) () = .ok s' ∧
      s'.table.deckState.encrypted.get 0 ≠ threeDealt.deckState.encrypted.get 0) ∧
    ¬ threeDealt.KeepsOwnCards 0 (foldedDeck threeDealt 0) := by
  obtain ⟨hb, -, hslots, hold, hnew, -⟩ := threeDealt_facts
  obtain ⟨s', hs', hdeck⟩ := threeDealt_folds
  have hown : 0 ∈ threeDealt.dealtSlots 0 := by simp [hslots]
  have hreach : threeDealt.Reachable := by
    unfold threeDealt
    exact played_reachable (by decide) _
  refine ⟨hreach, leaveSound, hb, hown, ⟨s', hs', ?_⟩, fun hkeep => ?_⟩
  · rw [hdeck, hold]
    decide
  · have h0 : (foldedDeck threeDealt 0)[0]? = threeDealt.deckState.encrypted.get 0 := hkeep 0 hown
    rw [hnew, hold] at h0
    exact absurd h0 (by decide)

end Transparent

end TexasPoker
