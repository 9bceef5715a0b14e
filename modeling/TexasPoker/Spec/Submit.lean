import TexasPoker.Machine.Seats
import TexasPoker.Spec.Shuffle

/-! # Submissions in closed form

Shuffles, reconstruction contributions and reveal tokens: what an accepted submission checks,
and what it writes.
-/

namespace TexasPoker

variable {G : Type}

/-- An assignment with one more token. -/
def RevealAssignment.withToken (a : RevealAssignment G) (seatIndex : ℕ) (token : G) :
    RevealAssignment G :=
  { a with
    revealTokens := a.revealTokens ++ [token]
    pendingMask := seatMaskRemove a.pendingMask seatIndex
    submittedMask := Mask.insert a.submittedMask seatIndex }

/-- The reveal with other assignments. -/
def RevealTokenState.withAssignments (state : RevealTokenState G)
    (assignments : List (RevealAssignment G)) : RevealTokenState G :=
  { state with assignments }

@[simp] theorem RevealTokenState.withAssignments_purpose (state : RevealTokenState G)
    (assignments : List (RevealAssignment G)) :
    (state.withAssignments assignments).purpose = state.purpose := rfl

namespace TexasPokerTable

variable {t t' : TexasPokerTable G}

/-- The table in an open reveal. -/
def withReveal (t : TexasPokerTable G) (street : ℕ) (state : RevealTokenState G) (d : ℕ) :
    TexasPokerTable G :=
  { t with handPhase := .revealing street state d }

theorem recordToken_eq_ok {i ai : ℕ} {token : G} (h : t.recordToken i ai token = .ok t') :
    ∃ street state d a, t.handPhase = .revealing street state d ∧
      state.assignments[ai]? = some a ∧ seatMaskCount a.submittedMask = a.revealTokens.length ∧
      t' = t.withReveal street
        (state.withAssignments (state.assignments.set ai (a.withToken i token))) d := by
  unfold recordToken at h
  split at h
  · rename_i street state d hp
    simp only [Fallible.bind_eq_ok, Fallible.orErr_eq_ok, Fallible.ensure_eq_ok] at h
    obtain ⟨a, ha, _, hlen, h⟩ := h
    cases h
    refine ⟨street, state, d, a, hp, ha, hlen, ?_⟩
    rw [RevealAssignment.withToken, hlen, List.insertIdx_length_self]
    rfl
  · cases h

theorem drainCompleted_eq_ok (h : t.drainCompleted = .ok t') :
    ∃ street state d, t.handPhase = .revealing street state d ∧
      t' = t.withReveal street
        (state.withAssignments (state.assignments.filter fun a => a.pendingMask ≠ 0)) d := by
  unfold drainCompleted at h
  split at h
  · rename_i street state d hp
    cases h
    exact ⟨street, state, d, hp, rfl⟩
  · cases h

theorem revealAssignments_of_revealing {street d : ℕ} {state : RevealTokenState G}
    (h : t.handPhase = .revealing street state d) : t.revealAssignments = state.assignments := by
  simp [revealAssignments, revealTokenState, h]

end TexasPokerTable

namespace Exec

variable {s s' : Exec G} [AddCommGroup G] [Protocol G]

/-! ## Reveal tokens -/

/-- A verified token of a seat for the assignment at `ai`. -/
structure Submits (s s' : Exec G) (i ai : ℕ) (pk token : G) (proof : Protocol.RevealTokenProof G) :
    Prop where
  table : ∃ street state d a, s.table.handPhase = .revealing street state d ∧
    state.assignments[ai]? = some a ∧ a.isReady = false ∧
    seatMaskContains a.pendingMask i = true ∧
    seatMaskCount a.submittedMask = a.revealTokens.length ∧
    (∃ c, s.table.revealCiphertext i a = .ok c ∧
      Protocol.verifyRevealToken proof c token pk = .ok ()) ∧
    s'.table = s.table.withReveal street
      (state.withAssignments (state.assignments.set ai (a.withToken i token))) d
  payments : s.SamePayments s'

theorem submitRevealToken_eq_ok {i : ℕ} {pk : G} {entry : ℕ × G × Protocol.RevealTokenProof G}
    (h : submitRevealToken i pk s entry = .ok s') :
    Submits s s' i entry.1 pk entry.2.1 entry.2.2 := by
  simp only [submitRevealToken, Fallible.bind_eq_ok, Fallible.orErr_eq_ok, Fallible.ensure_eq_ok,
    labelled_eq_ok] at h
  obtain ⟨a, ha, _, hready, _, hpending, c, hc, _, hverify, t, ht, h⟩ := h
  cases h
  obtain ⟨street, state, d, a', hp, ha', hlen, rfl⟩ := TexasPokerTable.recordToken_eq_ok ht
  rw [TexasPokerTable.revealAssignments_of_revealing hp, ha'] at ha
  obtain rfl := Option.some.inj ha
  exact ⟨⟨street, state, d, a', hp, ha', by simpa using hready, hpending, hlen, ⟨c, hc, hverify⟩,
    rfl⟩, .of_event rfl ⟨rfl, rfl, rfl⟩⟩

/-- The places of the assignments a seat owes a token for. -/
def owedIndices (t : TexasPokerTable G) (i : ℕ) : List ℕ :=
  (List.range t.revealAssignments.length).filter fun j =>
    t.revealAssignments[j]?.any fun a => seatMaskContains a.pendingMask i

omit [AddCommGroup G] [Protocol G] in
/-- Assignments with the next of the tokens wherever the seat owes one. -/
def withTokens (i : ℕ) : List (RevealAssignment G) → List G → List (RevealAssignment G)
  | a :: rest, token :: tokens =>
    if seatMaskContains a.pendingMask i then a.withToken i token :: withTokens i rest tokens
    else a :: withTokens i rest (token :: tokens)
  | assignments, _ => assignments

omit [AddCommGroup G] [Protocol G] in
@[simp] theorem withTokens_nil {i : ℕ} {l : List (RevealAssignment G)} :
    withTokens i l [] = l := by
  cases l <;> rfl

theorem revealing_of_foldlM {i : ℕ} {pk : G}
    {entries : List (ℕ × G × Protocol.RevealTokenProof G)} (hne : entries ≠ [])
    (h : entries.foldlM (submitRevealToken i pk) s = .ok s') :
    ∃ street state d, s.table.handPhase = .revealing street state d := by
  cases entries with
  | nil => exact absurd rfl hne
  | cons e entries =>
    rw [List.foldlM_cons, Fallible.bind_eq_ok] at h
    obtain ⟨m, hm, -⟩ := h
    obtain ⟨street, state, d, _, hp, -⟩ := (submitRevealToken_eq_ok hm).table
    exact ⟨street, state, d, hp⟩

/-- The tokens of a submission, from the assignment behind `front` on. -/
theorem foldlM_submitRevealToken {i street d : ℕ} {pk : G} {purpose : RevealPurpose}
    {front rest : List (RevealAssignment G)} {owes : ℕ → Bool} {tokens : List G}
    {proofs : List (Protocol.RevealTokenProof G)}
    (hp : s.table.handPhase = .revealing street ⟨purpose, front ++ rest⟩ d)
    (howes : ∀ j, owes (front.length + j) =
      rest[j]?.any fun a => seatMaskContains a.pendingMask i)
    (hlen : tokens.length = proofs.length)
    (h : ((((List.range' front.length rest.length).filter owes).zip
      (tokens.zip proofs)).foldlM (submitRevealToken i pk) s) = .ok s') :
    s'.table = s.table.withReveal street ⟨purpose, front ++ withTokens i rest tokens⟩ d ∧
      s.SamePayments s' := by
  have hself : s.table = s.table.withReveal street ⟨purpose, front ++ rest⟩ d := by
    rw [TexasPokerTable.withReveal, ← hp]
  induction rest generalizing s front tokens proofs with
  | nil =>
    cases h
    exact ⟨hself, .refl _⟩
  | cons a rest ih =>
    have hfront : front ++ a :: rest = (front ++ [a]) ++ rest := by simp
    have hlen' : (front ++ [a]).length = front.length + 1 := by simp
    have hnext : ∀ j, owes (front.length + 1 + j) =
        rest[j]?.any fun a => seatMaskContains a.pendingMask i := fun j => by
      rw [Nat.add_assoc, howes, Nat.add_comm, List.getElem?_cons_succ]
    have hhead := howes 0
    rw [Nat.add_zero, List.getElem?_cons_zero, Option.any_some] at hhead
    rw [List.length_cons, List.range'_succ] at h
    cases hown : seatMaskContains a.pendingMask i with
    | false =>
      rw [List.filter_cons_of_neg (by rw [hhead, hown]; decide), ← hlen'] at h
      rw [hfront] at hp hself
      obtain ⟨ht, hpay⟩ := ih hp (by rw [hlen']; exact hnext) hlen h hself
      refine ⟨?_, hpay⟩
      rw [ht]
      cases tokens with
      | nil => simp
      | cons token tokens => simp [withTokens, hown]
    | true =>
      rw [List.filter_cons_of_pos (by rw [hhead, hown])] at h
      cases tokens with
      | nil =>
        cases h
        simpa using ⟨hself, Exec.SamePayments.refl _⟩
      | cons token tokens =>
        obtain ⟨proof, proofs, rfl⟩ := List.exists_cons_of_length_eq_add_one hlen.symm
        rw [List.zip_cons_cons, List.zip_cons_cons, List.foldlM_cons, Fallible.bind_eq_ok] at h
        obtain ⟨m, hm, h⟩ := h
        have hsub := submitRevealToken_eq_ok hm
        obtain ⟨street', state, d', a', hp', ha', -, -, -, -, ht⟩ := hsub.table
        rw [hp] at hp'
        cases hp'
        obtain rfl : a = a' := by simpa using ha'
        have hset : (front ++ a :: rest).set front.length (a.withToken i token) =
            front ++ [a.withToken i token] ++ rest := by simp
        have hm' : m.table.handPhase =
            .revealing street ⟨purpose, (front ++ [a.withToken i token]) ++ rest⟩ d := by
          rw [ht, ← hset]
          rfl
        have hlen₂ : (front ++ [a.withToken i token]).length = front.length + 1 := by simp
        rw [← hlen₂] at h
        obtain ⟨ht', hpay⟩ := ih hm' (by rw [hlen₂]; exact hnext) (by simpa using hlen) h
          (by rw [TexasPokerTable.withReveal, ← hm'])
        refine ⟨?_, hsub.payments.trans hpay⟩
        rw [ht', ht]
        simp [withTokens, hown, TexasPokerTable.withReveal]

/-! ## Materialized cards -/

/-- The completed assignments of a reveal. -/
def completed (reveal : RevealTokenState G) : List (RevealAssignment G) :=
  reveal.assignments.filter fun a => a.pendingMask = 0

variable [DecidableEq G]

/-- The completed assignments of a reveal are written. -/
inductive Writes (reveal : RevealTokenState G) (s : Exec G) : Exec G → Prop where
  | hole {t : TexasPokerTable G} : reveal.purpose = .dealHole →
      (completed reveal).foldlM TexasPokerTable.materializeHole s.table = .ok t →
      Writes reveal s (s.withTable t)
  | board {m : Exec G} : reveal.purpose = .board →
      (completed reveal).length = reveal.assignments.length →
      s.materializeCommunity (completed reveal) = .ok m → Writes reveal s m
  | showdown {m : Exec G} : reveal.purpose = .showdownOwner →
      s.materializeShowdown (completed reveal) = .ok m → Writes reveal s m

/-- Materialization writes the completed assignments and drops them. -/
theorem materializeCompletedRevealAssignments_eq_ok
    (h : s.materializeCompletedRevealAssignments = .ok s') :
    ∃ reveal, s.table.revealTokenState = some reveal ∧ (completed reveal = [] ∧ s' = s ∨
      ∃ m t, Writes reveal s m ∧ m.table.drainCompleted = .ok t ∧ s' = m.withTable t) := by
  rw [materializeCompletedRevealAssignments, Fallible.bind_eq_ok] at h
  obtain ⟨reveal, hr, h⟩ := h
  rw [Fallible.orErr_eq_ok] at hr
  refine ⟨reveal, hr, ?_⟩
  dsimp only at h
  split at h
  · rename_i hnil
    cases h
    exact .inl ⟨hnil, rfl⟩
  right
  split at h <;> rename_i hpurpose <;> simp only [Fallible.bind_eq_ok] at h
  · obtain ⟨u, hu, m, hm, t, ht, h⟩ := h
    cases hm
    cases h
    exact ⟨_, t, .hole hpurpose hu, ht, rfl⟩
  · obtain ⟨_, hlen, m, hm, t, ht, h⟩ := h
    cases h
    exact ⟨m, t, .board hpurpose (Fallible.ensure_eq_ok.mp hlen) hm, ht, rfl⟩
  · obtain ⟨m, hm, t, ht, h⟩ := h
    cases h
    exact ⟨m, t, .showdown hpurpose hm, ht, rfl⟩

/-- The reveal with the tokens of a seat. -/
def recorded (i : ℕ) (tokens : List G) (reveal : RevealTokenState G) : RevealTokenState G :=
  reveal.withAssignments (withTokens i reveal.assignments tokens)

/-- A seat gives the tokens it owes, and the assignments they complete are written. -/
inductive GivesTokens (s s' : Exec G) (i : ℕ) (tokens : List G) : Prop where
  | waits {street d : ℕ} {reveal : RevealTokenState G} :
      s.table.handPhase = .revealing street reveal d →
      (owedIndices s.table i).length = tokens.length → completed (recorded i tokens reveal) = [] →
      s'.table = s.table.withReveal street (recorded i tokens reveal) d → s.SamePayments s' →
      GivesTokens s s' i tokens
  | writes {street d : ℕ} {reveal : RevealTokenState G} {m w : Exec G} :
      s.table.handPhase = .revealing street reveal d →
      (owedIndices s.table i).length = tokens.length →
      m.table = s.table.withReveal street (recorded i tokens reveal) d → s.SamePayments m →
      Writes (recorded i tokens reveal) m w →
      s'.table = w.table.withReveal street ((recorded i tokens reveal).withAssignments
        ((recorded i tokens reveal).assignments.filter fun a => a.pendingMask ≠ 0)) d →
      w.SamePayments s' → GivesTokens s s' i tokens

end Exec

/-- A slot without its cards. -/
def Seat.withoutHand : Seat G → Seat G
  | .playing p => .playing { p with hand := .empty }
  | s => s

/-- Only cards are written: to hands, boards and the ledger. -/
structure TexasPokerTable.WritesCards (t t' : TexasPokerTable G) : Prop where
  rest : ∃ ledger, t' = { t with
    seats := t'.seats
    communityCards := t'.communityCards
    runItTwiceState := t'.runItTwiceState
    deckState := { t.deckState with ownerReadableHoleCards := ledger } }
  seats : ∀ i, (t'.seats i).withoutHand = (t.seats i).withoutHand

namespace TexasPokerTable

variable {t t' t'' : TexasPokerTable G}

theorem WritesCards.refl (t : TexasPokerTable G) : WritesCards t t :=
  ⟨⟨t.deckState.ownerReadableHoleCards, rfl⟩, fun _ => rfl⟩

theorem WritesCards.trans (h : WritesCards t t') (h' : WritesCards t' t'') :
    WritesCards t t'' := by
  obtain ⟨_, ht⟩ := h.rest
  obtain ⟨ledger, ht'⟩ := h'.rest
  refine ⟨⟨ledger, ?_⟩, fun i => (h'.seats i).trans (h.seats i)⟩
  rw [ht', ht]

theorem pushBoardCard_writesCards {entry : ℕ × ℕ × Card} (h : pushBoardCard t entry = .ok t') :
    WritesCards t t' := by
  unfold pushBoardCard at h
  split at h
  · simp only [Fallible.bind_eq_ok] at h
    obtain ⟨_, -, h⟩ := h
    cases h
    exact ⟨⟨_, rfl⟩, fun _ => rfl⟩
  · split at h
    · cases h
    · simp only [Fallible.bind_eq_ok] at h
      obtain ⟨_, -, h⟩ := h
      cases h
      exact ⟨⟨_, rfl⟩, fun _ => rfl⟩

variable [AddCommGroup G]

theorem materializeHole_writesCards {a : RevealAssignment G} (h : t.materializeHole a = .ok t') :
    WritesCards t t' := by
  unfold materializeHole at h
  split at h
  · cases h
  · simp only [Fallible.bind_eq_ok] at h
    obtain ⟨_, -, _, -, ledger, -, h⟩ := h
    cases h
    exact ⟨⟨ledger, rfl⟩, fun _ => rfl⟩

end TexasPokerTable

namespace Exec

variable {s s' : Exec G}

theorem pushShowdownCard_writesCards {entry : ℕ × ℕ × ℕ × Card}
    (h : pushShowdownCard s entry = .ok s') :
    s.table.WritesCards s'.table ∧ s.SamePayments s' := by
  simp only [pushShowdownCard, Fallible.bind_eq_ok, Fallible.ensure_eq_ok] at h
  obtain ⟨_, hlt, _, -, p, hp, hand, -, ledger, -, h⟩ := h
  have hseat : s.table.seats ⟨entry.1, hlt⟩ = .playing p := by
    rw [← TexasPokerTable.seat_val]
    unfold Seat.playingMut at hp
    split at hp <;> cases hp
    assumption
  have hw : ∀ i, ((s.table.setSeat entry.1 (.playing { p with hand })).seats i).withoutHand =
      (s.table.seats i).withoutHand := by
    intro i
    by_cases hi : i.1 = entry.1
    · obtain rfl : i = ⟨entry.1, hlt⟩ := Fin.ext hi
      rw [hseat, TexasPokerTable.setSeat]
      simp [Seat.withoutHand]
    · rw [TexasPokerTable.seats_setSeat_of_ne hi]
  split at h <;> cases h
  · exact ⟨⟨⟨ledger, rfl⟩, hw⟩, ⟨rfl, rfl, rfl⟩⟩
  · exact ⟨⟨⟨ledger, rfl⟩, hw⟩, .of_event rfl ⟨rfl, rfl, rfl⟩⟩

variable [AddCommGroup G] [Protocol G] [DecidableEq G]

/-- A batch writes cards and moves no chips. -/
theorem Writes.writesCards {reveal : RevealTokenState G} {m : Exec G} (h : Writes reveal s m) :
    s.table.WritesCards m.table ∧ s.SamePayments m := by
  cases h with
  | hole _ h =>
    have hstep : ∀ a ∈ completed reveal, ∀ t t' : TexasPokerTable G, t.materializeHole a = .ok t' →
        s.table.WritesCards t → s.table.WritesCards t' :=
      fun _ _ _ _ h ht => ht.trans (TexasPokerTable.materializeHole_writesCards h)
    exact ⟨Fallible.foldlM_keeps hstep h (.refl _), ⟨rfl, rfl, rfl⟩⟩
  | board _ _ h =>
    simp only [materializeCommunity, Fallible.bind_eq_ok] at h
    obtain ⟨_, -, scan, -, t, ht, h⟩ := h
    cases h
    have hstep : ∀ e ∈ scan.cards, ∀ t t' : TexasPokerTable G, t.pushBoardCard e = .ok t' →
        s.table.WritesCards t → s.table.WritesCards t' :=
      fun _ _ _ _ h ht => ht.trans (TexasPokerTable.pushBoardCard_writesCards h)
    exact ⟨Fallible.foldlM_keeps hstep ht (.refl _), .of_event rfl ⟨rfl, rfl, rfl⟩⟩
  | showdown _ h =>
    simp only [materializeShowdown, Fallible.bind_eq_ok] at h
    obtain ⟨_, -, cards, -, h⟩ := h
    have hstep : ∀ e ∈ cards.2, ∀ u u' : Exec G, u.pushShowdownCard e = .ok u' →
        s.table.WritesCards u.table ∧ s.SamePayments u →
        s.table.WritesCards u'.table ∧ s.SamePayments u' := by
      rintro _ _ _ _ h ⟨hw, hp⟩
      obtain ⟨hw', hp'⟩ := pushShowdownCard_writesCards h
      exact ⟨hw.trans hw', hp.trans hp'⟩
    exact Fallible.foldlM_keeps (P := fun u : Exec G => s.table.WritesCards u.table ∧
      s.SamePayments u) hstep h ⟨.refl _, .refl _⟩

/-- An accepted submission of tokens, before a complete reveal is left. -/
theorem applySubmitPlayerRevealTokens_eq_ok {i : ℕ} {tokens : List G}
    {proofs : List (Protocol.RevealTokenProof G)}
    (h : s.applySubmitPlayerRevealTokens i tokens proofs = .ok s') :
    ∃ m, GivesTokens s m i tokens ∧ m.checkRevealPhaseComplete = .ok s' := by
  simp only [applySubmitPlayerRevealTokens, Fallible.bind_eq_ok, Fallible.ensure_eq_ok,
    Fallible.orErr_eq_ok] at h
  obtain ⟨_, -, _, hlen, _, hne, _, -, _, hindices, pk, -, m, hm, n, hn, h⟩ := h
  refine ⟨n, ?_, h⟩
  change (((owedIndices s.table i).zip (tokens.zip proofs)).foldlM (submitRevealToken i pk) s) =
    .ok m at hm
  have howed : (owedIndices s.table i).length = tokens.length := hindices
  have hsome : (owedIndices s.table i).zip (tokens.zip proofs) ≠ [] := fun hnil => by
    have hz := congrArg List.length hnil
    rw [List.length_zip, List.length_zip, howed, hlen, min_self, min_self, List.length_nil] at hz
    exact hne (List.length_eq_zero_iff.mp (hlen.trans hz))
  obtain ⟨street, ⟨purpose, assignments⟩, d, hp⟩ := revealing_of_foldlM hsome hm
  have hassign := TexasPokerTable.revealAssignments_of_revealing hp
  rw [owedIndices, hassign, List.range_eq_range'] at hm
  have hall : s.table.handPhase = .revealing street ⟨purpose, [] ++ assignments⟩ d := hp
  obtain ⟨ht, hpay⟩ := foldlM_submitRevealToken hall (by simp) hlen hm
  obtain ⟨reveal, hr, hw⟩ := materializeCompletedRevealAssignments_eq_ok hn
  obtain rfl : recorded i tokens ⟨purpose, assignments⟩ = reveal := by
    rw [ht] at hr
    exact Option.some.inj hr
  rcases hw with ⟨hnil, rfl⟩ | ⟨w, t, hw, hdrain, rfl⟩
  · exact .waits hp howed hnil ht hpay
  · obtain ⟨street', state', d', hp', rfl⟩ := TexasPokerTable.drainCompleted_eq_ok hdrain
    obtain ⟨ledger, hrest⟩ := hw.writesCards.1.rest
    rw [hrest, ht] at hp'
    cases hp'
    exact .writes hp howed ht hpay hw rfl ⟨rfl, rfl, rfl⟩

/-! ## Shuffles and reconstructions -/

/-- An accepted shuffle is the one of the seat to shuffle; it replaces the deck and passes the
turn on. -/
theorem applySubmitShuffleV2_eq_ok {i : ℕ} {outputCards : List (ElGamalCiphertext G)}
    {proof : Protocol.ShuffleProof G} (h : s.applySubmitShuffleV2 i outputCards proof = .ok s') :
    ∃ phase aggPk pk encrypted m, s.table.handPhase = .shuffling phase ∧
      phase.state.derivedCurrentShuffler = i ∧ (s.table.seat i).isOccupied = true ∧
      s.table.derivedAggregatedPk = .ok aggPk ∧
      Protocol.verifyShuffle proof s.table.deckState.encrypted.toVec outputCards (aggPk.getD 0) =
        .ok () ∧
      (s.table.seat i).pk = some pk ∧
      CipherDeck.tryFrom (outputCards.map fun ct => addPkToC2 ct pk) = .ok encrypted ∧
      m.table = { s.table with
        deckState := { s.table.deckState with encrypted }
        handPhase := .shuffling (phase.withState ⟨seatMaskRemove phase.state.pendingMask i,
          Mask.insert phase.state.completedMask i⟩) } ∧
      s.SamePayments m ∧ PassesShuffle m s' := by
  simp only [applySubmitShuffleV2, Fallible.bind_eq_ok, Fallible.ensure_eq_ok,
    Fallible.orErr_eq_ok, labelled_eq_ok] at h
  obtain ⟨_, -, _, hocc, _, hcur, _, -, aggPk, hagg, _, hverify, pk, hpk, encrypted, henc, h⟩ := h
  split at h
  · rename_i phase hp
    rw [Fallible.bind_eq_ok] at h
    obtain ⟨t, ht, h⟩ := h
    cases ht
    have hst : s.table.shuffleState = phase.state := by simp [TexasPokerTable.shuffleState, hp]
    rw [hst] at hcur
    exact ⟨phase, aggPk, pk, encrypted, _, hp, hcur, hocc, hagg, hverify, hpk, henc, rfl,
      .of_event rfl ⟨rfl, rfl, rfl⟩, advanceShuffle_eq_ok h⟩
  · cases h

omit [AddCommGroup G] [Protocol G] [DecidableEq G] in
/-- The contribution of a seat is part of the accumulated deck. -/
def contributed (s : Exec G) (i : ℕ) (accumulated : List (ElGamalCiphertext G))
    (handPhase : HandPhase G) : Exec G :=
  (s.withTable { s.table with
    deckState := { s.table.deckState with reconstructAccumulated := some accumulated }
    handPhase }).emit (.reconstructDeckSubmitted s.table.id i)

omit [AddCommGroup G] [Protocol G] [DecidableEq G] in
theorem reconstructing_of_phase {t : TexasPokerTable G}
    (h : t.reconstructPhase = reconstructPhaseCollecting) :
    ∃ street state reveal epochMs d,
      t.handPhase = .reconstructing street state reveal epochMs d := by
  unfold TexasPokerTable.reconstructPhase at h
  split at h
  · exact ⟨_, _, _, _, _, ‹_›⟩
  · cases h

/-- An accepted contribution is one the table still waits for; it is added to the accumulated
deck, and the last one completes the reconstruction. -/
theorem applySubmitReconstructDeck_eq_ok {i : ℕ}
    {statement : ReconstructionStatement G (Protocol.Contribution G)}
    {proof : Protocol.ReconstructProof G}
    (h : s.applySubmitReconstructDeck i statement proof = .ok s') :
    ∃ street state reveal epochMs d expected prior accumulated m,
      s.table.handPhase = .reconstructing street state reveal epochMs d ∧
      (s.table.seat i).isOccupied = true ∧ seatMaskContains state.pendingMask i = true ∧
      s.expectedStatement i statement.contributions = .ok expected ∧
      Protocol.verifyReconstruct proof statement = .ok () ∧
      (s.table.deckState.reconstructAccumulated = some prior ∨
        s.table.deckState.reconstructAccumulated = none ∧
          Protocol.canonicalBaseDeck expected.cards expected.aggregatePk = .ok prior) ∧
      Protocol.applyReconstructionContributions prior statement.contributions = .ok accumulated ∧
      m = s.contributed i accumulated
        (.reconstructing street ⟨seatMaskRemove state.pendingMask i⟩ reveal epochMs d) ∧
      s.SamePayments m ∧
      (s' = m ∨ seatMaskRemove state.pendingMask i = 0 ∧ m.onCompleteReconstruct = .ok s') := by
  simp only [applySubmitReconstructDeck] at h
  rw [Fallible.bind_eq_ok] at h
  obtain ⟨_, hphase, h⟩ := h
  obtain ⟨street, state, reveal, epochMs, d, hp⟩ := reconstructing_of_phase
    (Fallible.ensure_eq_ok.mp hphase)
  have hst : s.table.reconstructState = state := by
    simp [TexasPokerTable.reconstructState, hp]
  simp only [Fallible.bind_eq_ok, Fallible.ensure_eq_ok, labelled_eq_ok, hst, hp] at h
  obtain ⟨_, hocc, _, hpending, expected, hexp, _, -, _, hverify, h⟩ := h
  split at h
  all_goals
    rename_i hold
    rw [Fallible.bind_eq_ok] at h
    obtain ⟨prior, hprior, h⟩ := h
    simp only [Fallible.bind_eq_ok, labelled_eq_ok] at h
    obtain ⟨accumulated, hacc, t, ht, h⟩ := h
    cases ht
    refine ⟨street, state, reveal, epochMs, d, expected, prior, accumulated,
      s.contributed i accumulated
        (.reconstructing street ⟨seatMaskRemove state.pendingMask i⟩ reveal epochMs d),
      hp, hocc, hpending, hexp, hverify, ?_, hacc, rfl, .of_event rfl ⟨rfl, rfl, rfl⟩, ?_⟩
  · cases hprior
    exact .inl hold
  · split at h
    · rename_i h0
      exact .inr ⟨h0, h⟩
    · cases h
      exact .inl rfl
  · exact .inr ⟨hold, labelled_eq_ok.mp hprior⟩
  · split at h
    · rename_i h0
      exact .inr ⟨h0, h⟩
    · cases h
      exact .inl rfl

end Exec

end TexasPoker
