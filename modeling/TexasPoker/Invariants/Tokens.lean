import TexasPoker.Invariants.Reveals
import TexasPoker.Runtime.Client

/-! # Reveal tokens by seat

A book kept beside the runs says which seat gave which token. The table stores the tokens as they
come, so they stand in the order of the seats when every submission of a window comes from a
higher seat than the ones before it.
-/

namespace TexasPoker

variable {G : Type}

/-- The tokens given for each target, with their seats, as they came. -/
abbrev TokenBook (G : Type) := RevealTarget → List (ℕ × G)

/-- The tokens among `tokens` that are for a target. -/
def tokensFor (targets : List RevealTarget) (tokens : List G) (target : RevealTarget) : List G :=
  ((targets.zip tokens).filter fun e => e.1 = target).map Prod.snd

/-- The book after a seat gave its tokens. -/
def TokenBook.enter (book : TokenBook G) (i : ℕ) (targets : List RevealTarget)
    (tokens : List G) : TokenBook G := fun target =>
  book target ++ (tokensFor targets tokens target).map fun token => (i, token)

namespace TexasPokerTable

variable (t : TexasPokerTable G)

/-- The targets a seat owes a token for, in the order of the assignments. -/
def owedTargets (i : ℕ) : List RevealTarget :=
  (t.revealAssignments.filter fun a => seatMaskContains a.pendingMask i).map
    RevealAssignment.target

/-- A book of the tokens that the open assignments hold. -/
def standing (book : TokenBook G) : TokenBook G := fun target =>
  if t.revealAssignments.any fun a => a.target = target && a.submittedMask ≠ 0 then book target
  else []

/-- The `r`-th token of an assignment is the one that its `r`-th lowest submitter gave. -/
def TokensBySeat (book : TokenBook G) : Prop :=
  ∀ a ∈ t.revealAssignments, List.Forall₂ (fun seat token => (seat, token) ∈ book a.target)
    (seatMaskToIndices a.submittedMask maxSeats) a.revealTokens

end TexasPokerTable

section Sessions

variable [AddCommGroup G] [Protocol G] [DecidableEq G]

/-- The seat and the tokens of a submission. -/
def Call.submission (c : Call) : Option (ℕ × List G) :=
  if CanonicalCommand.fromSelector G c.selector = some .submitPlayerRevealTokens then
    match Exec.readSubmission (G := G) c.args with
    | .ok (i, tokens, _) => some (i, tokens)
    | .error _ => none
  else none

/-- The book after a call. -/
def Call.enter (c : Call) (t : TexasPokerTable G) (book : TokenBook G) : TokenBook G :=
  match c.submission (G := G) with
  | some (i, tokens) => book.enter i (t.owedTargets i) tokens
  | none => book

/-- The sessions with the book of their tokens. -/
def bookedSession (G : Type) [AddCommGroup G] [Protocol G] [DecidableEq G] :
    TransitionSystem (Exec G × TokenBook G) Call where
  init s := (session G).init s.1 ∧ s.2 = fun _ => []
  next s c s' := s.1.call c = .ok s'.1 ∧ s'.2 = s'.1.table.standing (c.enter s.1.table s.2)

/-- A submission completes the assignments of its seat, or comes from a higher seat than the
tokens they hold. -/
def Call.InSeatOrder (c : Call) (t : TexasPokerTable G) : Prop :=
  ∀ e ∈ c.submission (G := G), ∀ a ∈ t.revealAssignments,
    seatMaskContains a.pendingMask e.1 = true → seatMaskRemove a.pendingMask e.1 = 0 ∨
      ∀ j ∈ seatMaskToIndices a.submittedMask maxSeats, j < e.1

end Sessions

/-! ## The tokens of one submission -/

namespace Exec

variable {i : ℕ} {l : List (RevealAssignment G)} {tokens : List G}

theorem map_target_withTokens :
    (withTokens i l tokens).map RevealAssignment.target = l.map RevealAssignment.target := by
  induction l generalizing tokens with
  | nil => simp [withTokens]
  | cons a l ih =>
    cases tokens with
    | nil => rw [withTokens_nil]
    | cons token tokens =>
      rw [withTokens]
      split
      · rw [List.map_cons, List.map_cons, ih]
        rfl
      · rw [List.map_cons, List.map_cons, ih]

/-- The targets a seat owes a token for. -/
def owed (i : ℕ) (l : List (RevealAssignment G)) : List RevealTarget :=
  (l.filter fun a => seatMaskContains a.pendingMask i).map RevealAssignment.target

theorem tokensFor_of_notMem {targets : List RevealTarget} {target : RevealTarget}
    (h : target ∉ targets) : tokensFor targets tokens target = [] := by
  rw [tokensFor, List.map_eq_nil_iff, List.filter_eq_nil_iff]
  intro e he htarget
  exact h (of_decide_eq_true htarget ▸ (List.of_mem_zip he).1)

theorem mem_of_mem_owed {target : RevealTarget} (h : target ∈ owed i l) :
    target ∈ l.map RevealAssignment.target :=
  (List.filter_sublist.map _).subset h

/-- What becomes of an assignment: its own token, if the seat owes it one. -/
structure Takes (i : ℕ) (targets : List RevealTarget) (tokens : List G)
    (a a' : RevealAssignment G) : Prop where
  passed : seatMaskContains a.pendingMask i = false →
    a' = a ∧ tokensFor targets tokens a.target = []
  given : seatMaskContains a.pendingMask i = true →
    ∃ token, a' = a.withToken i token ∧ tokensFor targets tokens a.target = [token]

theorem exists_takes (hnodup : (l.map RevealAssignment.target).Nodup)
    (hlen : (owed i l).length = tokens.length) {a' : RevealAssignment G}
    (h : a' ∈ withTokens i l tokens) : ∃ a ∈ l, Takes i (owed i l) tokens a a' := by
  induction l generalizing tokens with
  | nil => simp [withTokens] at h
  | cons b l ih =>
    rw [List.map_cons, List.nodup_cons] at hnodup
    obtain ⟨hb, hnodup⟩ := hnodup
    have hbowed : b.target ∉ owed i l := fun hm => hb (mem_of_mem_owed hm)
    cases hown : seatMaskContains b.pendingMask i with
    | false =>
      have howed : owed i (b :: l) = owed i l := by
        simp only [owed, List.filter_cons, hown, Bool.false_eq_true, if_false]
      rw [howed] at hlen ⊢
      have hmem : a' = b ∨ a' ∈ withTokens i l tokens := by
        cases tokens with
        | nil => simpa using h
        | cons token tokens => simpa [withTokens, hown] using h
      rcases hmem with rfl | hmem
      · refine ⟨a', List.mem_cons_self, fun _ => ⟨rfl, tokensFor_of_notMem hbowed⟩, fun hg => ?_⟩
        rw [hown] at hg
        cases hg
      · obtain ⟨a, ha, htakes⟩ := ih hnodup hlen hmem
        exact ⟨a, List.mem_cons_of_mem _ ha, htakes⟩
    | true =>
      have howed : owed i (b :: l) = b.target :: owed i l := by
        simp only [owed, List.filter_cons, hown, if_true, List.map_cons]
      rw [howed] at hlen ⊢
      cases tokens with
      | nil => cases hlen
      | cons token tokens =>
        have hlen : (owed i l).length = tokens.length := by simpa using hlen
        have hcons {target : RevealTarget} : tokensFor (b.target :: owed i l) (token :: tokens) target =
            (if b.target = target then [token] else []) ++ tokensFor (owed i l) tokens target := by
          simp only [tokensFor, List.zip_cons_cons, List.filter_cons, decide_eq_true_eq]
          split <;> rfl
        have hmem : a' = b.withToken i token ∨ a' ∈ withTokens i l tokens := by
          simpa [withTokens, hown] using h
        rcases hmem with rfl | hmem
        · refine ⟨b, List.mem_cons_self, fun hp => ?_, fun _ => ⟨token, rfl, ?_⟩⟩
          · rw [hown] at hp
            cases hp
          · rw [hcons, if_pos rfl, tokensFor_of_notMem hbowed, List.append_nil]
        · obtain ⟨a, ha, htakes⟩ := ih hnodup hlen hmem
          have hne : b.target ≠ a.target := fun he => hb (he ▸ List.mem_map_of_mem ha)
          have hsame : tokensFor (b.target :: owed i l) (token :: tokens) a.target =
              tokensFor (owed i l) tokens a.target := by
            rw [hcons, if_neg hne, List.nil_append]
          refine ⟨a, List.mem_cons_of_mem _ ha, ?_, ?_⟩
          · rw [hsame]
            exact htakes.passed
          · rw [hsame]
            exact htakes.given

/-- A submission gives exactly the tokens owed. -/
theorem length_owed {t : TexasPokerTable G} :
    (owedIndices t i).length = (owed i t.revealAssignments).length := by
  have hrange (k : ℕ) (l : List (RevealAssignment G)) (owes : ℕ → Bool)
      (ho : ∀ j, owes (k + j) = l[j]?.any fun a => seatMaskContains a.pendingMask i) :
      ((List.range' k l.length).filter owes).length = (owed i l).length := by
    induction l generalizing k with
    | nil => rfl
    | cons a l ih =>
      have hhead := ho 0
      rw [Nat.add_zero, List.getElem?_cons_zero, Option.any_some] at hhead
      have htail := ih (k + 1) fun j => by
        rw [Nat.add_assoc, ho, Nat.add_comm, List.getElem?_cons_succ]
      rw [List.length_cons, List.range'_succ]
      simp only [owed, List.filter_cons, hhead, List.length_map] at htail ⊢
      split
      · rw [List.length_cons, List.length_cons, htail]
      · exact htail
  rw [owedIndices, List.range_eq_range']
  exact hrange 0 _ _ fun j => by rw [Nat.zero_add]

variable [AddCommGroup G] [Protocol G] [DecidableEq G] {s s' : Exec G}

/-- The assignments after a submission: the tokens recorded, the complete ones gone. -/
theorem GivesTokens.revealAssignments (h : GivesTokens s s' i tokens) :
    s'.table.revealAssignments = (withTokens i s.table.revealAssignments tokens).filter
      fun a => a.pendingMask ≠ 0 := by
  cases h with
  | waits hp _ hnil ht _ =>
    rw [TexasPokerTable.revealAssignments_of_revealing hp, ht]
    refine (List.filter_eq_self.mpr fun a ha => ?_).symm
    exact decide_eq_true fun h0 => List.filter_eq_nil_iff.mp hnil a ha (decide_eq_true h0)
  | writes hp _ _ _ _ ht _ =>
    rw [TexasPokerTable.revealAssignments_of_revealing hp, ht]
    rfl

theorem GivesTokens.length (h : GivesTokens s s' i tokens) :
    (owed i s.table.revealAssignments).length = tokens.length := by
  rw [← length_owed]
  cases h <;> assumption

end Exec

/-! ## Invariants -/

namespace RevealTokenState

theorem pairwise_keyLt {purpose : RevealPurpose} {i : ℕ} {prior : Option (ℕ × ℕ × ℕ)}
    {seen : List ℕ} {l : List (RevealAssignment G)}
    (h : validateAssignments purpose i prior seen l = .ok ()) :
    (∀ k ∈ prior, ∀ a ∈ l, keyLt k a.target.canonicalKey) ∧
      l.Pairwise fun a b => keyLt a.target.canonicalKey b.target.canonicalKey := by
  induction l generalizing i prior seen with
  | nil => simp
  | cons a l ih =>
    simp only [validateAssignments, Fallible.bind_eq_ok, Fallible.ensure_eq_ok] at h
    obtain ⟨_, -, _, hprior, _, -, h⟩ := h
    obtain ⟨hhead, htail⟩ := ih h
    refine ⟨fun k hk b hb => ?_, List.pairwise_cons.mpr ⟨fun b hb => hhead _ rfl b hb, htail⟩⟩
    rcases List.mem_cons.mp hb with rfl | hb
    · exact hprior k hk
    · have h₁ := hprior k hk
      have h₂ := hhead _ rfl b hb
      simp only [keyLt, Bool.or_eq_true, Bool.and_eq_true, decide_eq_true_eq] at h₁ h₂ ⊢
      omega

/-- A valid reveal names no target twice. -/
theorem nodup_targets {reveal : RevealTokenState G} {street : ℕ}
    (h : reveal.validateForStreet street = .ok ()) :
    (reveal.assignments.map RevealAssignment.target).Nodup := by
  rw [validateForStreet, Fallible.bind_eq_ok] at h
  obtain ⟨_, -, h⟩ := h
  refine List.pairwise_map.mpr ((pairwise_keyLt h).2.imp fun {a b} hlt he => ?_)
  rw [he] at hlt
  simp [keyLt] at hlt

end RevealTokenState

namespace TexasPokerTable

variable {t t' t'' : TexasPokerTable G} {book : TokenBook G}

/-- No token is added: an assignment of the later table holds none, or the ones it held. -/
structure KeepsTokens (t t' : TexasPokerTable G) : Prop where
  carried : ∀ a' ∈ t'.revealAssignments, a'.submittedMask = 0 ∧ a'.revealTokens = [] ∨
    ∃ a ∈ t.revealAssignments, a'.target = a.target ∧ a'.submittedMask = a.submittedMask ∧
      a'.revealTokens = a.revealTokens
  distinct : (t.revealAssignments.map RevealAssignment.target).Nodup →
    (t'.revealAssignments.map RevealAssignment.target).Nodup

theorem KeepsTokens.refl (t : TexasPokerTable G) : KeepsTokens t t :=
  ⟨fun a ha => .inr ⟨a, ha, rfl, rfl, rfl⟩, fun h => h⟩

theorem KeepsTokens.trans (h : KeepsTokens t t') (h' : KeepsTokens t' t'') :
    KeepsTokens t t'' := by
  refine ⟨fun a'' ha'' => ?_, h'.distinct ∘ h.distinct⟩
  rcases h'.carried a'' ha'' with hnew | ⟨a', ha', ht', hs', hr'⟩
  · exact .inl hnew
  rw [ht', hs', hr']
  exact h.carried a' ha'

theorem revealAssignments_of_some {reveal : RevealTokenState G}
    (h : t.revealTokenState = some reveal) : t.revealAssignments = reveal.assignments := by
  rw [revealAssignments, h]

/-- An assignment that has just been opened. -/
theorem Opening.unopened {street : ℕ} {reveal : RevealTokenState G}
    (h : Opening t street reveal) :
    ∀ a ∈ reveal.assignments, a.submittedMask = 0 ∧ a.revealTokens = [] := by
  cases h with
  | hole =>
    intro a ha
    obtain ⟨_, -, ha⟩ := List.mem_flatMap.mp ha
    obtain ⟨_, -, rfl⟩ := List.mem_map.mp ha
    exact ⟨rfl, rfl⟩
  | board _ =>
    intro a ha
    obtain ⟨_, -, ha⟩ := List.mem_flatMap.mp ha
    obtain ⟨_, -, rfl⟩ := List.mem_map.mp ha
    exact ⟨rfl, rfl⟩
  | showdown hopen =>
    have hstep : ∀ seat ∈ t.getActiveSeatIndices, ∀ acc acc' : List (RevealAssignment G),
        (do return acc ++ (← t.showdownAssignments seat)) = (.ok acc' : PokerL1Result _) →
        (∀ a ∈ acc, a.submittedMask = 0 ∧ a.revealTokens = []) →
        ∀ a ∈ acc', a.submittedMask = 0 ∧ a.revealTokens = [] := by
      intro seat _ acc acc' h hacc a ha
      obtain ⟨new, hnew, h⟩ := Fallible.bind_eq_ok.mp h
      cases h
      rw [showdownAssignments, Fallible.bind_eq_ok] at hnew
      obtain ⟨_, -, hnew⟩ := hnew
      cases hnew
      rcases List.mem_append.mp ha with ha | ha
      · exact hacc a ha
      · obtain ⟨_, -, rfl⟩ := List.mem_map.mp ha
        exact ⟨rfl, rfl⟩
    exact Fallible.foldlM_keeps hstep hopen (by simp)

theorem RevealStep.keepsTokens (h : RevealStep t t') : KeepsTokens t t' := by
  cases h with
  | closed h =>
    have hnil : t'.revealAssignments = [] := by rw [revealAssignments, h]
    exact ⟨by simp [hnil], by simp [hnil]⟩
  | @kept gone reveal hr hr' _ _ _ =>
    have ht := revealAssignments_of_some hr
    have ht' : t'.revealAssignments = reveal.assignments.map (RevealAssignment.without gone) :=
      revealAssignments_of_some hr'
    refine ⟨fun a' ha' => .inr ?_, fun hd => ?_⟩
    · rw [ht'] at ha'
      obtain ⟨a, ha, rfl⟩ := List.mem_map.mp ha'
      exact ⟨a, ht ▸ ha, rfl, rfl, rfl⟩
    · rw [ht', List.map_map]
      rw [ht] at hd
      exact hd
  | @opened u street reveal _ _ _ ho hv hp _ =>
    have ht' : t'.revealAssignments = reveal.assignments := revealAssignments_of_revealing hp
    exact ⟨fun a ha => .inl (ho.unopened a (ht' ▸ ha)),
      fun _ => ht' ▸ RevealTokenState.nodup_targets hv⟩

/-- The tokens stand by seat, as the book has them. -/
structure Booked (t : TexasPokerTable G) (book : TokenBook G) : Prop where
  distinct : (t.revealAssignments.map RevealAssignment.target).Nodup
  seats : ∀ a ∈ t.revealAssignments,
    (book a.target).map Prod.fst = seatMaskToIndices a.submittedMask maxSeats
  tokens : ∀ a ∈ t.revealAssignments, (book a.target).map Prod.snd = a.revealTokens

theorem eq_of_target {l : List (RevealAssignment G)} (hl : (l.map RevealAssignment.target).Nodup)
    {a b : RevealAssignment G} (ha : a ∈ l) (hb : b ∈ l) (h : a.target = b.target) : a = b :=
  List.inj_on_of_nodup_map hl ha hb h

/-- The book after a step without tokens. -/
theorem Booked.standing (h : Booked t book) (hk : KeepsTokens t t') :
    Booked t' (t'.standing book) := by
  have hd := hk.distinct h.distinct
  have hbook : ∀ a' ∈ t'.revealAssignments,
      (t'.standing book a'.target).map Prod.fst = seatMaskToIndices a'.submittedMask maxSeats ∧
        (t'.standing book a'.target).map Prod.snd = a'.revealTokens := by
    intro a' ha'
    by_cases h0 : a'.submittedMask = 0
    · have hnone : ¬ (t'.revealAssignments.any fun a =>
          a.target = a'.target && a.submittedMask ≠ 0) = true := by
        rw [List.any_eq_true]
        rintro ⟨b, hb, hbt⟩
        simp only [Bool.and_eq_true, decide_eq_true_eq] at hbt
        rw [eq_of_target hd hb ha' hbt.1] at hbt
        exact hbt.2 h0
      rw [TexasPokerTable.standing, if_neg hnone, h0, seatMaskToIndices_zero]
      refine ⟨rfl, ?_⟩
      rcases hk.carried a' ha' with ⟨-, hr⟩ | ⟨a, ha, -, hs, hr⟩
      · rw [hr, List.map_nil]
      · have hseats := h.seats a ha
        rw [← hs, h0, seatMaskToIndices_zero, List.map_eq_nil_iff] at hseats
        rw [hr, ← h.tokens a ha, hseats]
    · have hsome : (t'.revealAssignments.any fun a =>
          a.target = a'.target && a.submittedMask ≠ 0) = true :=
        List.any_eq_true.mpr ⟨a', ha', Bool.and_eq_true_iff.mpr
          ⟨decide_eq_true rfl, decide_eq_true h0⟩⟩
      rw [TexasPokerTable.standing, if_pos hsome]
      rcases hk.carried a' ha' with ⟨hs, -⟩ | ⟨a, ha, ht, hs, hr⟩
      · exact absurd hs h0
      · rw [ht, hs, hr]
        exact ⟨h.seats a ha, h.tokens a ha⟩
  exact ⟨hd, fun a ha => (hbook a ha).1, fun a ha => (hbook a ha).2⟩

/-- A seat above all members comes last. -/
theorem seatMaskToIndices_insert {m : SeatMask} {i : ℕ} (hi : i < maxSeats)
    (h : ∀ j ∈ seatMaskToIndices m maxSeats, j < i) :
    seatMaskToIndices (Mask.insert m i) maxSeats = seatMaskToIndices m maxSeats ++ [i] := by
  have hi16 : i < 16 := hi.trans (by decide)
  have hmem (j : ℕ) : seatMaskContains (Mask.insert m i) j =
      (seatMaskContains m j || decide (j = i)) := by
    rw [seatMaskContains, seatMaskContains, Mask.mem_insert hi16, Bool.and_or_distrib_left]
    by_cases hji : j = i
    · simp [hji, hi]
    · simp [hji]
  have hnot (j : ℕ) (hj : i ≤ j) : seatMaskContains m j = false := by
    by_contra hc
    have hc : seatMaskContains m j = true := by simpa using hc
    have hlt := (seatMaskContains_iff.mp hc).1
    exact absurd (h j (List.mem_filter.mpr ⟨List.mem_range.mpr hlt, hc⟩)) (by omega)
  have hsplit : List.range maxSeats =
      List.range i ++ i :: List.range' (i + 1) (maxSeats - (i + 1)) := by
    rw [List.range_eq_range', List.range_eq_range', ← List.range'_succ,
      show maxSeats - (i + 1) + 1 = maxSeats - i by omega]
    have happ := List.range'_append_1 (s := 0) (m := i) (n := maxSeats - i)
    rw [Nat.zero_add] at happ
    rw [happ]
    congr 1
    omega
  have hlow : (List.range i).filter (seatMaskContains (Mask.insert m i)) =
      (List.range i).filter (seatMaskContains m) := by
    refine List.filter_congr fun j hj => ?_
    rw [hmem, decide_eq_false (Nat.ne_of_lt (List.mem_range.mp hj)), Bool.or_false]
  have hhigh : (List.range' (i + 1) (maxSeats - (i + 1))).filter
      (seatMaskContains (Mask.insert m i)) = [] := by
    refine List.filter_eq_nil_iff.mpr fun j hj => ?_
    have hij : i < j := by
      rw [List.mem_range'_1] at hj
      omega
    rw [hmem, hnot j hij.le, decide_eq_false (Nat.ne_of_gt hij)]
    decide
  have hhigh' : (i :: List.range' (i + 1) (maxSeats - (i + 1))).filter (seatMaskContains m) =
      [] := by
    refine List.filter_eq_nil_iff.mpr fun j hj => ?_
    have hij : i ≤ j := by
      rcases List.mem_cons.mp hj with rfl | hj
      · exact le_rfl
      · rw [List.mem_range'_1] at hj
        omega
    rw [hnot j hij]
    decide
  rw [seatMaskToIndices, seatMaskToIndices, hsplit, List.filter_append, List.filter_append,
    hlow, hhigh', List.append_nil, List.filter_cons, hmem, decide_eq_true rfl, Bool.or_true,
    if_pos rfl, hhigh]

end TexasPokerTable

namespace Exec

open TexasPokerTable

variable [AddCommGroup G] [Protocol G] [DecidableEq G] {s s' : Exec G} {book : TokenBook G}
  {i : ℕ} {tokens : List G}

theorem PlainSteps.keepsTokens (h : PlainSteps s s') : s.table.KeepsTokens s'.table := by
  induction h with
  | refl => exact .refl _
  | tail _ h ih => exact ih.trans h.revealStep.keepsTokens

/-- The book after tokens that complete their assignments or come from the highest seat. -/
theorem GivesTokens.booked (h : GivesTokens s s' i tokens) (hb : s.table.Booked book)
    (horder : ∀ a ∈ s.table.revealAssignments, seatMaskContains a.pendingMask i = true →
      seatMaskRemove a.pendingMask i = 0 ∨
        ∀ j ∈ seatMaskToIndices a.submittedMask maxSeats, j < i) :
    s'.table.Booked (book.enter i (s.table.owedTargets i) tokens) := by
  have hassign := h.revealAssignments
  have htargets : (s'.table.revealAssignments.map RevealAssignment.target).Nodup := by
    rw [hassign]
    refine List.Sublist.nodup (List.filter_sublist.map _) ?_
    rw [map_target_withTokens]
    exact hb.distinct
  have hbook : ∀ a' ∈ s'.table.revealAssignments,
      (book.enter i (s.table.owedTargets i) tokens a'.target).map Prod.fst =
          seatMaskToIndices a'.submittedMask maxSeats ∧
        (book.enter i (s.table.owedTargets i) tokens a'.target).map Prod.snd =
          a'.revealTokens := by
    intro a' ha'
    rw [hassign, List.mem_filter] at ha'
    obtain ⟨ha', hpending⟩ := ha'
    obtain ⟨a, ha, htakes⟩ := exists_takes hb.distinct h.length ha'
    have hseats := hb.seats a ha
    have htokens := hb.tokens a ha
    cases hown : seatMaskContains a.pendingMask i with
    | false =>
      obtain ⟨rfl, hnone⟩ := htakes.passed hown
      have hsame : book.enter i (s.table.owedTargets i) tokens a'.target = book a'.target := by
        change _ ++ (tokensFor (owed i _) tokens _).map _ = _
        rw [hnone, List.map_nil, List.append_nil]
      rw [hsame]
      exact ⟨hseats, htokens⟩
    | true =>
      obtain ⟨token, rfl, htoken⟩ := htakes.given hown
      have hsnoc : book.enter i (s.table.owedTargets i) tokens (a.withToken i token).target =
          book a.target ++ [(i, token)] := by
        change _ ++ (tokensFor (owed i _) tokens a.target).map _ = _
        rw [htoken]
        rfl
      have hhigh := (horder a ha hown).resolve_left fun h0 => by
        rw [RevealAssignment.withToken, h0] at hpending
        simp at hpending
      rw [hsnoc, List.map_append, List.map_append, hseats, htokens]
      exact ⟨(seatMaskToIndices_insert (seatMaskContains_iff.mp hown).1 hhigh).symm, rfl⟩
  exact ⟨htargets, fun a ha => (hbook a ha).1, fun a ha => (hbook a ha).2⟩

/-- A call keeps the book by seat. -/
theorem call_booked {c : Call} (h : s.call c = .ok s') (horder : c.InSeatOrder s.table)
    (hb : s.table.Booked book) : s'.table.Booked (s'.table.standing (c.enter s.table book)) := by
  obtain ⟨command, m, n, hc⟩ := call_eq_ok h
  have hlast := PlainSteps.keepsTokens hc.settles
  by_cases hcommand : command = .submitPlayerRevealTokens
  · subst hcommand
    obtain ⟨i, tokens, proofs, k, hargs, hk, hm⟩ := hc.runs.tokens_plain
    have hsub : c.submission = some (i, tokens) := by
      rw [Call.submission, if_pos hc.decoded, hargs]
    have hbook := hk.booked hb (horder (i, tokens) hsub)
    rw [Call.enter, hsub]
    exact hbook.standing ((PlainSteps.keepsTokens hm).trans hlast)
  · have hsub : c.submission (G := G) = none := by
      rw [Call.submission, if_neg fun hd => hcommand (Option.some.inj (hc.decoded.symm.trans hd))]
    rw [Call.enter, hsub]
    exact hb.standing ((PlainSteps.keepsTokens (hc.runs.plain hcommand)).trans hlast)

/-- The sessions whose submissions come in the order of the seats. -/
abbrev orderedSession (G : Type) [AddCommGroup G] [Protocol G] [DecidableEq G] :
    TransitionSystem (Exec G × TokenBook G) Call :=
  (bookedSession G).restrict fun s c => c.InSeatOrder s.1.table

theorem booked_isInvariant : (orderedSession G).IsInvariant fun s => s.1.table.Booked s.2 where
  init := by
    rintro ⟨s, book⟩ ⟨⟨id, creator, rules, -, rfl⟩, -⟩
    exact ⟨List.nodup_nil, fun _ h => absurd h List.not_mem_nil,
      fun _ h => absurd h List.not_mem_nil⟩
  next := by
    rintro ⟨s, book⟩ c ⟨s', book'⟩ - hb ⟨horder, hcall, hbook⟩
    obtain rfl : book' = s'.table.standing (c.enter s.table book) := hbook
    exact call_booked hcall horder hb

end Exec

namespace TexasPokerTable

variable {t t' : TexasPokerTable G} {book book' : TokenBook G}

theorem Booked.bySeat (h : t.Booked book) : t.TokensBySeat book := by
  intro a ha
  rw [← h.seats a ha, ← h.tokens a ha, List.forall₂_map_left_iff, List.forall₂_map_right_iff]
  exact List.forall₂_same.mpr fun e he => he

theorem Booked.pairwise (h : t.Booked book) {a : RevealAssignment G}
    (ha : a ∈ t.revealAssignments) : (book a.target).Pairwise fun x y => x.1 < y.1 := by
  have hlt : (seatMaskToIndices a.submittedMask maxSeats).Pairwise (· < ·) :=
    List.pairwise_lt_range.sublist List.filter_sublist
  rw [← h.seats a ha] at hlt
  exact List.pairwise_map.mp hlt

/-- The same tokens from the same seats stand in the same order. -/
theorem Booked.tokens_eq (h : t.Booked book) (h' : t'.Booked book') {a a' : RevealAssignment G}
    (ha : a ∈ t.revealAssignments) (ha' : a' ∈ t'.revealAssignments)
    (hsame : ∀ e, e ∈ book a.target ↔ e ∈ book' a'.target) : a.revealTokens = a'.revealTokens := by
  have hnodup {l : List (ℕ × G)} (hl : l.Pairwise fun x y => x.1 < y.1) : l.Nodup :=
    hl.imp fun {x y} hlt he => absurd (he ▸ hlt) (lt_irrefl _)
  have hp := h.pairwise ha
  have hp' := h'.pairwise ha'
  have hperm : (book a.target).Perm (book' a'.target) :=
    (List.perm_ext_iff_of_nodup (hnodup hp) (hnodup hp')).mpr hsame
  have heq : book a.target = book' a'.target :=
    hperm.eq_of_pairwise (fun x y _ _ hxy hyx => absurd (hxy.trans hyx) (lt_irrefl _)) hp hp'
  rw [← h.tokens a ha, ← h'.tokens a' ha', heq]

end TexasPokerTable

section Runs

variable [AddCommGroup G] [Protocol G] [DecidableEq G] {s : Exec G × TokenBook G}

/-- When every submission completes its assignments or comes from the highest seat so far, the
tokens stand by seat, whatever the order in which they came. -/
theorem tokensBySeat (hs : (Exec.orderedSession G).Reachable s) :
    s.1.table.TokensBySeat s.2 ∧ ∀ s', (Exec.orderedSession G).Reachable s' →
      ∀ a ∈ s.1.table.revealAssignments, ∀ a' ∈ s'.1.table.revealAssignments,
        (∀ e, e ∈ s.2 a.target ↔ e ∈ s'.2 a'.target) → a.revealTokens = a'.revealTokens := by
  have hb := Exec.booked_isInvariant.of_reachable hs
  exact ⟨hb.bySeat, fun s' hs' a ha a' ha' =>
    hb.tokens_eq (Exec.booked_isInvariant.of_reachable hs') ha ha'⟩

end Runs

namespace Transparent

instance (c : Call) (t : TexasPokerTable ℤ) : Decidable (c.InSeatOrder t) :=
  inferInstanceAs (Decidable (∀ e ∈ c.submission (G := ℤ), _))

/-- Make one step, if it is allowed, and keep the book. -/
def bookedStep (allowed : TexasPokerTable ℤ → Call → Bool) (s : Exec ℤ × TokenBook ℤ)
    (step : ClientStep) : PokerL1Result (Exec ℤ × TokenBook ℤ) := do
  let c := step.call s.1.table
  ensure (allowed s.1.table c) (.serialization "the step is not allowed")
  let s' ← s.1.call c
  return (s', s'.table.standing (c.enter s.1.table s.2))

/-- Four players up to the first reveal. -/
def fourShuffled : List ClientStep :=
  [.join 1 1000 2, .join 2 1000 3, .join 3 1000 5, .join 4 1000 7, .start, .shuffle 0,
    .shuffle 1, .shuffle 2, .shuffle 3]

/-- The reveal of four players with the tokens of some of them. -/
@[irreducible] def fourDealt (allowed : TexasPokerTable ℤ → Call → Bool) (seats : List ℕ) :
    PokerL1Result (Exec ℤ × TokenBook ℤ) :=
  (fourShuffled ++ seats.map ClientStep.reveal).foldlM (bookedStep allowed)
    (⟨.fresh ⟨7, 0⟩ 7 (.new 4 50 100), []⟩, fun _ => [])

theorem fourDealt_reachable {allowed : TexasPokerTable ℤ → Call → Bool} {seats : List ℕ}
    {s : Exec ℤ × TokenBook ℤ} (h : fourDealt allowed seats = .ok s) :
    ((bookedSession ℤ).restrict fun s c => allowed s.1.table c = true).Reachable s := by
  unfold fourDealt at h
  refine Fallible.foldlM_keeps (fun step _ s s' hstep hr => ?_) h
    (.init ⟨⟨_, _, _, by decide, rfl⟩, rfl⟩)
  simp only [bookedStep, Fallible.bind_eq_ok, Fallible.ensure_eq_ok] at hstep
  obtain ⟨_, hallowed, t, ht, hstep⟩ := hstep
  cases hstep
  exact .next (step.call s.1.table) hr ⟨hallowed, ht, rfl⟩

/-- Seat 3 gives its tokens before seat 1, and they stay in that order. -/
theorem not_tokensBySeat : ¬ ∀ s : Exec ℤ × TokenBook ℤ, (bookedSession ℤ).Reachable s →
    s.1.table.TokensBySeat s.2 := by
  have hlate : Fallible.holds (fourDealt (fun _ _ => true) [3, 1]) (fun s =>
      ∃ a ∈ s.1.table.revealAssignments, ¬ List.Forall₂ (fun seat token =>
        (seat, token) ∈ s.2 a.target) (seatMaskToIndices a.submittedMask maxSeats)
        a.revealTokens) = true := by
    unfold fourDealt
    decide +kernel
  obtain ⟨s, hs, hp⟩ := Fallible.holds_iff.mp hlate
  obtain ⟨a, ha, hnot⟩ := of_decide_eq_true hp
  exact fun hall => hnot (hall s (fourDealt_reachable hs).of_restrict a ha)

/-- Seat 1 before seat 3: both tokens stand, by seat. -/
theorem tokensBySeat_fourDealt : ∃ s : Exec ℤ × TokenBook ℤ,
    (s.1.table.revealAssignments.map RevealAssignment.revealTokens).take 2 = [[3, 7], [3, 7]] ∧
      s.1.table.TokensBySeat s.2 := by
  have hrun : Fallible.holds (fourDealt (fun t c => c.InSeatOrder t) [1, 3]) (fun s =>
      (s.1.table.revealAssignments.map RevealAssignment.revealTokens).take 2 =
        [[3, 7], [3, 7]]) = true := by
    unfold fourDealt
    decide +kernel
  obtain ⟨s, hs, hp⟩ := Fallible.holds_iff.mp hrun
  have hr := fourDealt_reachable hs
  simp only [decide_eq_true_eq] at hr
  exact ⟨s, of_decide_eq_true hp, (tokensBySeat hr).1⟩

end Transparent

end TexasPoker
