import Mathlib.Logic.Basic
import Mathlib.Tactic.Common

/-! # Fallible effects

Programs that change a state and may fail; what a program did before it failed stays done.
A program keeps a property when all its ends do, and is clean from a state when its failures
leave the property.
-/

namespace TexasPoker

/-- Programs over a state that may fail and keep their effects. -/
abbrev Effect (σ ε α : Type) := ExceptT ε (StateM σ) α

namespace Effect

variable {σ τ ε ε' α β : Type}

/-- The result and the last state of a program. -/
def exec (prog : Effect σ ε α) (s : σ) : Except ε α × σ := prog s

/-- A computation without effects. -/
def ofExcept (x : Except ε α) : Effect σ ε α := fun s => (x, s)

/-- Change the failure of a program. -/
def mapError (g : ε → ε') (prog : Effect σ ε α) : Effect σ ε' α := fun s =>
  ((prog.exec s).1.mapError g, (prog.exec s).2)

/-- Go on with the result of a program, also with a failure. -/
def attempt (prog : Effect σ ε α) : Effect σ ε' (Except ε α) := fun s =>
  (.ok (prog.exec s).1, (prog.exec s).2)

/-- Run a program on a part of the state. -/
def within (get : τ → σ) (put : τ → σ → τ) (prog : Effect σ ε α) : Effect τ ε α := fun t =>
  ((prog.exec (get t)).1, put t (prog.exec (get t)).2)

variable {prog : Effect σ ε α} {f : α → Effect σ ε β} {s s' : σ} {a : α} {e : ε}

theorem exec_attempt : (prog.attempt : Effect σ ε' _).exec s =
    (.ok (prog.exec s).1, (prog.exec s).2) := rfl

theorem within_eq_ok {get : τ → σ} {put : τ → σ → τ} {t t' : τ} :
    (prog.within get put).exec t = (.ok a, t') ↔
      ∃ s', prog.exec (get t) = (.ok a, s') ∧ put t s' = t' := by
  change ((prog.exec (get t)).1, put t (prog.exec (get t)).2) = _ ↔ _
  rcases prog.exec (get t) with ⟨r, s'⟩
  simp [and_assoc]

theorem mapError_eq_ok {g : ε → ε'} :
    (prog.mapError g).exec s = (.ok a, s') ↔ prog.exec s = (.ok a, s') := by
  change ((prog.exec s).1.mapError g, (prog.exec s).2) = _ ↔ _
  rcases prog.exec s with ⟨_ | b, s₁⟩ <;> simp [Except.mapError]

theorem exec_bind : (prog >>= f).exec s =
    match prog.exec s with
    | (.ok a, s') => (f a).exec s'
    | (.error e, s') => (.error e, s') := by
  simp only [exec, bind, ExceptT.bind, ExceptT.mk, StateT.bind]
  rcases prog s with ⟨_ | _, _⟩ <;> rfl

theorem exec_bind_of_ok (h : prog.exec s = (.ok a, s')) : (prog >>= f).exec s = (f a).exec s' := by
  rw [exec_bind, h]

theorem exec_ofExcept_bind {x : Except ε α} : (ofExcept x >>= f).exec s =
    match x with
    | .ok a => (f a).exec s
    | .error e => (.error e, s) := by
  rw [exec_bind]
  cases x <;> rfl

/-- A result passed through the first half. -/
theorem exec_bind_eq_ok {b : β} : (prog >>= f).exec s = (.ok b, s') ↔
    ∃ a s₁, prog.exec s = (.ok a, s₁) ∧ (f a).exec s₁ = (.ok b, s') := by
  rw [exec_bind]
  constructor
  · intro h
    split at h
    · exact ⟨_, _, by assumption, h⟩
    · cases h
  · rintro ⟨a, s₁, h, hf⟩
    rw [h]
    exact hf

/-- A program ends with a result. -/
def Succeeds (prog : Effect σ ε α) (s : σ) : Prop :=
  ∃ a, (prog.exec s).1 = .ok a

theorem succeeds_bind : (prog >>= f).Succeeds s ↔
    ∃ a s₁, prog.exec s = (.ok a, s₁) ∧ (f a).Succeeds s₁ := by
  constructor
  · rintro ⟨b, hb⟩
    obtain ⟨a, s₁, h, hf⟩ := exec_bind_eq_ok.mp (Prod.ext hb rfl)
    exact ⟨a, s₁, h, b, by rw [hf]⟩
  · rintro ⟨a, s₁, h, b, hb⟩
    exact ⟨b, by rw [exec_bind_of_ok h, hb]⟩

/-- A second half that never fails does not count. -/
theorem succeeds_bind_of_forall (h : ∀ a s, (f a).Succeeds s) :
    (prog >>= f).Succeeds s ↔ prog.Succeeds s := by
  rw [succeeds_bind]
  constructor
  · rintro ⟨a, s₁, hok, -⟩
    exact ⟨a, by rw [hok]⟩
  · rintro ⟨a, ha⟩
    exact ⟨a, (prog.exec s).2, Prod.ext ha rfl, h a _⟩

theorem mapError_bind {g : ε → ε'} :
    (prog >>= f).mapError g = prog.mapError g >>= fun a => (f a).mapError g := by
  funext s
  change (((prog >>= f).exec s).1.mapError g, ((prog >>= f).exec s).2) = exec _ s
  rw [exec_bind, exec_bind]
  rcases h : prog.exec s with ⟨_ | a, s'⟩ <;> simp only [mapError, exec] at h ⊢ <;> rw [h] <;> rfl

/-! ## Kept properties -/

section Keeps

variable {I : σ → Prop}

/-- Every end of a program keeps a property. -/
def Keeps (I : σ → Prop) (prog : Effect σ ε α) : Prop :=
  ∀ s, I s → I (prog.exec s).2

theorem Keeps.of_exec {r : Except ε α} (h : prog.Keeps I) (hs : I s)
    (hr : prog.exec s = (r, s')) : I s' := by
  have hkept := h s hs
  rwa [hr] at hkept

theorem keeps_pure : (pure a : Effect σ ε α).Keeps I := fun _ hs => hs

theorem keeps_throw : (throw e : Effect σ ε α).Keeps I := fun _ hs => hs

theorem keeps_get : (get : Effect σ ε σ).Keeps I := fun _ hs => hs

theorem keeps_ofExcept {x : Except ε α} : (ofExcept x : Effect σ ε α).Keeps I := fun _ hs => hs

theorem keeps_modify {g : σ → σ} (h : ∀ s, I s → I (g s)) :
    (modify g : Effect σ ε Unit).Keeps I := h

theorem Keeps.bind (h : prog.Keeps I) (hf : ∀ a, (f a).Keeps I) : (prog >>= f).Keeps I := by
  intro s hs
  have hp := h s hs
  rw [exec_bind]
  rcases hr : prog.exec s with ⟨_ | a, s'⟩ <;> rw [hr] at hp
  · exact hp
  · exact hf a s' hp

theorem Keeps.mapError {g : ε → ε'} (h : prog.Keeps I) : (prog.mapError g).Keeps I := h

theorem Keeps.attempt (h : prog.Keeps I) : (prog.attempt : Effect σ ε' _).Keeps I := h

/-- A part of the state that the property does not read. -/
theorem keeps_within {get : τ → σ} {put : τ → σ → τ} {J : τ → Prop}
    (h : ∀ t s, J t → J (put t s)) : (prog.within get put).Keeps J :=
  fun _ ht => h _ _ ht

theorem keeps_mapM {g : β → Effect σ ε α} {l : List β} (h : ∀ b ∈ l, (g b).Keeps I) :
    (l.mapM g).Keeps I := by
  induction l with
  | nil => exact keeps_pure
  | cons b l ih =>
    rw [List.mapM_cons]
    exact (h b (.head _)).bind fun _ =>
      (ih fun b' hb' => h b' (.tail _ hb')).bind fun _ => keeps_pure

theorem keeps_foldlM {g : α → β → Effect σ ε α} {l : List β}
    (h : ∀ a, ∀ b ∈ l, (g a b).Keeps I) (a : α) : (l.foldlM g a).Keeps I := by
  induction l generalizing a with
  | nil => exact keeps_pure
  | cons b l ih =>
    rw [List.foldlM_cons]
    exact (h a b (.head _)).bind fun a' => ih (fun a b' hb' => h a b' (.tail _ hb')) a'

/-- A loop keeps a property of the state and what is left to do. -/
theorem foldlM_rest {I : List β → σ → Prop} {g : α → β → Effect σ ε α}
    (h : ∀ a b l s, I (b :: l) s → I l ((g a b).exec s).2) {l : List β} {a : α} {s : σ}
    (hs : I l s) : ∃ rest, I rest ((l.foldlM g a).exec s).2 := by
  induction l generalizing a s with
  | nil => exact ⟨[], hs⟩
  | cons b l ih =>
    have hstep := h a b l s hs
    rw [List.foldlM_cons, exec_bind]
    rcases hr : (g a b).exec s with ⟨_ | a', s'⟩ <;> rw [hr] at hstep
    · exact ⟨l, hstep⟩
    · exact ih hstep

end Keeps

/-! ## Clean failures -/

section CleanAt

variable {I : σ → Prop}

/-- The failures of a program from a state leave the property. -/
def CleanAt (I : σ → Prop) (prog : Effect σ ε α) (s : σ) : Prop :=
  ∀ e s', prog.exec s = (.error e, s') → I s'

theorem CleanAt.mapError {g : ε → ε'} (h : prog.CleanAt I s) : (prog.mapError g).CleanAt I s := by
  intro e s' herr
  change ((prog.exec s).1.mapError g, (prog.exec s).2) = _ at herr
  rcases hr : prog.exec s with ⟨e₀ | a, s₁⟩ <;> rw [hr] at herr <;> cases herr
  exact h e₀ s₁ hr

/-- After a half that keeps the property, only the failures of the other half count. -/
theorem cleanAt_bind (h : prog.Keeps I) (hs : I s) : (prog >>= f).CleanAt I s ↔
    ∀ a s₁, prog.exec s = (.ok a, s₁) → (f a).CleanAt I s₁ := by
  constructor
  · intro hclean a s₁ hok e s' herr
    exact hclean e s' (by rw [exec_bind_of_ok hok, herr])
  · intro hclean e s' herr
    rw [exec_bind] at herr
    split at herr
    · exact hclean _ _ (by assumption) e s' herr
    · rename_i he
      cases herr
      exact h.of_exec hs he

/-- After a step that takes the property away for good, no failure is clean. -/
theorem cleanAt_commit {J : σ → Prop} (hclean : prog.CleanAt I s)
    (hcommit : ∀ a s₁, prog.exec s = (.ok a, s₁) → J s₁) (hf : ∀ a, (f a).Keeps J)
    (hJ : ∀ s, J s → ¬ I s) : (prog >>= f).CleanAt I s ↔
      ∀ a s₁, prog.exec s = (.ok a, s₁) → (f a).Succeeds s₁ := by
  constructor
  · intro h a s₁ hok
    rcases hr : (f a).exec s₁ with ⟨e | b, s'⟩
    · have hkept := (hf a).of_exec (hcommit a s₁ hok) hr
      exact absurd (h e s' (by rw [exec_bind_of_ok hok, hr])) (hJ s' hkept)
    · exact ⟨b, by rw [hr]⟩
  · intro h e s' herr
    rw [exec_bind] at herr
    split at herr
    · rename_i a s₁ hok
      obtain ⟨b, hb⟩ := h a s₁ hok
      rw [herr] at hb
      cases hb
    · rename_i he
      cases herr
      exact hclean _ _ he

end CleanAt

end Effect

end TexasPoker
