import TexasPoker.Lib.Fallible

/-! # Postconditions

What every accepted outcome of a fallible computation satisfies, with one rule for each way
to build a computation.
-/

namespace TexasPoker.Fallible

variable {ε : Type} {α β : Type}

/-- An accepted outcome satisfies `P`. -/
def Yields (x : Except ε α) (P : α → Prop) : Prop := ∀ a, x = .ok a → P a

namespace Yields

variable {x y : Except ε α} {f : α → Except ε β} {P Q : α → Prop} {R : β → Prop}

theorem ok {a : α} (h : P a) : Yields (.ok a : Except ε α) P := by
  rintro _ ⟨⟩
  exact h

theorem error (e : ε) : Yields (.error e : Except ε α) P := by
  rintro _ ⟨⟩

theorem imp (h : Yields x P) (hi : ∀ a, P a → Q a) : Yields x Q := fun a ha => hi a (h a ha)

theorem bind (hx : Yields x Q) (hf : ∀ a, Q a → Yields (f a) R) : Yields (x >>= f) R := by
  intro b hb
  obtain ⟨a, ha, hb⟩ := bind_eq_ok.mp hb
  exact hf a (hx a ha) b hb

/-- The first computation matters only through its outcome. -/
theorem next (hf : ∀ a, Yields (f a) R) : Yields (x >>= f) R :=
  bind (Q := fun _ => True) (fun _ _ => trivial) fun a _ => hf a

theorem ite {c : Prop} [Decidable c] (hx : c → Yields x P) (hy : ¬ c → Yields y P) :
    Yields (if c then x else y) P := by
  split
  · exact hx ‹_›
  · exact hy ‹_›

theorem foldlM {σ : Type} {S : σ → Prop} {f : σ → α → Except ε σ} {l : List α} {s : σ}
    (step : ∀ a ∈ l, ∀ s, S s → Yields (f s a) S) (hs : S s) : Yields (l.foldlM f s) S :=
  fun _ h => foldlM_keeps (fun a ha s s' hf hS => step a ha s hS s' hf) h hs

end Yields

end TexasPoker.Fallible
