import Mathlib.Algebra.GroupWithZero.Nat
import Mathlib.Tactic.Common

/-! # Fallible computations

Guards and checked machine arithmetic in `Except`, with the equations that take an
accepted run apart: a bind succeeds exactly when both halves do, a guard when its
condition holds, a checked operation when the result is in range.
-/

namespace TexasPoker.Fallible

universe u

variable {ε : Type u} {α β : Type}

/-- Continue when `p` holds, fail with `e` otherwise. -/
def ensure (p : Prop) [Decidable p] (e : ε) : Except ε Unit :=
  if p then .ok () else .error e

/-- The value of an option, or the error `e`. -/
def orErr (o : Option α) (e : ε) : Except ε α :=
  match o with
  | some a => .ok a
  | none => .error e

/-- The largest 64-bit value. -/
def u64Max : ℕ := 18446744073709551615

/-- The largest 32-bit value. -/
def u32Max : ℕ := 4294967295

/-- Addition of unsigned 64-bit values, failing on overflow. -/
def checkedAdd (a b : ℕ) (e : ε) : Except ε ℕ :=
  if a + b ≤ u64Max then .ok (a + b) else .error e

/-- Subtraction of unsigned values, failing on underflow. -/
def checkedSub (a b : ℕ) (e : ε) : Except ε ℕ :=
  if b ≤ a then .ok (a - b) else .error e

/-- The sum of a list of unsigned 64-bit values, failing at the first overflow. -/
def checkedSum (l : List ℕ) (e : ε) : Except ε ℕ :=
  l.foldlM (fun acc a => checkedAdd acc a e) 0

@[simp] theorem ensure_eq_ok {p : Prop} [Decidable p] {e : ε} {u : Unit} :
    ensure p e = .ok u ↔ p := by
  unfold ensure
  split <;> simp_all

@[simp] theorem ensure_eq_error {p : Prop} [Decidable p] {e e' : ε} :
    ensure p e = .error e' ↔ ¬ p ∧ e = e' := by
  unfold ensure
  split <;> simp_all

theorem ensure_pos {p : Prop} [Decidable p] {e : ε} (h : p) : ensure p e = .ok () :=
  ensure_eq_ok.mpr h

@[simp] theorem orErr_eq_ok {o : Option α} {e : ε} {a : α} :
    orErr o e = .ok a ↔ o = some a := by
  cases o <;> simp [orErr]

@[simp] theorem orErr_some {a : α} {e : ε} : orErr (some a) e = .ok a := rfl

@[simp] theorem checkedAdd_eq_ok {a b c : ℕ} {e : ε} :
    checkedAdd a b e = .ok c ↔ a + b ≤ u64Max ∧ c = a + b := by
  unfold checkedAdd
  split
  · simp_all [eq_comm]
  · simp only [reduceCtorEq, false_iff]
    omega

@[simp] theorem checkedSub_eq_ok {a b c : ℕ} {e : ε} :
    checkedSub a b e = .ok c ↔ b ≤ a ∧ c = a - b := by
  unfold checkedSub
  split
  · simp_all [eq_comm]
  · simp only [reduceCtorEq, false_iff]
    omega

@[simp] theorem bind_eq_ok {x : Except ε α} {f : α → Except ε β} {b : β} :
    (x >>= f) = .ok b ↔ ∃ a, x = .ok a ∧ f a = .ok b := by
  cases x <;> simp [bind, Except.bind]

@[simp] theorem pure_eq_ok {a b : α} : (pure a : Except ε α) = .ok b ↔ a = b := by
  simp [pure, Except.pure]

@[simp] theorem throw_ne_ok {e : ε} {a : α} : (throw e : Except ε α) ≠ .ok a := nofun

theorem pure_ne_error {e : ε} {a : α} : (pure a : Except ε α) ≠ .error e := nofun

@[simp] theorem ok_bind {a : α} {f : α → Except ε β} : ((.ok a : Except ε α) >>= f) = f a := rfl

@[simp] theorem error_bind {e : ε} {f : α → Except ε β} :
    ((.error e : Except ε α) >>= f) = .error e := rfl

/-- A computation fails exactly when it does not succeed. -/
theorem exists_error_iff {x : Except ε α} : (∃ e, x = .error e) ↔ ∀ a, x ≠ .ok a := by
  cases x <;> simp

/-- A bind does not fail with an error that neither half fails with. -/
theorem bind_ne_error {x : Except ε α} {f : α → Except ε β} {e : ε} (hx : x ≠ .error e)
    (hf : ∀ a, f a ≠ .error e) : (x >>= f) ≠ .error e := by
  cases x with
  | error e' => simpa using hx
  | ok a => exact hf a

theorem ensure_ne_error {p : Prop} [Decidable p] {e e' : ε} (h : e' ≠ e) :
    ensure p e' ≠ .error e := fun hp => h (ensure_eq_error.mp hp).2

theorem foldlM_ne_error {σ : Type} {f : σ → α → Except ε σ} {l : List α} {s : σ} {e : ε}
    (step : ∀ s a, f s a ≠ .error e) : l.foldlM f s ≠ .error e := by
  induction l generalizing s with
  | nil => exact nofun
  | cons a l ih =>
    rw [List.foldlM_cons]
    exact bind_ne_error (step s a) fun _ => ih

theorem mapM_ne_error {f : α → Except ε β} {l : List α} {e : ε} (step : ∀ a, f a ≠ .error e) :
    l.mapM f ≠ .error e := by
  induction l with
  | nil => exact nofun
  | cons a l ih =>
    rw [List.mapM_cons]
    exact bind_ne_error (step a) fun _ => bind_ne_error ih fun _ => nofun

theorem mapM_eq_some_map {f : α → Option β} {g : α → β} {l : List α}
    (h : ∀ a ∈ l, f a = some (g a)) : l.mapM f = some (l.map g) := by
  induction l with
  | nil => rfl
  | cons a l ih =>
    rw [List.forall_mem_cons] at h
    rw [List.mapM_cons, h.1, ih h.2]
    rfl

/-- A result that passes a check. -/
def holds (r : Except ε α) (p : α → Bool) : Bool := r.toOption.any p

theorem holds_iff {r : Except ε α} {p : α → Bool} :
    holds r p = true ↔ ∃ a, r = .ok a ∧ p a = true := by
  cases r with
  | error e => simp [holds, Except.toOption]
  | ok a => simp [holds, Except.toOption]

theorem toOption_eq_some {r : Except ε α} {a : α} : r.toOption = some a ↔ r = .ok a := by
  cases r <;> simp [Except.toOption]

/-- The error of a failed computation. -/
def failure (r : Except ε α) : Option ε :=
  match r with
  | .error e => some e
  | .ok _ => none

theorem failure_eq_some {r : Except ε α} {e : ε} : failure r = some e ↔ r = .error e := by
  cases r <;> simp [failure]

theorem isOk_iff {x : Except ε α} : x.isOk = true ↔ ∃ a, x = .ok a := by
  cases x <;> simp [Except.isOk, Except.toBool]

/-- A property kept by every successful step is kept by a successful fold. -/
theorem foldlM_keeps {σ : Type} {P : σ → Prop} {f : σ → α → Except ε σ} {l : List α} {s s' : σ}
    (step : ∀ a ∈ l, ∀ s s', f s a = .ok s' → P s → P s')
    (h : l.foldlM f s = .ok s') (hs : P s) : P s' := by
  induction l generalizing s with
  | nil =>
    obtain rfl : s = s' := by simpa using h
    exact hs
  | cons a l ih =>
    rw [List.foldlM_cons, bind_eq_ok] at h
    obtain ⟨t, ht, h⟩ := h
    exact ih (fun b hb => step b (List.mem_cons_of_mem a hb)) h
      (step a List.mem_cons_self s t ht hs)

/-- A fold accepts what a fold with stricter steps accepts. -/
theorem foldlM_imp {σ : Type} {f g : σ → α → Except ε σ} {l : List α} {s s' : σ}
    (step : ∀ a ∈ l, ∀ s s', f s a = .ok s' → g s a = .ok s') (h : l.foldlM f s = .ok s') :
    l.foldlM g s = .ok s' := by
  induction l generalizing s with
  | nil => exact h
  | cons a l ih =>
    rw [List.foldlM_cons, bind_eq_ok] at h ⊢
    obtain ⟨t, ht, h⟩ := h
    exact ⟨t, step a List.mem_cons_self s t ht, ih (fun b hb => step b (List.mem_cons_of_mem a hb)) h⟩

/-- A fold whose steps each accept one value collects these values. -/
theorem foldlM_eq_ok_iff {σ : Type} {Q : α → β → Prop} {g : σ → β → σ} {f : σ → α → Except ε σ}
    {l : List α} {s s' : σ} (step : ∀ s a s', f s a = .ok s' ↔ ∃ b, Q a b ∧ s' = g s b) :
    l.foldlM f s = .ok s' ↔ ∃ bs, List.Forall₂ Q l bs ∧ s' = bs.foldl g s := by
  induction l generalizing s with
  | nil =>
    rw [List.foldlM_nil, pure_eq_ok]
    constructor
    · rintro rfl
      exact ⟨[], .nil, rfl⟩
    · rintro ⟨_, ⟨⟩, rfl⟩
      rfl
  | cons a l ih =>
    simp only [List.foldlM_cons, bind_eq_ok, step, ih]
    constructor
    · rintro ⟨_, ⟨b, hb, rfl⟩, bs, hbs, rfl⟩
      exact ⟨b :: bs, .cons hb hbs, rfl⟩
    · rintro ⟨_, hbs, rfl⟩
      cases hbs with
      | cons hb hbs => exact ⟨_, ⟨_, hb, rfl⟩, _, hbs, rfl⟩

/-- Collecting lists: every part is accepted, and the parts are appended in order. -/
theorem foldlM_append_eq_ok {β : Type} {f : α → Except ε (List β)} {l : List α}
    {acc out : List β} (h : l.foldlM (fun acc a => do return acc ++ (← f a)) acc = .ok out) :
    ∃ parts, List.Forall₂ (fun a part => f a = .ok part) l parts ∧ out = acc ++ parts.flatten := by
  induction l generalizing acc with
  | nil =>
    cases h
    exact ⟨[], .nil, by simp⟩
  | cons a l ih =>
    rw [List.foldlM_cons, bind_eq_ok] at h
    obtain ⟨mid, hmid, h⟩ := h
    obtain ⟨part, hpart, hmid⟩ := bind_eq_ok.mp hmid
    cases hmid
    obtain ⟨parts, hparts, rfl⟩ := ih h
    exact ⟨part :: parts, .cons hpart hparts, by simp⟩

/-- A checked fold whose steps all pass computes the unchecked one, and keeps its invariant. -/
theorem foldlM_eq_some {σ : Type} {P : σ → Prop} {f : σ → α → σ} {g : σ → α → Option σ}
    {l : List α} {s : σ} (step : ∀ a ∈ l, ∀ s, P s → g s a = some (f s a) ∧ P (f s a)) (hs : P s) :
    l.foldlM g s = some (l.foldl f s) ∧ P (l.foldl f s) := by
  induction l generalizing s with
  | nil => exact ⟨rfl, hs⟩
  | cons a l ih =>
    obtain ⟨ha, hf⟩ := step a List.mem_cons_self s hs
    rw [List.foldlM_cons, List.foldl_cons, ha]
    exact ih (fun b hb => step b (List.mem_cons_of_mem a hb)) hf

/-- What every successful step says holds of every entry of a successful fold. -/
theorem forall_of_foldlM {σ : Type} {Q : α → Prop} {f : σ → α → Except ε σ} {l : List α}
    {s s' : σ} (step : ∀ a ∈ l, ∀ s s', f s a = .ok s' → Q a) (h : l.foldlM f s = .ok s') :
    ∀ a ∈ l, Q a := by
  induction l generalizing s with
  | nil => simp
  | cons a l ih =>
    rw [List.foldlM_cons, bind_eq_ok] at h
    obtain ⟨t, ht, h⟩ := h
    rw [List.forall_mem_cons]
    exact ⟨step a List.mem_cons_self s t ht,
      ih (fun b hb => step b (List.mem_cons_of_mem a hb)) h⟩

@[simp] theorem forM_eq_ok {l : List α} {f : α → Except ε Unit} {u : Unit} :
    l.forM f = .ok u ↔ ∀ a ∈ l, f a = .ok () := by
  induction l with
  | nil => simp [List.forM]
  | cons a l ih =>
    rw [List.forall_mem_cons, ← ih]
    change (f a >>= fun _ => l.forM f) = _ ↔ _
    rw [bind_eq_ok]
    exact ⟨fun ⟨_, ha, h⟩ => ⟨ha, h⟩, fun ⟨ha, h⟩ => ⟨(), ha, h⟩⟩

@[simp] theorem mapError_eq_ok {ε' : Type u} {x : Except ε α} {f : ε → ε'} {a : α} :
    x.mapError f = .ok a ↔ x = .ok a := by
  cases x <;> simp [Except.mapError]

theorem foldlM_checkedAdd_eq_ok {l : List ℕ} {e : ε} {a c : ℕ} (ha : a ≤ u64Max) :
    l.foldlM (fun acc a => checkedAdd acc a e) a = .ok c ↔
      a + l.sum ≤ u64Max ∧ c = a + l.sum := by
  induction l generalizing a with
  | nil =>
    rw [List.foldlM_nil, pure_eq_ok, List.sum_nil]
    omega
  | cons b l ih =>
    rw [List.foldlM_cons, bind_eq_ok, List.sum_cons]
    constructor
    · rintro ⟨d, hd, h⟩
      obtain ⟨hab, rfl⟩ := checkedAdd_eq_ok.mp hd
      rw [ih hab] at h
      omega
    · rintro ⟨h, rfl⟩
      have hab : a + b ≤ u64Max := by omega
      refine ⟨a + b, checkedAdd_eq_ok.mpr ⟨hab, rfl⟩, (ih hab).mpr ?_⟩
      omega

@[simp] theorem checkedSum_eq_ok {l : List ℕ} {e : ε} {c : ℕ} :
    checkedSum l e = .ok c ↔ l.sum ≤ u64Max ∧ c = l.sum := by
  simp [checkedSum, foldlM_checkedAdd_eq_ok (Nat.zero_le _)]

end TexasPoker.Fallible
