import Mathlib.Algebra.BigOperators.Group.List.Basic
import TexasPoker.Lib.Codec

/-! # Sizes of encodings

Which values a codec takes, and in how many bytes; one rule for each combinator.
-/

namespace TexasPoker

variable {α β : Type}

namespace Codec

/-- The value is encoded, in so many bytes. -/
def Writes (c : Codec α) (a : α) (n : ℕ) : Prop := ∃ bytes, c.encode a = .ok bytes ∧ bytes.length = n

variable {c : Codec α} {d : Codec β} {a : α} {b : β} {n m : ℕ}

theorem writes_uint (width : ℕ) {value : ℕ} (h : value < 256 ^ width) :
    (uint width).Writes value width :=
  ⟨_, if_pos h, length_leBytes _ _⟩

theorem writes_bytes {bytes : Bytes} (h : bytes.length = n) : (Codec.bytes n).Writes bytes n :=
  ⟨_, if_pos h, h⟩

theorem Writes.via {get : α → Except String β} {put : β → Except String α}
    {get_iff : ∀ a b, get a = .ok b ↔ put b = .ok a} (h : c.Writes a n) (hput : put b = .ok a) :
    (c.via get put get_iff).Writes b n := by
  obtain ⟨bytes, henc, hlen⟩ := h
  exact ⟨bytes, Fallible.bind_eq_ok.mpr ⟨a, hput, henc⟩, hlen⟩

theorem Writes.pair (h : c.Writes a n) (h' : d.Writes b m) : (c.pair d).Writes (a, b) (n + m) := by
  obtain ⟨first, hc, rfl⟩ := h
  obtain ⟨second, hd, rfl⟩ := h'
  exact ⟨first ++ second, pair_encode_eq_ok.mpr ⟨first, second, hc, hd, rfl⟩, List.length_append⟩

theorem writes_encodeAll {l : List α} {size : α → ℕ} (h : ∀ a ∈ l, c.Writes a (size a)) :
    ∃ bytes, c.encodeAll l = .ok bytes ∧ bytes.length = (l.map size).sum := by
  induction l with
  | nil => exact ⟨[], rfl, rfl⟩
  | cons a l ih =>
    obtain ⟨ha, hl⟩ := List.forall_mem_cons.mp h
    obtain ⟨first, hc, hfirst⟩ := ha
    obtain ⟨second, henc, hsecond⟩ := ih hl
    refine ⟨first ++ second, ?_, ?_⟩
    · rw [encodeAll, hc, henc]
      rfl
    · rw [List.length_append, hfirst, hsecond, List.map_cons, List.sum_cons]

theorem Writes.vec (size : α → ℕ) {l : List α} (hlen : l.length < 256 ^ 4)
    (h : ∀ a ∈ l, c.Writes a (size a)) : c.vec.Writes l (4 + (l.map size).sum) := by
  obtain ⟨count, hcount, hn⟩ := writes_uint 4 hlen
  obtain ⟨body, hbody, hsum⟩ := writes_encodeAll h
  refine ⟨count ++ body, ?_, by rw [List.length_append, hn, hsum]⟩
  exact Fallible.bind_eq_ok.mpr ⟨count, hcount, Fallible.bind_eq_ok.mpr ⟨body, hbody, rfl⟩⟩

theorem Writes.array {f : Fin n → α} (h : ∀ i, ∃ m, c.Writes (f i) m) :
    ∃ m, (c.array n).Writes f m := by
  have hall : ∃ bytes, c.encodeAll (List.ofFn f) = .ok bytes := by
    induction n with
    | zero => exact ⟨[], rfl⟩
    | succ n ih =>
      obtain ⟨m, first, hc, -⟩ := h 0
      obtain ⟨second, hrest⟩ := ih fun i => h i.succ
      refine ⟨first ++ second, ?_⟩
      rw [List.ofFn_succ, encodeAll, hc, hrest]
      rfl
  obtain ⟨bytes, henc⟩ := hall
  exact ⟨bytes.length, bytes, henc, rfl⟩

theorem Writes.option {o : Option α} (h : ∀ a ∈ o, ∃ n, c.Writes a n) : ∃ n, c.option.Writes o n := by
  cases o with
  | none => exact ⟨_, _, rfl, rfl⟩
  | some a =>
    obtain ⟨n, body, hbody, rfl⟩ := h a rfl
    exact ⟨_, leBytes 1 1 ++ body, Fallible.bind_eq_ok.mpr ⟨body, hbody, rfl⟩, rfl⟩

end Codec

namespace TaggedCodec

/-- The payload of the value is encoded, in so many bytes. -/
def Writes (c : TaggedCodec α) (a : α) (n : ℕ) : Prop :=
  ∃ bytes, c.payload a = .ok bytes ∧ bytes.length = n

theorem Writes.codec {c : TaggedCodec α} {a : α} {n : ℕ} (h : c.Writes a n) :
    c.codec.Writes a (1 + n) := by
  obtain ⟨body, hbody, rfl⟩ := h
  refine ⟨leBytes 1 (c.tagOf a) ++ body, Fallible.bind_eq_ok.mpr ⟨body, hbody, rfl⟩, ?_⟩
  rw [List.length_append, length_leBytes]

end TaggedCodec

end TexasPoker
