import Mathlib.Algebra.Group.Nat.Even
import Mathlib.Data.Nat.Prime.Basic
import Mathlib.Data.ZMod.Basic
import TexasPoker.Contracts.Cairo

/-! # The curve and the words of a hand batch

The group both verifiers compute in, the transcript words, and the loop that reads one
bucket of a batch.
-/

namespace TexasPoker.HandBatch

open Contracts Fallible

/-- A group of prime order whose elements other than the identity have affine coordinates. -/
structure StarkCurve (G : Type) [AddCommGroup G] where
  order : ℕ
  prime : order.Prime
  order_lt : order < feltPrime
  order_nsmul : ∀ p : G, order • p = 0
  base : G
  point : Felt × Felt → Option G
  coords : G → Felt × Felt
  point_ne_zero : ∀ {xy p}, point xy = some p → p ≠ 0
  coords_of_point : ∀ {xy p}, point xy = some p → coords p = xy

/-- Why a run over a batch ends early: the batch is turned down, or the program fails. -/
inductive Stop where
  | reject
  | panic (message : String)
  deriving DecidableEq

/-- What an equation contributes to the coefficient of the fold. -/
structure EquationWords where
  kind : Felt
  s : Felt
  c : Felt
  deriving DecidableEq

def handProtoLabel : Felt := natFelt 0x706f6b65722f68616e642d62617463682f70726f746f

def handV1Label : Felt := natFelt 0x706f6b65722f68616e642d62617463682f7631

def handRevealLabel : Felt := natFelt 0x706f6b65722f72657665616c2d746f6b656e2f666f6c642d7631

def handLeaveLabel : Felt := natFelt 0x706f6b65722f6c656176652d666f6c642f7631

def handReconLabel : Felt := natFelt 0x706f6b65722f7265636f6e7374727563742d666f6c642f7631

/-- The coordinates of a point as transcript words. -/
def pair (xy : Felt × Felt) : List Felt := [xy.1, xy.2]

/-- The transcript of the fold coefficient. -/
def rhoWords (handBinding : Felt) (equations : List EquationWords) : List Felt :=
  [handV1Label, handBinding, natFelt equations.length] ++
    equations.flatMap fun e => [e.kind, e.s, e.c]

/-- Read `n` entries of a bucket one after the other. -/
def bucket {m : Type → Type} [Monad m] {α : Type} (entry : ℕ → m (α × ℕ)) :
    ℕ → ℕ → m (List α × ℕ)
  | 0, cursor => pure ([], cursor)
  | n + 1, cursor => do
    let (e, cursor) ← entry cursor
    let (es, cursor) ← bucket entry n cursor
    return (e :: es, cursor)

/-- A word of a batch; an index past its end fails. -/
def word (payload : List Felt) (i : ℕ) : Except Stop Felt :=
  orErr payload[i]? (.panic "index out of bounds")

/-! ## A small curve -/

/-- The integers modulo five with the residue as the first coordinate. -/
def smallCurve : StarkCurve (ZMod 5) where
  order := 5
  prime := by decide
  order_lt := by decide
  order_nsmul := by decide
  base := 1
  point xy := if xy.2 = 0 ∧ 0 < xy.1.1 ∧ xy.1.1 < 5 then some xy.1.1 else none
  coords p := (natFelt p.val, 0)
  point_ne_zero := by
    rintro ⟨x, y⟩ p h
    simp only [Option.ite_none_right_eq_some, Option.some_inj] at h
    obtain ⟨⟨-, hpos, hlt⟩, rfl⟩ := h
    intro hz
    have hdvd := (ZMod.natCast_eq_zero_iff _ _).mp hz
    exact absurd (Nat.le_of_dvd hpos hdvd) (by omega)
  coords_of_point := by
    rintro ⟨x, y⟩ p h
    simp only [Option.ite_none_right_eq_some, Option.some_inj] at h
    obtain ⟨⟨rfl, -, hlt⟩, rfl⟩ := h
    refine Prod.ext (Fin.ext ?_) rfl
    rw [natFelt_val, ZMod.val_natCast, Nat.mod_eq_of_lt hlt, Nat.mod_eq_of_lt x.2]

end TexasPoker.HandBatch
