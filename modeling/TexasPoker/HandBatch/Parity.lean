import TexasPoker.HandBatch.ChainReads
import TexasPoker.HandBatch.HostReads

/-! # When the host predicts the chain

Both sides fold the same points. They part on a scalar that is not canonical, which only the
host turns down, and on the coefficient of the fold: the chain passes over an identity without
raising the power, and hashes challenges that the host reduces first.
-/

namespace TexasPoker.HandBatch

open Contracts Fallible

variable {G : Type} [AddCommGroup G] [DecidableEq G] (C : StarkCurve G)
  (hash : List Felt → Felt) (handBinding : Felt)

/-- A batch as the chain receives it, whose length is a 32-bit value. -/
structure Batch where
  words : List Felt
  fits : words.length < u32Bound

/-- The points of a list of equations. -/
def equationPoints (es : List (HandBatchEquation G)) : List G :=
  es.flatMap fun e => (residuals C hash handBinding e).1

/-- A batch with canonical scalars in which an identity is followed by identities only; if two or
more points are no identity, the challenges are below the order of the curve too. -/
structure Tidy (b : Batch) : Prop where
  canonical : ∀ es ∈ readBatch C b.words, ∀ e ∈ es, e.Canonical C
  settled : ∀ es ∈ readBatch C b.words,
    ∀ p ∈ (equationPoints C hash handBinding es).dropWhile (· ≠ 0), p = 0
  reduced : ∀ es ∈ readBatch C b.words,
    ((equationPoints C hash handBinding es).filter (· ≠ 0)).length ≤ 1 ∨
      ∀ e ∈ es, (hash (e.transcript C handBinding)).1 < C.order

variable {C hash handBinding} {es : List (HandBatchEquation G)} {e : HandBatchEquation G}

/-! ## The same points -/

/-- A fold coefficient and challenges of two. -/
def two : List Felt → Felt := fun _ => 2

/-- The same endorsements with the identity at the end. -/
def settled : Batch := ⟨[3, 0, 0, 0, 0, 1, 0, 1, 0, 1, 1, 0, 1, 0, 4, 1, 0, 1, 0, 3], by decide⟩

end TexasPoker.HandBatch
