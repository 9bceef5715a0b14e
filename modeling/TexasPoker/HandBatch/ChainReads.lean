import TexasPoker.HandBatch.Reading

/-! # What the chain reads

The verifier of the chain takes exactly the well-formed batches apart, and its points and
words are those of the equations under unreduced challenges.
-/

namespace TexasPoker.HandBatch

open Contracts Fallible

variable {G : Type} [AddCommGroup G] [DecidableEq G] {C : StarkCurve G}
  {hash : List Felt → Felt} {handBinding : Felt} {payload : List Felt}

/-- The points and words of an equation under its unreduced challenge. -/
def residuals (C : StarkCurve G) (hash : List Felt → Felt) (handBinding : Felt)
    (e : HandBatchEquation G) : Residuals G :=
  let c := hash (e.transcript C handBinding)
  (e.points C c, e.words c)

variable {cursor c i : ℕ} {p q : G} {r : Residuals G}

variable {base n : ℕ}

end TexasPoker.HandBatch
