import TexasPoker.HandBatch.Reading

/-! # What the host reads

The host parses exactly the well-formed batches whose scalars are all canonical.
-/

namespace TexasPoker.HandBatch

open Contracts Fallible

variable {G : Type} [AddCommGroup G] {C : StarkCurve G} {payload : List Felt}

/-- The scalars of an equation are below the order of the curve. -/
def HandBatchEquation.Canonical (C : StarkCurve G) : HandBatchEquation G → Prop
  | .ownership s _ _ => s.1 < C.order
  | .reveal s _ _ _ _ _ _ nonce => nonce.1 < C.order ∧ s.1 < C.order
  | .leave s _ _ nonce _ => nonce.1 < C.order ∧ s.1 < C.order
  | .reconstruct s _ _ _ _ _ _ => s.1 < C.order
  | .shuffle .. => True

variable {cursor c n base i : ℕ} {e : HandBatchEquation G}

end TexasPoker.HandBatch
