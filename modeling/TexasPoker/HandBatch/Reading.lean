import TexasPoker.HandBatch.HandBatchStark
import TexasPoker.HandBatch.HostCheck

/-! # Reading a batch

The entries of a well-formed batch, whatever its scalars. The chain reads exactly these, and
the host those with canonical scalars.
-/

namespace TexasPoker.HandBatch

open Contracts Fallible

variable {G : Type} [AddCommGroup G] (C : StarkCurve G) (payload : List Felt)

def readPoint (i : ℕ) : Option G := do
  C.point (← payload[i]?, ← payload[i + 1]?)

def readOwnership (cursor : ℕ) : Option (HandBatchEquation G × ℕ) := do
  let pk ← readPoint C payload cursor
  let r ← readPoint C payload (cursor + 2)
  let s ← payload[cursor + 4]?
  return (.ownership s pk r, cursor + 5)

def readReveal (cursor : ℕ) : Option (HandBatchEquation G × ℕ) := do
  let pk ← readPoint C payload cursor
  let c1 ← readPoint C payload (cursor + 2)
  let c2 ← readPoint C payload (cursor + 4)
  let token ← readPoint C payload (cursor + 6)
  let t1 ← readPoint C payload (cursor + 8)
  let t2 ← readPoint C payload (cursor + 10)
  let nonce ← payload[cursor + 12]?
  let s ← payload[cursor + 13]?
  return (.reveal s pk c1 c2 token t1 t2 nonce, cursor + 14)

def readReconstruct (cursor : ℕ) : Option (HandBatchEquation G × ℕ) := do
  let g1 ← readPoint C payload cursor
  let g2 ← readPoint C payload (cursor + 2)
  let p1 ← readPoint C payload (cursor + 4)
  let p2 ← readPoint C payload (cursor + 6)
  let a ← readPoint C payload (cursor + 8)
  let b ← readPoint C payload (cursor + 10)
  let s ← payload[cursor + 12]?
  return (.reconstruct s g1 g2 p1 p2 a b, cursor + 13)

def readCard (base n i : ℕ) : Option (LeaveCardPts G) := do
  let inC1 ← readPoint C payload (base + 2 * i)
  let inC2 ← readPoint C payload (base + 2 * n + 2 * i)
  let outC1 ← readPoint C payload (base + 4 * n + 2 * i)
  let outC2 ← readPoint C payload (base + 6 * n + 2 * i)
  let a ← readPoint C payload (base + 8 * n + 2 * i)
  return { inC1, inC2, outC1, outC2, a }

def readLeave (cursor : ℕ) : Option (HandBatchEquation G × ℕ) := do
  let nCards := (← payload[cursor]?).1
  guard (cursor + 7 + 10 * nCards ≤ payload.length)
  let pk ← readPoint C payload (cursor + 1)
  let cpk ← readPoint C payload (cursor + 3)
  let nonce ← payload[cursor + 5]?
  let s ← payload[cursor + 6]?
  let cards ← (List.range nCards).mapM (readCard C payload (cursor + 7) nCards)
  return (.leave s pk cpk nonce cards, cursor + (7 + 10 * nCards))

/-- The equations of a well-formed batch without shuffle proofs. -/
def readBatch : Option (List (HandBatchEquation G)) := do
  let nOwn := (← payload[0]?).1
  let nReveal := (← payload[2]?).1
  let nLeave := (← payload[3]?).1
  let nRecon := (← payload[4]?).1
  guard (5 + 5 * nOwn + 14 * nReveal + 13 * nRecon ≤ payload.length)
  let (own, cursor) ← bucket (readOwnership C payload) nOwn 5
  let (reveal, cursor) ← bucket (readReveal C payload) nReveal cursor
  let (leave, cursor) ← bucket (readLeave C payload) nLeave cursor
  let (recon, _) ← bucket (readReconstruct C payload) nRecon cursor
  return own ++ reveal ++ leave ++ recon

variable {C payload} {i cursor n base : ℕ} {p : G} {xy : Felt × Felt}

section Bucket

variable {ε E R : Type} {read : ℕ → Option (E × ℕ)} {entry : ℕ → Except ε (R × ℕ)}
  {Q : E → Prop} {f : E → R}

end Bucket

/-! ## Where an entry ends -/

variable {e : HandBatchEquation G} {c : ℕ}

/-- An equation that is not a shuffle. -/
structure Plain (C : StarkCurve G) (e : HandBatchEquation G) : Prop where
  sound : e.sound = true
  points : ∀ c, e.points C c ≠ []

end TexasPoker.HandBatch
