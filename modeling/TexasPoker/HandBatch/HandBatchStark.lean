import TexasPoker.HandBatch.Curve
import TexasPoker.Lib.Horner

/-! # The verifier of the chain

The contract walks the buckets of a batch, turns every entry into points that vanish for an
honest proof, and folds them with one coefficient.
-/

namespace TexasPoker.HandBatch

open Contracts Fallible

variable {G : Type} [AddCommGroup G] [DecidableEq G] (C : StarkCurve G)
  (hash : List Felt → Felt) (handBinding : Felt)

/-- A point other than the identity. -/
def nonZero (p : G) : Option G := if p = 0 then none else some p

/-- Arithmetic of 32-bit values. -/
def u32 (n : ℕ) : Except Stop ℕ := if n < u32Bound then .ok n else .error (.panic "u32 Overflow")

/-- Two neighbouring words. -/
def pairAt (payload : List Felt) (i : ℕ) : Except Stop (Felt × Felt) := do
  return (← word payload i, ← word payload (i + 1))

/-- The points and the transcript words of one entry. -/
abbrev Residuals (G : Type) := List G × EquationWords

/-- `s·G − c·pk − R` under the challenge of the endorsement. -/
def ownershipEquation (pk bigR : Felt × Felt) (s : Felt) : Option (G × EquationWords) := do
  let pkPoint ← C.point pk
  let rPoint ← C.point bigR
  let c := hash ([handProtoLabel, handBinding] ++ pair (C.coords C.base) ++ pair pk ++ pair bigR)
  let pkNeg ← nonZero (-pkPoint)
  let rNeg ← nonZero (-rPoint)
  return (s.1 • C.base + c.1 • pkNeg + rNeg, ⟨1, s, c⟩)

/-- `s·G − t1 − c·pk` and `s·c1 − t2 − c·token`. -/
def revealEquations (pk c1 c2 token t1 t2 : Felt × Felt) (nonce s : Felt) :
    Option (Residuals G) := do
  let pkP ← C.point pk
  let c1P ← C.point c1
  let c2P ← C.point c2
  let tokP ← C.point token
  let t1P ← C.point t1
  let t2P ← C.point t2
  let _ ← nonZero c2P
  let _ ← nonZero tokP
  let c := hash ([handRevealLabel, handBinding] ++ pair pk ++ pair c1 ++ pair c2 ++ pair token ++
    pair t1 ++ pair t2 ++ [nonce])
  let pkNeg ← nonZero (-pkP)
  let t1Neg ← nonZero (-t1P)
  let c1Nz ← nonZero c1P
  let tokNeg ← nonZero (-tokP)
  let t2Neg ← nonZero (-t2P)
  return ([s.1 • C.base + c.1 • pkNeg + t1Neg, s.1 • c1Nz + c.1 • tokNeg + t2Neg], ⟨2, s, c⟩)

/-- `s·g1 − A − c·p1` and `s·g2 − B − c·p2`. -/
def reconstructEquations (g1 g2 p1 p2 a b : Felt × Felt) (s : Felt) : Option (Residuals G) := do
  let g1P ← C.point g1
  let g2P ← C.point g2
  let p1P ← C.point p1
  let p2P ← C.point p2
  let aP ← C.point a
  let bP ← C.point b
  let c := hash ([handReconLabel, handBinding] ++ pair g1 ++ pair g2 ++ pair p1 ++ pair p2 ++
    pair a ++ pair b)
  let g1Nz ← nonZero g1P
  let g2Nz ← nonZero g2P
  let p1Neg ← nonZero (-p1P)
  let p2Neg ← nonZero (-p2P)
  let aNeg ← nonZero (-aP)
  let bNeg ← nonZero (-bP)
  return ([s.1 • g1Nz + c.1 • p1Neg + aNeg, s.1 • g2Nz + c.1 • p2Neg + bNeg], ⟨4, s, c⟩)

/-! ## Leaving the deck -/

/-- The coordinates of a point, zeros for the identity. -/
def coordsOrZero (p : G) : Felt × Felt := if p = 0 then (0, 0) else C.coords p

/-- The transcript words of a card and the layer that is taken off it. -/
def leaveCardWords (inC1 inC2 outC1 outC2 a : List Felt) (i : ℕ) : Except Stop (List Felt × G) := do
  let inC1 ← pairAt inC1 (2 * i)
  let inC2 ← pairAt inC2 (2 * i)
  let outC1 ← pairAt outC1 (2 * i)
  let outC2 ← pairAt outC2 (2 * i)
  let a ← pairAt a (2 * i)
  let _ ← orErr (C.point inC1) .reject
  let inC2P ← orErr (C.point inC2) .reject
  let _ ← orErr (C.point outC1) .reject
  let outC2P ← orErr (C.point outC2) .reject
  let _ ← orErr (C.point a) .reject
  let d2 := inC2P - outC2P
  return (pair inC1 ++ pair inC2 ++ pair outC1 ++ pair outC2 ++ pair a ++ pair (coordsOrZero C d2), d2)

/-- `s·in_c1 − a − c·d2`; a card that stays as it is has no last term. -/
def leaveCardEquation (s c : Felt) (inC1 a : List Felt) (d2 : G) (i : ℕ) : Except Stop G := do
  let inC1P ← orErr (C.point (← pairAt inC1 (2 * i))) (.panic "Option::unwrap failed.")
  let aP ← orErr (C.point (← pairAt a (2 * i))) (.panic "Option::unwrap failed.")
  let inC1Nz ← orErr (nonZero inC1P) .reject
  let aNeg ← orErr (nonZero (-aP)) .reject
  let state := s.1 • inC1Nz + aNeg
  return if -d2 = 0 then state else state + c.1 • (-d2)

/-- `s·G − cpk − c·pk` and one point per card. -/
def leaveEquations (pk cpk : Felt × Felt) (nonce s : Felt) (inC1 inC2 outC1 outC2 a : List Felt) :
    Except Stop (Residuals G) := do
  let n := inC1.length / 2
  ensure (inC2.length = 2 * n ∧ outC1.length = 2 * n ∧ outC2.length = 2 * n ∧ a.length = 2 * n)
    .reject
  let pkP ← orErr (C.point pk) .reject
  let cpkP ← orErr (C.point cpk) .reject
  let cards ← (List.range n).mapM (leaveCardWords C inC1 inC2 outC1 outC2 a)
  let c := hash ([handLeaveLabel, handBinding] ++ pair pk ++ pair cpk ++ [nonce, natFelt n] ++
    (cards.map Prod.fst).flatten)
  let pkNeg ← orErr (nonZero (-pkP)) .reject
  let cpkNeg ← orErr (nonZero (-cpkP)) .reject
  let eqs ← (cards.map Prod.snd).zipIdx.mapM fun e => leaveCardEquation C s c inC1 a e.1 e.2
  let eq0 := s.1 • C.base + cpkNeg + c.1 • pkNeg
  return (eq0 :: eqs, ⟨3, s, c⟩)

/-! ## Folding -/

def handRho (equations : List EquationWords) : Felt := hash (rhoWords handBinding equations)

/-- Fold from the last point on; a point that is the identity is passed over. -/
def foldAndCheck (equations : List G) (words : List EquationWords) : Bool :=
  match equations.getLast? with
  | none => false
  | some last =>
    let rho := handRho hash handBinding words
    equations.dropLast.foldr (skipStep rho.1) last = 0

/-! ## Buckets -/

variable (payload : List Felt)

def ownershipEntry (cursor : ℕ) : Except Stop (Residuals G × ℕ) := do
  let s ← word payload (cursor + 4)
  let pk ← pairAt payload cursor
  let r ← pairAt payload (cursor + 2)
  let (eq, w) ← orErr (ownershipEquation C hash handBinding pk r s) .reject
  return (([eq], w), cursor + 5)

def revealEntry (cursor : ℕ) : Except Stop (Residuals G × ℕ) := do
  let pk ← pairAt payload cursor
  let c1 ← pairAt payload (cursor + 2)
  let c2 ← pairAt payload (cursor + 4)
  let token ← pairAt payload (cursor + 6)
  let t1 ← pairAt payload (cursor + 8)
  let t2 ← pairAt payload (cursor + 10)
  let nonce ← word payload (cursor + 12)
  let s ← word payload (cursor + 13)
  let r ← orErr (revealEquations C hash handBinding pk c1 c2 token t1 t2 nonce s) .reject
  return (r, cursor + 14)

/-- The part of a batch from an index on. -/
def slice (start length : ℕ) : List Felt := (payload.drop start).take length

def leaveEntry (cursor : ℕ) : Except Stop (Residuals G × ℕ) := do
  let nCards := (← word payload cursor).1
  ensure (nCards < u32Bound) .reject
  let stop ← u32 (cursor + 7 + 10 * nCards)
  ensure (stop ≤ payload.length) .reject
  let pk ← pairAt payload (cursor + 1)
  let cpk ← pairAt payload (cursor + 3)
  let nonce ← word payload (cursor + 5)
  let s ← word payload (cursor + 6)
  let base := cursor + 7
  let r ← leaveEquations C hash handBinding pk cpk nonce s (slice payload base (2 * nCards))
    (slice payload (base + 2 * nCards) (2 * nCards)) (slice payload (base + 4 * nCards) (2 * nCards))
    (slice payload (base + 6 * nCards) (2 * nCards)) (slice payload (base + 8 * nCards) (2 * nCards))
  return (r, cursor + (7 + 10 * nCards))

def reconEntry (cursor : ℕ) : Except Stop (Residuals G × ℕ) := do
  let g1 ← pairAt payload cursor
  let g2 ← pairAt payload (cursor + 2)
  let p1 ← pairAt payload (cursor + 4)
  let p2 ← pairAt payload (cursor + 6)
  let a ← pairAt payload (cursor + 8)
  let b ← pairAt payload (cursor + 10)
  let s ← word payload (cursor + 12)
  let r ← orErr (reconstructEquations C hash handBinding g1 g2 p1 p2 a b s) .reject
  return (r, cursor + 13)

/-- A bucket count of the header, which has 32 bits. -/
def count (i : ℕ) : Except Stop ℕ := do
  let n := (← word payload i).1
  ensure (n < u32Bound) .reject
  return n

/-- The equations of a batch; a shuffle proof is never accepted here. -/
def batchResiduals : Except Stop (List (Residuals G)) := do
  ensure (5 ≤ payload.length) .reject
  let nOwn ← count payload 0
  let nShuffle ← count payload 1
  let nReveal ← count payload 2
  let nLeave ← count payload 3
  let nRecon ← count payload 4
  let needed ← u32 (5 + 5 * nOwn + 14 * nReveal + 13 * nRecon)
  ensure (needed ≤ payload.length) .reject
  let (own, cursor) ← bucket (ownershipEntry C hash handBinding payload) nOwn 5
  ensure (nShuffle = 0) .reject
  let (reveal, cursor) ← bucket (revealEntry C hash handBinding payload) nReveal cursor
  let (leave, cursor) ← bucket (leaveEntry C hash handBinding payload) nLeave cursor
  let (recon, _) ← bucket (reconEntry C hash handBinding payload) nRecon cursor
  return own ++ reveal ++ leave ++ recon

/-- Whether a batch folds to the identity; malformed batches are turned down or fail. -/
def verifyHandBatchStark : Except String Bool :=
  match batchResiduals C hash handBinding payload with
  | .ok residuals =>
    .ok (foldAndCheck hash handBinding (residuals.flatMap Prod.fst) (residuals.map Prod.snd))
  | .error .reject => .ok false
  | .error (.panic message) => .error message

variable {C hash handBinding payload}

/-- An accepted batch has the words of its ownership bucket. -/
theorem ownership_fits (h : verifyHandBatchStark C hash handBinding payload = .ok true) :
    5 + 5 * (payload.getD 0 0).1 ≤ payload.length := by
  unfold verifyHandBatchStark at h
  split at h
  · rename_i rs hrs
    unfold batchResiduals at hrs
    obtain ⟨_, -, hrs⟩ := bind_eq_ok.mp hrs
    obtain ⟨nOwn, hOwn, hrs⟩ := bind_eq_ok.mp hrs
    obtain ⟨_, -, hrs⟩ := bind_eq_ok.mp hrs
    obtain ⟨nReveal, -, hrs⟩ := bind_eq_ok.mp hrs
    obtain ⟨_, -, hrs⟩ := bind_eq_ok.mp hrs
    obtain ⟨nRecon, -, hrs⟩ := bind_eq_ok.mp hrs
    obtain ⟨needed, hNeeded, hrs⟩ := bind_eq_ok.mp hrs
    obtain ⟨_, hlen, -⟩ := bind_eq_ok.mp hrs
    have hlen := ensure_eq_ok.mp hlen
    simp only [count, word, bind_eq_ok, orErr_eq_ok, pure_eq_ok] at hOwn
    obtain ⟨w, hw, -, -, rfl⟩ := hOwn
    rw [u32] at hNeeded
    split at hNeeded <;> cases hNeeded
    rw [List.getD_eq_getElem?_getD, hw, Option.getD_some]
    omega
  · cases h
  · cases h

end TexasPoker.HandBatch
