import TexasPoker.HandBatch.Curve
import TexasPoker.Lib.Horner

/-! # The check of the host

Before it submits a batch, the host parses it into equations and folds their points itself.
-/

namespace TexasPoker.HandBatch

open Contracts Fallible

variable {G : Type} [AddCommGroup G] [DecidableEq G] (C : StarkCurve G)
  (hash : List Felt → Felt) (handBinding : Felt)

/-- The public points of a card of a leave. -/
structure LeaveCardPts (G : Type) where
  inC1 : G
  inC2 : G
  outC1 : G
  outC2 : G
  a : G
  deriving DecidableEq

/-- An equation of a batch. Of a shuffle only the points it folds and the outcome of its scalar
checks matter. -/
inductive HandBatchEquation (G : Type) where
  | ownership (s : Felt) (pk r : G)
  | reveal (s : Felt) (pk c1 c2 token t1 t2 : G) (nonce : Felt)
  | leave (s : Felt) (pk cpk : G) (nonce : Felt) (cards : List (LeaveCardPts G))
  | reconstruct (s : Felt) (g1 g2 p1 p2 a b : G)
  | shuffle (points : List G) (scalarChecks : Bool)
  deriving DecidableEq

/-! ## Parsing -/

variable (batchWords : List Felt)

/-- A challenge of the host is the hash of the transcript modulo the order of the curve. -/
def challenge (transcript : List Felt) : Felt := natFelt ((hash transcript).1 % C.order)

def LeaveCardPts.d2 (card : LeaveCardPts G) : G := card.inC2 - card.outC2

/-- The transcript words of a card; a layer that is the identity is written as zeros. -/
def LeaveCardPts.words (card : LeaveCardPts G) : List Felt :=
  pair (C.coords card.inC1) ++ pair (C.coords card.inC2) ++ pair (C.coords card.outC1) ++
    pair (C.coords card.outC2) ++ pair (C.coords card.a) ++
    pair (if card.d2 = 0 then (0, 0) else C.coords card.d2)

/-- What the challenge of an equation hashes. -/
def HandBatchEquation.transcript : HandBatchEquation G → List Felt
  | .ownership _ pk r =>
    [handProtoLabel, handBinding] ++ pair (C.coords C.base) ++ pair (C.coords pk) ++ pair (C.coords r)
  | .reveal _ pk c1 c2 token t1 t2 nonce =>
    [handRevealLabel, handBinding] ++ pair (C.coords pk) ++ pair (C.coords c1) ++
      pair (C.coords c2) ++ pair (C.coords token) ++ pair (C.coords t1) ++ pair (C.coords t2) ++ [nonce]
  | .leave _ pk cpk nonce cards =>
    [handLeaveLabel, handBinding] ++ pair (C.coords pk) ++ pair (C.coords cpk) ++
      [nonce, natFelt cards.length] ++ (cards.map (LeaveCardPts.words C)).flatten
  | .reconstruct _ g1 g2 p1 p2 a b =>
    [handReconLabel, handBinding] ++ pair (C.coords g1) ++ pair (C.coords g2) ++
      pair (C.coords p1) ++ pair (C.coords p2) ++ pair (C.coords a) ++ pair (C.coords b)
  | .shuffle .. => []

/-- The points of an equation under a challenge. -/
def HandBatchEquation.points (c : Felt) : HandBatchEquation G → List G
  | .ownership s pk r => [s.1 • C.base + c.1 • (-pk) + -r]
  | .reveal s pk c1 _ token t1 t2 _ =>
    [s.1 • C.base + c.1 • (-pk) + -t1, s.1 • c1 + c.1 • (-token) + -t2]
  | .leave s pk cpk _ cards =>
    (s.1 • C.base + -cpk + c.1 • (-pk)) ::
      cards.map fun card => s.1 • card.inC1 + -card.a + c.1 • (-card.d2)
  | .reconstruct s g1 g2 p1 p2 a b =>
    [s.1 • g1 + -a + c.1 • (-p1), s.1 • g2 + -b + c.1 • (-p2)]
  | .shuffle points _ => points

/-- The words of an equation under a challenge. -/
def HandBatchEquation.words (c : Felt) : HandBatchEquation G → EquationWords
  | .ownership s _ _ => ⟨1, s, c⟩
  | .reveal s .. => ⟨2, s, c⟩
  | .leave s .. => ⟨3, s, c⟩
  | .reconstruct s .. => ⟨4, s, c⟩
  | .shuffle .. => ⟨5, 0, 0⟩

/-- A shuffle whose scalar checks fail is turned down at once. -/
def HandBatchEquation.sound : HandBatchEquation G → Bool
  | .shuffle _ scalarChecks => scalarChecks
  | _ => true

end TexasPoker.HandBatch
