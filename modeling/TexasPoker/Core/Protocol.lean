import Mathlib.Algebra.BigOperators.Group.List.Basic
import Mathlib.Algebra.Group.Basic
import Mathlib.Data.Vector.Defs
import TexasPoker.Core.Basic
import TexasPoker.Lib.Bytes

/-! # The mental-poker library

The curve group, the card points and the proof systems come from a library outside
the repository; they enter as the parameters of a class over the group.
-/

namespace TexasPoker

/-- A ciphertext of the curve group. -/
structure ElGamalCiphertext (G : Type) where
  c1 : G
  c2 : G
  deriving DecidableEq, Repr

/-- The public statement of one reconstruction contribution. -/
structure ReconstructionStatement (G Contribution : Type) where
  aggregatePk : G
  ownerPk : G
  cards : List G
  residualCarriers : List (ElGamalCiphertext G)
  contextDigest : Hash
  priorStateDigest : Hash
  reconstructionEpoch : ℕ
  contributions : List Contribution

/-- What the state machine uses of the curve, hash and proof libraries. -/
class Protocol (G : Type) [AddCommGroup G] where
  generator : G
  /-- The public points of the 52 cards. -/
  plaintextCards : List.Vector G 52
  /-- Width in bytes of an encoded point. -/
  pointLen : ℕ
  ShuffleProof : Type
  RevealTokenProof : Type
  LeaveProof : Type
  ReconstructProof : Type
  Contribution : Type
  verifyShuffle : ShuffleProof → List (ElGamalCiphertext G) → List (ElGamalCiphertext G) → G →
    Except String Unit
  verifyRevealToken : RevealTokenProof → ElGamalCiphertext G → G → G → Except String Unit
  verifyLeave : LeaveProof → List (ElGamalCiphertext G) → List (ElGamalCiphertext G) → G → Bool
  verifyReconstruct : ReconstructProof → ReconstructionStatement G Contribution →
    Except String Unit
  canonicalBaseDeck : List G → G → Except String (List (ElGamalCiphertext G))
  applyReconstructionContributions : List (ElGamalCiphertext G) → List Contribution →
    Except String (List (ElGamalCiphertext G))
  contextDigest : ObjectID → ℕ → Hash
  priorStateDigest : ObjectID → ℕ → ℕ → ℕ → G → List (ℕ × ℕ × ElGamalCiphertext G) → Hash
  /-- Scalars, their encodings and the challenge hash of the key ownership proof. -/
  Scalar : Type
  smul : Scalar → G → G
  serializeG1 : G → Bytes
  parseG1 : Bytes → Option G
  parseScalar : Bytes → Option Scalar
  hashToScalar : Bytes → Option Scalar
  /-- The 32-byte Blake2b hash. -/
  blake2b256 : Bytes → Hash
  /-- Decoders of points, proofs and statements. -/
  readPoint : Decoder G
  readShuffleProof : Decoder ShuffleProof
  readRevealTokenProof : Decoder RevealTokenProof
  readLeaveProof : Decoder LeaveProof
  readReconstructProof : Decoder ReconstructProof
  readStatement : Decoder (ReconstructionStatement G Contribution)

variable {G : Type} [AddCommGroup G] [Protocol G] [DecidableEq G]

/-- Verify a key ownership proof: commitment and response of a Schnorr proof. -/
def verifyPkOwnership (pk : G) (proofBytes : Bytes) : Bool :=
  if pk = 0 then false
  else if proofBytes.length ≠ 64 then false
  else
    let g : G := Protocol.generator
    match (Protocol.parseG1 (proofBytes.take 32) : Option G),
      Protocol.parseScalar (G := G) (proofBytes.drop 32) with
    | some commitment, some response =>
      if commitment = 0 then false
      else
        match Protocol.hashToScalar (G := G)
          (Protocol.serializeG1 g ++ Protocol.serializeG1 pk ++ proofBytes.take 32) with
        | some challenge =>
          Protocol.smul response g = commitment + Protocol.smul challenge pk
        | none => false
    | _, _ => false

/-- The public card points. -/
def generatePlaintextCards : List G := (Protocol.plaintextCards (G := G)).toList

/-- Add a key layer to the second component. -/
def addPkToC2 (ct : ElGamalCiphertext G) (pk : G) : ElGamalCiphertext G :=
  ⟨ct.c1, ct.c2 + pk⟩

/-- Remove reveal tokens from a second component. -/
def partialDecryptC2 (c2 : G) (tokens : List G) : G :=
  tokens.foldl (fun result t => result - t) c2

end TexasPoker
