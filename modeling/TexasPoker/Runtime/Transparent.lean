import TexasPoker.Core.Protocol

/-! # A transparent curve

The integers as a curve group with trivial discrete logarithms: verifiers check the
relation itself, so honest proofs carry nothing.
-/

namespace TexasPoker.Transparent

/-- The plaintext a ciphertext hides under a key. -/
def decrypt (pk : ℤ) (c : ElGamalCiphertext ℤ) : ℤ := c.c2 - pk * c.c1

/-- Sum of two ciphertexts. -/
def addCiphertext (a b : ElGamalCiphertext ℤ) : ElGamalCiphertext ℤ := ⟨a.c1 + b.c1, a.c2 + b.c2⟩

/-- Two decks hide the same cards under a key. -/
def sameCards (pk : ℤ) (input output : List (ElGamalCiphertext ℤ)) : Bool :=
  (input.map (decrypt pk)).isPerm (output.map (decrypt pk))

/-- The key layer of `pk` is gone from every card. -/
def layerRemoved (pk : ℤ) (input output : List (ElGamalCiphertext ℤ)) : Bool :=
  output = input.map fun c => ⟨c.c1, c.c2 - pk * c.c1⟩

/-- Every contribution hides zero or the negated card of its slot. -/
def blindsCards (s : ReconstructionStatement ℤ (ElGamalCiphertext ℤ)) : Bool :=
  s.contributions.length = s.cards.length && (s.contributions.zip s.cards).all fun (c, m) =>
    decrypt s.aggregatePk c = 0 || decrypt s.aggregatePk c = -m

/-- Accept exactly when a check succeeds. -/
def check (ok : Bool) : Except String Unit := if ok then .ok () else .error "invalid proof"

/-- An eight-byte two's complement number. -/
def readInt : Decoder ℤ := do return Int.bmod (← Decoder.uint 8) (2 ^ 64)

/-- The encoding `readInt` reads. -/
def writeInt (n : ℤ) : Bytes := leBytes 8 (n % 2 ^ 64).toNat

def readHash : Decoder Hash := do return BitVec.ofNat 256 (← Decoder.uint 32)

def readCard : Decoder (ElGamalCiphertext ℤ) := do
  let c1 ← readInt
  return ⟨c1, ← readInt⟩

def readStatement : Decoder (ReconstructionStatement ℤ (ElGamalCiphertext ℤ)) := do
  let aggregatePk ← readInt
  let ownerPk ← readInt
  let cards ← Decoder.vec readInt
  let residualCarriers ← Decoder.vec readCard
  let contextDigest ← readHash
  let priorStateDigest ← readHash
  let reconstructionEpoch ← Decoder.uint 8
  let contributions ← Decoder.vec readCard
  return { aggregatePk, ownerPk, cards, residualCarriers, contextDigest, priorStateDigest,
           reconstructionEpoch, contributions }

instance : Protocol ℤ where
  generator := 1
  plaintextCards := ⟨(List.range 52).map fun i => (1000 + i : ℤ), by simp⟩
  pointLen := 32
  ShuffleProof := Unit
  RevealTokenProof := Unit
  LeaveProof := Unit
  ReconstructProof := Unit
  Contribution := ElGamalCiphertext ℤ
  verifyShuffle _ input output pk := check (sameCards pk input output)
  verifyRevealToken _ c token pk := check (token = pk * c.c1)
  verifyLeave _ input output pk := layerRemoved pk input output
  verifyReconstruct _ s := check (blindsCards s)
  canonicalBaseDeck cards pk := .ok (cards.map fun m => ⟨1, m + pk⟩)
  applyReconstructionContributions deck contributions :=
    if deck.length = contributions.length then
      .ok (List.zipWith addCiphertext deck contributions)
    else .error "invalid contribution"
  contextDigest _ handId := BitVec.ofNat 256 handId
  priorStateDigest _ _ seat _ _ _ := BitVec.ofNat 256 seat
  Scalar := ℤ
  smul k g := k * g
  serializeG1 g := leBytes 32 g.toNat
  parseG1 bytes := some (leValue bytes)
  parseScalar bytes := some (leValue bytes)
  hashToScalar _ := some 1
  blake2b256 bytes := BitVec.ofNat 256 (leValue bytes)
  readPoint := readInt
  readShuffleProof := return ()
  readRevealTokenProof := return ()
  readLeaveProof := return ()
  readReconstructProof := return ()
  readStatement := readStatement

end TexasPoker.Transparent
