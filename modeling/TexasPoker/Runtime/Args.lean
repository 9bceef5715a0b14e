import TexasPoker.Wire.Fields

/-! # Command arguments

The codecs of the arguments of each command, and of the payloads that keep them without
their actor. Points and proofs are encoded by the proof library.
-/

namespace TexasPoker

/-- Codecs of the proof library, whose decoders are the ones the table uses. -/
class ProtocolCodecs (G : Type) [AddCommGroup G] [Protocol G] where
  point : Codec G
  shuffleProof : Codec (Protocol.ShuffleProof G)
  revealTokenProof : Codec (Protocol.RevealTokenProof G)
  leaveProof : Codec (Protocol.LeaveProof G)
  reconstructProof : Codec (Protocol.ReconstructProof G)
  statement : Codec (ReconstructionStatement G (Protocol.Contribution G))
  point_decode : point.decode = Protocol.readPoint
  shuffleProof_decode : shuffleProof.decode = Protocol.readShuffleProof
  revealTokenProof_decode : revealTokenProof.decode = Protocol.readRevealTokenProof
  leaveProof_decode : leaveProof.decode = Protocol.readLeaveProof
  reconstructProof_decode : reconstructProof.decode = Protocol.readReconstructProof
  statement_decode : statement.decode = Protocol.readStatement

namespace Args

open ProtocolCodecs

abbrev seatIndex : Codec ℕ := Codec.uint 1

abbrev amount : Codec ℕ := Codec.uint 8

def byteVec : Codec Bytes := Codec.byte.vec

def taggedPubkey : Codec TaggedPubkey :=
  (seatIndex.pair byteVec).via (fun p => .ok ⟨p.1, p.2⟩) (fun k => .ok (k.tag, k.raw)) (by
    rintro ⟨tag, raw⟩ k
    cases k
    simp [eq_comm])

def createTable : Codec (ℕ × ℕ × ℕ × ℕ) :=
  (Codec.uint 1).pair (amount.pair (amount.pair (Codec.uint 1)))

variable (G : Type) [AddCommGroup G] [Protocol G] [ProtocolCodecs G]

def canonicalJoinTable : Codec (ℕ × G × TaggedPubkey × Bytes) :=
  amount.pair ((point (G := G)).pair (taggedPubkey.pair byteVec))

def joinTable : Codec (Address × ℕ × G × TaggedPubkey × Bytes) :=
  Wire.address.pair (canonicalJoinTable G)

def ciphertext : Codec (ElGamalCiphertext G) :=
  ((point (G := G)).pair point).via (fun p => .ok ⟨p.1, p.2⟩) (fun c => .ok (c.c1, c.c2)) (by
    rintro ⟨c1, c2⟩ c
    cases c
    simp [eq_comm])

def canonicalSubmitShuffleV2 :
    Codec (List (ElGamalCiphertext G) × Protocol.ShuffleProof G) :=
  (ciphertext G).vec.pair shuffleProof

def canonicalSubmitRevealTokens : Codec (List G × List (Protocol.RevealTokenProof G)) :=
  (point (G := G)).vec.pair revealTokenProof.vec

def canonicalSubmitReconstructDeck : Codec
    (ReconstructionStatement G (Protocol.Contribution G) × Protocol.ReconstructProof G) :=
  statement.pair reconstructProof

def canonicalFoldWithProof : Codec (List (ElGamalCiphertext G) × Protocol.LeaveProof G) :=
  (ciphertext G).vec.pair leaveProof

/-! ## The decoders of the commands -/

theorem createTable_decode : createTable.decode =
    (do return (← Decoder.uint 1, ← Decoder.uint 8, ← Decoder.uint 8, ← Decoder.uint 1)) := by
  simp only [createTable, Codec.pair, Codec.uint, bind_assoc, pure_bind]

theorem taggedPubkey_decode : taggedPubkey.decode = readTaggedPubkey := by
  simp only [taggedPubkey, Codec.via, Codec.pair, bind_assoc, pure_bind]
  rfl

theorem joinTable_decode : (joinTable G).decode = (do
    let player ← readAddress
    let buyIn ← Decoder.uint 8
    let pk : G ← Protocol.readPoint
    let txPk ← readTaggedPubkey
    let proof ← Decoder.vec do return (BitVec.ofNat 8 (← Decoder.uint 1))
    return (player, buyIn, pk, txPk, proof)) := by
  simp only [joinTable, canonicalJoinTable, Codec.pair, bind_assoc, pure_bind, point_decode,
    taggedPubkey_decode]
  rfl

theorem ciphertext_decode : (ciphertext G).decode = Exec.readCiphertext := by
  simp only [ciphertext, Codec.via, Codec.pair, bind_assoc, pure_bind, point_decode]
  rfl

theorem submitShuffleV2_decode : (canonicalSubmitShuffleV2 G).decode = (do
    let outputCards ← Decoder.vec (Exec.readCiphertext (G := G))
    return (outputCards, ← Protocol.readShuffleProof (G := G))) := by
  rw [← ciphertext_decode, ← shuffleProof_decode]
  rfl

theorem submitRevealTokens_decode : (canonicalSubmitRevealTokens G).decode = (do
    let tokens ← Decoder.vec (Protocol.readPoint (G := G))
    return (tokens, ← Decoder.vec (Protocol.readRevealTokenProof (G := G)))) := by
  rw [← point_decode, ← revealTokenProof_decode]
  rfl

theorem submitReconstructDeck_decode : (canonicalSubmitReconstructDeck G).decode = (do
    let statement ← Protocol.readStatement (G := G)
    return (statement, ← Protocol.readReconstructProof (G := G))) := by
  rw [← statement_decode, ← reconstructProof_decode]
  rfl

theorem foldWithProof_decode : (canonicalFoldWithProof G).decode = (do
    let outputCards ← Decoder.vec (Exec.readCiphertext (G := G))
    return (outputCards, ← Protocol.readLeaveProof (G := G))) := by
  rw [← ciphertext_decode, ← leaveProof_decode]
  rfl

end Args

end TexasPoker
