import Mathlib.Data.BitVec
import Mathlib.Tactic.Common

/-! # Bytes and decoders

Little-endian encodings, and decoders that consume a prefix of a byte string.
-/

namespace TexasPoker

abbrev Bytes := List (BitVec 8)

/-- The `width` little-endian bytes of a number. -/
def leBytes (width n : ℕ) : Bytes :=
  (List.range width).map fun i => BitVec.ofNat 8 (n / 256 ^ i)

/-- The bytes of a text of 8-bit characters. -/
def textBytes (text : String) : Bytes := text.toList.map fun c => BitVec.ofNat 8 c.toNat

/-- The number a little-endian byte string stands for. -/
def leValue (bytes : Bytes) : ℕ := bytes.foldr (fun b n => b.toNat + 256 * n) 0

/-- A decoder consumes a prefix of its input or reports an error. -/
abbrev Decoder (α : Type) := StateT Bytes (Except String) α

namespace Decoder

variable {α : Type}

/-- The next `n` bytes. -/
def take (n : ℕ) : Decoder Bytes := fun input =>
  if n ≤ input.length then .ok (input.take n, input.drop n)
  else .error "Unexpected length of input"

/-- An unsigned number of `width` bytes. -/
def uint (width : ℕ) : Decoder ℕ := do return leValue (← take width)

def bool : Decoder Bool := do
  match ← uint 1 with
  | 0 => return false
  | 1 => return true
  | b => throw s!"Invalid bool representation: {b}"

/-- `n` values in a row. -/
def many (d : Decoder α) : ℕ → Decoder (List α)
  | 0 => return []
  | n + 1 => do
    let a ← d
    return a :: (← many d n)

/-- A counted sequence. -/
def vec (d : Decoder α) : Decoder (List α) := do many d (← uint 4)

/-- Decode the whole input. -/
def run (d : Decoder α) (input : Bytes) : Except String α := do
  let (a, rest) ← StateT.run d input
  if rest = [] then return a else throw "Not all bytes read"

end Decoder

end TexasPoker
