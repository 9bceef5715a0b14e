import TexasPoker.Wire.PaddedRecord

/-! # Formats

A codec together with the reader that runs, which may accept more than the codec does.
Combinations of formats are formats again, so what a reader accepts beyond its codec comes
from its records.
-/

namespace TexasPoker.Wire

open Fallible

variable {α β : Type}

/-- `n` values in a row. -/
def readMany (r : Reader α) : ℕ → Reader (List α)
  | 0 => return []
  | n + 1 => do
    let a ← r
    return a :: (← readMany r n)

/-- A codec, and a reader of its encodings. -/
structure Format (α : Type) extends Codec α where
  read : Reader α
  read_of_decode : ∀ {input rest a}, decode input = .ok (a, rest) → read input = .ok (a, rest)

namespace Format

variable {f : Format α} {input rest : Bytes} {a : α} {bytes : Bytes}

theorem read_encode (h : f.encode a = .ok bytes) (rest : Bytes) :
    f.read (bytes ++ rest) = .ok (a, rest) :=
  f.read_of_decode (f.decode_encode h rest)

/-- A codec that is read as it decodes. -/
def ofCodec (c : Codec α) : Format α where
  toCodec := c
  read := report c.decode
  read_of_decode := report_of_ok

/-- Two values in a row. -/
def pair (f : Format α) (g : Format β) : Format (α × β) where
  toCodec := f.toCodec.pair g.toCodec
  read := do
    let a ← f.read
    return (a, ← g.read)
  read_of_decode := by
    intro input rest p h
    obtain ⟨a, mid, ha, h⟩ := Decoder.bind_eq_ok.mp h
    obtain ⟨b, tail, hb, h⟩ := Decoder.bind_eq_ok.mp h
    obtain ⟨rfl, rfl⟩ := Decoder.pure_eq_ok.mp h
    rw [Decoder.bind_of_ok (f.read_of_decode ha), Decoder.bind_of_ok (g.read_of_decode hb)]
    rfl

theorem readMany_of_decode (f : Format α) {n : ℕ} {l : List α}
    (h : Decoder.many f.decode n input = .ok (l, rest)) :
    readMany f.read n input = .ok (l, rest) := by
  induction n generalizing input l with
  | zero =>
    obtain ⟨rfl, rfl⟩ := Decoder.pure_eq_ok.mp h
    rfl
  | succ n ih =>
    obtain ⟨a, mid, ha, h⟩ := Decoder.bind_eq_ok.mp h
    obtain ⟨l', tail, hl, h⟩ := Decoder.bind_eq_ok.mp h
    obtain ⟨rfl, rfl⟩ := Decoder.pure_eq_ok.mp h
    rw [readMany, Decoder.bind_of_ok (f.read_of_decode ha), Decoder.bind_of_ok (ih hl)]
    rfl

/-- A sequence behind its count. -/
def vec (f : Format α) : Format (List α) where
  toCodec := f.toCodec.vec
  read := do readMany f.read (← report (Decoder.uint 4))
  read_of_decode := by
    intro input rest l h
    obtain ⟨n, mid, hn, h⟩ := Decoder.bind_eq_ok.mp h
    rw [Decoder.bind_of_ok (report_of_ok hn)]
    exact f.readMany_of_decode h

/-- A format of other values: `get` may refuse a value that was read, `put` takes it back. -/
def via (f : Format α) (get : α → Except String β) (put : β → Except String α)
    (get_iff : ∀ a b, get a = .ok b ↔ put b = .ok a) : Format β where
  toCodec := f.toCodec.via get put get_iff
  read := do
    let a ← f.read
    (get a).mapError ReadFailure.invalid
  read_of_decode := by
    intro input rest b h
    obtain ⟨a, mid, ha, h⟩ := Decoder.bind_eq_ok.mp h
    obtain ⟨b', hb, h⟩ : ∃ b', get a = .ok b' ∧ Except.ok (b', mid) = .ok (b, rest) :=
      bind_eq_ok.mp h
    cases h
    rw [Decoder.bind_of_ok (f.read_of_decode ha), hb]
    rfl

end Format

namespace Record

variable {c : TaggedCodec α} {width : ℕ} {input rest : Bytes} {v : α}

/-- A record whose payload is read to its end. -/
def readWhole (c : TaggedCodec α) (width : ℕ) : Decoder α := fun input => do
  let (buf, rest) ← (readPaddedRecord width input).mapError fun _ => "invalid record"
  let (v, left) ← c.ofPayload buf.1 buf.2
  ensure (left = []) "bytes after the payload of a record"
  return (v, rest)

theorem readWhole_eq_ok (hmax : width ≤ u32Max) : readWhole c width input = .ok (v, rest) ↔
    ∃ body, c.payload v = .ok body ∧ (buffer c v body []).length + 4 ≤ width ∧
      input = frame (buffer c v body []) width ++ rest := by
  simp only [readWhole, bind_eq_ok, mapError_eq_ok, ensure_eq_ok, pure_eq_ok]
  constructor
  · rintro ⟨p, hread, q, hq, _, hleft, hv⟩
    obtain ⟨buf, tail, hw, hl, rfl, hopen⟩ := frame_of_read hread (by simp)
    cases hv
    cases buf with
    | nil => cases hopen
    | cons tag payload =>
      cases hopen
      obtain ⟨htag, body, hbody, hpayload⟩ := c.payload_ofPayload hq
      have hbuf : buffer c q.1 body [] = tag :: payload := by
        rw [buffer, htag, ← hleft, ← hpayload, leBytes_succ]
        simp [leBytes]
      rw [← hbuf] at hw
      exact ⟨body, hbody, hw, by rw [hbuf]⟩
  · rintro ⟨body, hbody, hw, rfl⟩
    refine ⟨((c.tagOf v, body ++ []), rest), ?_, (v, []), c.ofPayload_payload hbody [], (), rfl, rfl⟩
    rw [readPaddedRecord_frame hw (lt_of_le_u32Max hmax hw), opened_buffer]

theorem readWhole_of_serialize (hmax : width ≤ u32Max) {bytes : Bytes}
    (h : serialize c width v = .ok bytes) (rest : Bytes) :
    readWhole c width (bytes ++ rest) = .ok (v, rest) := by
  obtain ⟨body, hbody, hw, -, rfl⟩ := serialize_eq_ok.mp h
  exact (readWhole_eq_ok hmax).mpr ⟨body, hbody, hw, rfl⟩

theorem serialize_of_readWhole (hmax : width ≤ u32Max)
    (h : readWhole c width input = .ok (v, rest)) :
    ∃ bytes, serialize c width v = .ok bytes ∧ input = bytes ++ rest := by
  obtain ⟨body, hbody, hw, rfl⟩ := (readWhole_eq_ok hmax).mp h
  have hb : body.length + 1 ≤ u32Max := by
    simp only [buffer, List.length_append, length_leBytes, List.length_nil] at hw
    omega
  exact ⟨_, serialize_eq_ok.mpr ⟨body, hbody, hw, hb, rfl⟩, rfl⟩

theorem deserialize_of_readWhole (hmax : width ≤ u32Max)
    (h : readWhole c width input = .ok (v, rest)) :
    deserialize c width input = .ok (v, rest) := by
  obtain ⟨body, hbody, hw, rfl⟩ := (readWhole_eq_ok hmax).mp h
  exact (deserialize_eq_ok hmax).mpr ⟨body, [], hbody, hw, rfl⟩

/-- A padded record, which is read with any bytes after its payload. -/
def format (c : TaggedCodec α) (width : ℕ) (hmax : width ≤ u32Max) : Format α where
  encode := serialize c width
  decode := readWhole c width
  read := deserialize c width
  decode_encode := readWhole_of_serialize hmax
  encode_decode := serialize_of_readWhole hmax
  read_of_decode := deserialize_of_readWhole hmax

end Record

end TexasPoker.Wire
