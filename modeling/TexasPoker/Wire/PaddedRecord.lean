import TexasPoker.Core.Constants
import TexasPoker.Lib.Codec

/-! # Padded records

A record of a fixed width: the length of tag and payload, the tag, the payload, and zeros.
A reader checks the length bound and the zeros, but not that the payload decoder reads the
payload to its end, and takes the tag from bytes that may be empty.
-/

namespace TexasPoker.Wire

open Fallible

/-- How reading ends without a value. -/
inductive ReadFailure where
  | invalid (detail : String)
  | panic
  deriving DecidableEq, Repr

/-- A reader consumes a prefix of its input, reports an error or panics. -/
abbrev Reader (α : Type) := StateT Bytes (Except ReadFailure) α

variable {α : Type}

/-- A decoder reports its errors. -/
def report (d : Decoder α) : Reader α := fun input => (d input).mapError .invalid

def writePaddedRecord (tag : ℕ) (payload : Bytes) (width : ℕ) : Except String Bytes := do
  let bodyLen := payload.length + 1 + 4
  ensure (bodyLen ≤ width) "fixed-width record payload exceeds record width"
  ensure (payload.length + 1 ≤ u32Max) "record too large"
  return leBytes 4 (payload.length + 1) ++ (leBytes 1 tag ++ (payload ++
    List.replicate (width - bodyLen) 0))

def readPaddedRecord (width : ℕ) : Reader (ℕ × Bytes) := do
  let len ← report (Decoder.uint 4)
  let bodyLen := len + 4
  ensure (bodyLen ≤ width) (ReadFailure.invalid "fixed-width record length exceeds record width")
  let buf ← report (Decoder.take len)
  let padding ← report (Decoder.take (width - bodyLen))
  ensure (∀ byte ∈ padding, byte = 0)
    (ReadFailure.invalid "non-canonical fixed-width record: padding must be zero")
  match buf with
  | [] => throw .panic -- the source indexes the first byte
  | tag :: payload => return (tag.toNat, payload)

/-! ## Frames -/

/-- The record of a length-prefixed buffer. -/
def frame (buf : Bytes) (width : ℕ) : Bytes :=
  leBytes 4 buf.length ++ (buf ++ List.replicate (width - (buf.length + 4)) 0)

variable {width : ℕ} {buf input rest : Bytes} {x : Except ReadFailure ((ℕ × Bytes) × Bytes)}

/-- What is made of the buffer of a record. -/
def opened (buf rest : Bytes) : Except ReadFailure ((ℕ × Bytes) × Bytes) :=
  match buf with
  | [] => .error .panic
  | tag :: payload => .ok ((tag.toNat, payload), rest)

theorem report_of_ok {d : Decoder α} {a : α} (h : d input = .ok (a, rest)) :
    report d input = .ok (a, rest) := by
  rw [report, h]
  rfl

/-- A step that does not report an error succeeds. -/
theorem ok_of_report {β : Type} {d : Decoder α} {f : α → Reader β} {y : Except ReadFailure (β × Bytes)}
    (h : (report d >>= f) input = y) (hy : ∀ e, y ≠ .error (.invalid e)) :
    ∃ a mid, d input = .ok (a, mid) ∧ f a mid = y := by
  change (report d input >>= fun p => f p.1 p.2) = y at h
  cases hd : d input with
  | error e =>
    rw [report, hd] at h
    exact absurd h.symm (hy e)
  | ok p =>
    rw [report, hd] at h
    exact ⟨p.1, p.2, rfl, h⟩

theorem of_ensure {β : Type} {p : Prop} [Decidable p] {e : String} {f : Unit → Reader β}
    {y : Except ReadFailure (β × Bytes)} (h : (liftM (ensure p (ReadFailure.invalid e)) >>= f) input = y)
    (hy : ∀ e, y ≠ .error (.invalid e)) : p ∧ f () input = y := by
  by_cases hp : p
  · rw [ensure, if_pos hp] at h
    exact ⟨hp, h⟩
  · rw [ensure, if_neg hp] at h
    exact absurd h.symm (hy e)

theorem ensure_bind {β : Type} {p : Prop} [Decidable p] {e : ReadFailure} {f : Unit → Reader β}
    (hp : p) : (liftM (ensure p e) >>= f) input = f () input := by
  rw [ensure, if_pos hp]
  rfl

theorem readPaddedRecord_frame (hw : buf.length + 4 ≤ width) (hl : buf.length < 256 ^ 4)
    (rest : Bytes) : readPaddedRecord width (frame buf width ++ rest) = opened buf rest := by
  rw [frame, List.append_assoc, List.append_assoc, readPaddedRecord]
  rw [Decoder.bind_of_ok (report_of_ok (Decoder.uint_eq_ok.mpr ⟨hl, rfl⟩)), ensure_bind hw,
    Decoder.bind_of_ok (report_of_ok (Decoder.take_eq_ok.mpr ⟨rfl, rfl⟩)),
    Decoder.bind_of_ok (report_of_ok (Decoder.take_eq_ok.mpr ⟨List.length_replicate, rfl⟩)),
    ensure_bind fun _ => List.eq_of_mem_replicate]
  cases buf <;> rfl

/-- A record that is read, or panics, is a frame. -/
theorem frame_of_read (h : readPaddedRecord width input = x) (hx : ∀ e, x ≠ .error (.invalid e)) :
    ∃ buf rest, buf.length + 4 ≤ width ∧ buf.length < 256 ^ 4 ∧ input = frame buf width ++ rest ∧
      opened buf rest = x := by
  obtain ⟨len, mid, hlen, hbody⟩ := ok_of_report h hx
  obtain ⟨hl, rfl⟩ := Decoder.uint_eq_ok.mp hlen
  obtain ⟨hw, hbody⟩ := of_ensure hbody hx
  obtain ⟨buf, tail, hbuf, htail⟩ := ok_of_report hbody hx
  obtain ⟨rfl, rfl⟩ := Decoder.take_eq_ok.mp hbuf
  obtain ⟨padding, rest, hpad, hopen⟩ := ok_of_report htail hx
  obtain ⟨hpadlen, rfl⟩ := Decoder.take_eq_ok.mp hpad
  obtain ⟨hzero, hopen⟩ := of_ensure hopen hx
  have hpadding : padding = List.replicate (width - (buf.length + 4)) 0 :=
    List.eq_replicate_iff.mpr ⟨hpadlen, hzero⟩
  refine ⟨buf, rest, hw, hl, ?_, ?_⟩
  · rw [frame, hpadding, List.append_assoc, List.append_assoc]
  · rw [← hopen]
    cases buf <;> rfl

theorem frame_inj {buf' : Bytes} (hl : buf.length < 256 ^ 4) (hl' : buf'.length < 256 ^ 4)
    (h : frame buf width = frame buf' width) : buf = buf' := by
  obtain ⟨hlen, hbody⟩ := List.append_inj h (by simp)
  have hlen : buf.length = buf'.length := by
    have hval := congrArg leValue hlen
    rwa [leValue_leBytes, leValue_leBytes, Nat.mod_eq_of_lt hl, Nat.mod_eq_of_lt hl'] at hval
  exact (List.append_inj hbody hlen).1

theorem frame_nil (hw : 4 ≤ width) : frame [] width = List.replicate width 0 := by
  have hzero : leBytes 4 0 = List.replicate 4 0 := rfl
  rw [frame, List.length_nil, hzero, List.nil_append, ← List.replicate_add]
  congr 1
  omega

theorem length_frame (hw : buf.length + 4 ≤ width) : (frame buf width).length = width := by
  simp only [frame, List.length_append, length_leBytes, List.length_replicate]
  omega

/-! ## Records of tagged payloads -/

namespace Record

variable (c : TaggedCodec α) (width : ℕ)

def serialize (v : α) : Except String Bytes := do
  let payload ← c.payload v
  writePaddedRecord (c.tagOf v) payload width

/-- What the payload decoder leaves of the payload is ignored. -/
def deserialize : Reader α := do
  let (tag, payload) ← readPaddedRecord width
  let (v, _) ← (c.ofPayload tag payload).mapError ReadFailure.invalid
  return v

/-- A record reads without a panic, only as the value it is the record of, and as that one. -/
structure CanonicalAt (input : Bytes) : Prop where
  total : deserialize c width input ≠ .error .panic
  reencodes : ∀ v rest, deserialize c width input = .ok (v, rest) → serialize c width v = .ok input
  round_trip : ∀ v, serialize c width v = .ok input → deserialize c width input = .ok (v, [])

/-- The buffer of a value, with bytes after its payload. -/
def buffer (v : α) (body slack : Bytes) : Bytes := leBytes 1 (c.tagOf v) ++ (body ++ slack)

/-- The length field counts bytes after a complete payload. -/
def HasSlack (input : Bytes) : Prop :=
  ∃ v body slack, c.payload v = .ok body ∧ slack ≠ [] ∧
    (buffer c v body slack).length + 4 ≤ width ∧ input = frame (buffer c v body slack) width

variable {c width} {v : α} {out : Bytes}

theorem serialize_eq_ok : serialize c width v = .ok out ↔ ∃ body, c.payload v = .ok body ∧
    (buffer c v body []).length + 4 ≤ width ∧ body.length + 1 ≤ u32Max ∧
      out = frame (buffer c v body []) width := by
  have hlen (body : Bytes) : (buffer c v body []).length = body.length + 1 := by
    simp [buffer, Nat.add_comm]
  simp only [serialize, writePaddedRecord, bind_eq_ok, ensure_eq_ok, pure_eq_ok, hlen, frame]
  constructor
  · rintro ⟨body, hbody, _, hw, _, hmax, rfl⟩
    exact ⟨body, hbody, hw, hmax, by simp [buffer, List.append_assoc]⟩
  · rintro ⟨body, hbody, hw, hmax, rfl⟩
    exact ⟨body, hbody, (), hw, (), hmax, by simp [buffer, List.append_assoc]⟩

theorem deserialize_eq : deserialize c width input = (readPaddedRecord width input >>= fun p =>
    (c.ofPayload p.1.1 p.1.2).mapError ReadFailure.invalid >>= fun q => .ok (q.1, p.2)) := by
  change (readPaddedRecord width input >>= _) = _
  congr 1
  funext p
  change ((c.ofPayload p.1.1 p.1.2).mapError ReadFailure.invalid >>= fun q => _) >>= _ = _
  cases (c.ofPayload p.1.1 p.1.2) <;> rfl

theorem opened_buffer (body slack : Bytes) : opened (buffer c v body slack) rest =
    .ok ((c.tagOf v, body ++ slack), rest) := by
  have htag : (BitVec.ofNat 8 (c.tagOf v)).toNat = c.tagOf v :=
    Nat.mod_eq_of_lt (c.tagOf_lt v)
  have hbytes : leBytes 1 (c.tagOf v) = [BitVec.ofNat 8 (c.tagOf v)] := by
    rw [leBytes_succ]
    rfl
  rw [buffer, hbytes, List.singleton_append, opened, htag]

theorem buffer_inj {v' : α} {body body' slack slack' : Bytes}
    (h : buffer c v body slack = buffer c v' body' slack') :
    c.tagOf v = c.tagOf v' ∧ body ++ slack = body' ++ slack' := by
  obtain ⟨htag, hrest⟩ := List.append_inj h (by simp)
  have hval := congrArg leValue htag
  rw [leValue_leBytes, leValue_leBytes, pow_one, Nat.mod_eq_of_lt (c.tagOf_lt v),
    Nat.mod_eq_of_lt (c.tagOf_lt v')] at hval
  exact ⟨hval, hrest⟩

theorem lt_of_le_u32Max {n : ℕ} (hmax : width ≤ u32Max) (hn : n + 4 ≤ width) : n < 256 ^ 4 := by
  unfold u32Max at hmax
  omega

/-- The reader takes its value from a payload, whatever slack follows. -/
theorem deserialize_eq_ok (hmax : width ≤ u32Max) : deserialize c width input = .ok (v, rest) ↔
    ∃ body slack, c.payload v = .ok body ∧ (buffer c v body slack).length + 4 ≤ width ∧
      input = frame (buffer c v body slack) width ++ rest := by
  rw [deserialize_eq, bind_eq_ok]
  constructor
  · rintro ⟨p, hread, hrest⟩
    obtain ⟨buf, tail, hw, hl, rfl, hopen⟩ := frame_of_read hread (by simp)
    cases buf with
    | nil => cases hopen
    | cons tag payload =>
      cases hopen
      obtain ⟨q, hq, hv⟩ := bind_eq_ok.mp hrest
      cases hv
      obtain ⟨htag, body, hbody, hpayload⟩ := c.payload_ofPayload (mapError_eq_ok.mp hq)
      have hbuf : buffer c q.1 body q.2 = tag :: payload := by
        rw [buffer, htag, ← hpayload, leBytes_succ]
        simp [leBytes]
      rw [← hbuf] at hw
      exact ⟨body, q.2, hbody, hw, by rw [hbuf]⟩
  · rintro ⟨body, slack, hbody, hw, rfl⟩
    refine ⟨((c.tagOf v, body ++ slack), rest), ?_, ?_⟩
    · rw [readPaddedRecord_frame hw (lt_of_le_u32Max hmax hw), opened_buffer]
    · rw [c.ofPayload_payload hbody slack]
      rfl

/-- A reader panics on zeros only. -/
theorem deserialize_panic_iff (hw : 4 ≤ width) : deserialize c width input = .error .panic ↔
    ∃ rest, input = List.replicate width 0 ++ rest := by
  rw [deserialize_eq]
  constructor
  · intro h
    cases hread : readPaddedRecord width input with
    | error e =>
      rw [hread] at h
      cases h
      obtain ⟨buf, rest, -, -, rfl, hopen⟩ := frame_of_read hread (by simp)
      cases buf with
      | nil => exact ⟨rest, by rw [frame_nil hw]⟩
      | cons tag payload => cases hopen
    | ok p =>
      rw [hread, ok_bind] at h
      cases hp : c.ofPayload p.1.1 p.1.2 with
      | error e =>
        rw [hp] at h
        cases h
      | ok q =>
        rw [hp] at h
        cases h
  · rintro ⟨rest, rfl⟩
    rw [← frame_nil hw, readPaddedRecord_frame hw (by decide)]
    rfl

/-- A record is canonical exactly when it is not all zeros and has no slack. -/
theorem canonicalAt_iff (hw : 4 ≤ width) (hmax : width ≤ u32Max) (hlen : input.length = width) :
    CanonicalAt c width input ↔ input ≠ List.replicate width 0 ∧ ¬ HasSlack c width input := by
  constructor
  · intro h
    constructor
    · rintro rfl
      exact h.total ((deserialize_panic_iff hw).mpr ⟨[], (List.append_nil _).symm⟩)
    · rintro ⟨v, body, slack, hbody, hslack, hbuf, rfl⟩
      have hread := h.reencodes v [] ((deserialize_eq_ok hmax).mpr
        ⟨body, slack, hbody, hbuf, (List.append_nil _).symm⟩)
      obtain ⟨body', hbody', hbuf', -, hframe⟩ := serialize_eq_ok.mp hread
      cases hbody.symm.trans hbody'
      have heq := frame_inj (lt_of_le_u32Max hmax hbuf) (lt_of_le_u32Max hmax hbuf') hframe
      exact hslack (List.append_cancel_left (buffer_inj heq).2)
  · rintro ⟨hzero, hslack⟩
    refine ⟨fun hpanic => ?_, fun v rest hread => ?_, fun v hout => ?_⟩
    · obtain ⟨rest, rfl⟩ := (deserialize_panic_iff hw).mp hpanic
      have hrest : rest = [] := by simpa using hlen
      exact hzero (by rw [hrest, List.append_nil])
    · obtain ⟨body, slack, hbody, hbuf, rfl⟩ := (deserialize_eq_ok hmax).mp hread
      have hrest : rest = [] := by
        rw [List.length_append, length_frame hbuf] at hlen
        exact List.eq_nil_of_length_eq_zero (by omega)
      subst hrest
      rw [List.append_nil] at hslack ⊢
      by_cases hs : slack = []
      · subst hs
        have hb : body.length + 1 ≤ u32Max := by
          simp only [buffer, List.length_append, length_leBytes, List.length_nil] at hbuf
          omega
        exact serialize_eq_ok.mpr ⟨body, hbody, hbuf, hb, rfl⟩
      · exact absurd ⟨v, body, slack, hbody, hs, hbuf, rfl⟩ hslack
    · obtain ⟨body, hbody, hbuf, -, rfl⟩ := serialize_eq_ok.mp hout
      exact (deserialize_eq_ok hmax).mpr ⟨body, [], hbody, hbuf, (List.append_nil _).symm⟩

end Record

end TexasPoker.Wire
