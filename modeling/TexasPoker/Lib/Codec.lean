import Mathlib.Algebra.Order.Ring.Nat
import TexasPoker.Lib.Bytes
import TexasPoker.Lib.Fallible

/-! # Codecs

An encoder and a decoder that undo each other: what is encoded is decoded from the front
of any input, and what is decoded was the only encoding of its value.
-/

namespace TexasPoker

variable {α β ι : Type}

/-! ## Little-endian numbers -/

@[simp] theorem length_leBytes (width n : ℕ) : (leBytes width n).length = width := by
  simp [leBytes]

theorem leBytes_succ (width n : ℕ) :
    leBytes (width + 1) n = BitVec.ofNat 8 n :: leBytes width (n / 256) := by
  simp only [leBytes, List.range_succ_eq_map, List.map_cons, List.map_map, pow_zero, Nat.div_one]
  congr 1
  apply List.map_congr_left
  intro i _
  simp only [Function.comp_apply]
  rw [Nat.pow_succ', Nat.div_div_eq_div_mul]

theorem leValue_leBytes (width n : ℕ) : leValue (leBytes width n) = n % 256 ^ width := by
  induction width generalizing n with
  | zero =>
    rw [pow_zero, Nat.mod_one]
    rfl
  | succ width ih =>
    rw [leBytes_succ, leValue, List.foldr_cons, ← leValue, ih, Nat.pow_succ', Nat.mod_mul]
    simp

theorem leValue_lt (bytes : Bytes) : leValue bytes < 256 ^ bytes.length := by
  induction bytes with
  | nil => exact Nat.one_pos
  | cons b bytes ih =>
    rw [leValue, List.foldr_cons, ← leValue, List.length_cons, Nat.pow_succ']
    have hb := b.isLt
    omega

theorem leBytes_leValue (bytes : Bytes) : leBytes bytes.length (leValue bytes) = bytes := by
  induction bytes with
  | nil => rfl
  | cons b bytes ih =>
    have hb := b.isLt
    have hval : leValue (b :: bytes) = b.toNat + 256 * leValue bytes := rfl
    have hdiv : leValue (b :: bytes) / 256 = leValue bytes := by omega
    have hmod : BitVec.ofNat 8 (leValue (b :: bytes)) = b := by
      apply BitVec.eq_of_toNat_eq
      rw [BitVec.toNat_ofNat, hval]
      omega
    rw [List.length_cons, leBytes_succ, hdiv, hmod, ih]

theorem leBytes_eq_iff {width n : ℕ} {bytes : Bytes} (hn : n < 256 ^ width) :
    leBytes width n = bytes ↔ bytes.length = width ∧ leValue bytes = n := by
  constructor
  · rintro rfl
    exact ⟨length_leBytes width n, by rw [leValue_leBytes, Nat.mod_eq_of_lt hn]⟩
  · rintro ⟨rfl, rfl⟩
    exact leBytes_leValue bytes

/-! ## Decoders -/

namespace Decoder

variable {d : Decoder α} {f : α → Decoder β} {input rest : Bytes} {a : α} {b : β}

/-- Running past a step that succeeds, whatever errors are. -/
theorem bind_of_ok {ε : Type} {d : StateT Bytes (Except ε) α} {f : α → StateT Bytes (Except ε) β}
    {mid : Bytes} (h : d input = .ok (a, mid)) : (d >>= f) input = f a mid := by
  change (d input >>= fun p => f p.1 p.2) = _
  rw [h]
  rfl

theorem bind_eq_ok : (d >>= f) input = .ok (b, rest) ↔
    ∃ a mid, d input = .ok (a, mid) ∧ f a mid = .ok (b, rest) := by
  change (d input >>= fun p => f p.1 p.2) = _ ↔ _
  rw [Fallible.bind_eq_ok]
  constructor
  · rintro ⟨p, hd, hf⟩
    exact ⟨p.1, p.2, hd, hf⟩
  · rintro ⟨a, mid, hd, hf⟩
    exact ⟨(a, mid), hd, hf⟩

theorem pure_eq_ok {a' : α} : (pure a : Decoder α) input = .ok (a', rest) ↔
    a = a' ∧ input = rest := by
  change Except.ok (a, input) = _ ↔ _
  simp

theorem map_eq_ok {g : α → β} : (g <$> d) input = .ok (b, rest) ↔
    ∃ a, d input = .ok (a, rest) ∧ g a = b := by
  rw [← bind_pure_comp, bind_eq_ok]
  simp only [pure_eq_ok]
  constructor
  · rintro ⟨a, mid, hd, hg, rfl⟩
    exact ⟨a, hd, hg⟩
  · rintro ⟨a, hd, hg⟩
    exact ⟨a, rest, hd, hg, rfl⟩

theorem throw_ne_ok {e : String} {p : α × Bytes} : (throw e : Decoder α) input ≠ .ok p := nofun

theorem take_eq_ok {n : ℕ} {bytes : Bytes} : take n input = .ok (bytes, rest) ↔
    bytes.length = n ∧ input = bytes ++ rest := by
  unfold take
  split
  · rename_i hn
    simp only [Except.ok.injEq, Prod.mk.injEq]
    constructor
    · rintro ⟨rfl, rfl⟩
      exact ⟨List.length_take_of_le hn, (List.take_append_drop n input).symm⟩
    · rintro ⟨rfl, rfl⟩
      exact ⟨List.take_left, List.drop_left⟩
  · rename_i hn
    simp only [reduceCtorEq, false_iff, not_and]
    rintro rfl rfl
    simp at hn

/-- A whole input is decoded exactly when nothing is left. -/
theorem run_eq_ok : run d input = .ok a ↔ d input = .ok (a, []) := by
  change (d input >>= fun p => if p.2 = [] then pure p.1 else throw "Not all bytes read") = _ ↔ _
  rw [Fallible.bind_eq_ok]
  constructor
  · rintro ⟨p, hp, h⟩
    split at h
    · rename_i hrest
      cases h
      rw [hp, ← hrest]
    · cases h
  · intro h
    exact ⟨(a, []), h, rfl⟩

theorem uint_eq_ok {width n : ℕ} : uint width input = .ok (n, rest) ↔
    n < 256 ^ width ∧ input = leBytes width n ++ rest := by
  unfold uint
  rw [bind_pure_comp, map_eq_ok]
  constructor
  · rintro ⟨bytes, hb, rfl⟩
    obtain ⟨rfl, rfl⟩ := take_eq_ok.mp hb
    exact ⟨leValue_lt bytes, by rw [leBytes_leValue]⟩
  · rintro ⟨hn, rfl⟩
    refine ⟨leBytes width n, take_eq_ok.mpr ⟨length_leBytes width n, rfl⟩, ?_⟩
    rw [leValue_leBytes, Nat.mod_eq_of_lt hn]

/-! ## Canonical decoders -/

/-- The decoder accepts `ok` values, each from the bytes it is written as and from no others. -/
def Reads (d : Decoder α) (write : α → Bytes) (ok : α → Prop) : Prop :=
  ∀ input rest a, d input = .ok (a, rest) ↔ ok a ∧ input = write a ++ rest

/-- A value for each of `n` slots in a row, each read in its own way. -/
def slots : (n : ℕ) → (Fin n → Decoder α) → Decoder (Fin n → α)
  | 0, _ => return Fin.elim0
  | n + 1, d => do
    let a ← d 0
    return Fin.cons a (← slots n fun i => d i.succ)

/-- `n` values in a row, by position. -/
def array (d : Decoder α) (n : ℕ) : Decoder (Fin n → α) := slots n fun _ => d

/-- A value behind the byte one, or the byte zero. -/
def option (d : Decoder α) : Decoder (Option α) := do
  match ← uint 1 with
  | 0 => return none
  | 1 => return some (← d)
  | b => throw s!"Invalid Option representation: {b}. The first byte must be 0 or 1"

variable {write : α → Bytes} {ok : α → Prop}

/-- A whole input is read exactly when it is what its value is written as. -/
theorem Reads.run_eq_ok (h : d.Reads write ok) : run d input = .ok a ↔ ok a ∧ input = write a := by
  rw [Decoder.run_eq_ok, h, List.append_nil]

theorem Reads.bind_eq_ok (h : d.Reads write ok) : (d >>= f) input = .ok (b, rest) ↔
    ∃ a mid, ok a ∧ input = write a ++ mid ∧ f a mid = .ok (b, rest) := by
  rw [Decoder.bind_eq_ok]
  constructor
  · rintro ⟨a, mid, ha, hb⟩
    obtain ⟨hok, hin⟩ := (h _ _ _).mp ha
    exact ⟨a, mid, hok, hin, hb⟩
  · rintro ⟨a, mid, hok, hin, hb⟩
    exact ⟨a, mid, (h _ _ _).mpr ⟨hok, hin⟩, hb⟩

theorem reads_uint (width : ℕ) : (uint width).Reads (leBytes width) (· < 256 ^ width) :=
  fun _ _ _ => uint_eq_ok

theorem Reads.many (h : d.Reads write ok) (n : ℕ) :
    (d.many n).Reads (fun l => l.flatMap write) fun l => l.length = n ∧ ∀ a ∈ l, ok a := by
  intro input rest l
  induction n generalizing input l with
  | zero =>
    rw [Decoder.many, pure_eq_ok]
    constructor
    · rintro ⟨rfl, rfl⟩
      exact ⟨⟨rfl, by simp⟩, rfl⟩
    · rintro ⟨⟨hlen, -⟩, rfl⟩
      obtain rfl := List.length_eq_zero_iff.mp hlen
      exact ⟨rfl, rfl⟩
  | succ n ih =>
    simp only [Decoder.many, h.bind_eq_ok, Decoder.bind_eq_ok, pure_eq_ok]
    constructor
    · rintro ⟨a, mid, hok, rfl, l', mid', hl, rfl, rfl⟩
      obtain ⟨⟨hlen, hall⟩, rfl⟩ := (ih _ _).mp hl
      refine ⟨⟨by rw [List.length_cons, hlen], List.forall_mem_cons.mpr ⟨hok, hall⟩⟩, ?_⟩
      rw [List.flatMap_cons, List.append_assoc]
    · rintro ⟨⟨hlen, hall⟩, rfl⟩
      obtain ⟨a, l, rfl⟩ := List.exists_cons_of_length_eq_add_one hlen
      rw [List.forall_mem_cons] at hall
      rw [List.length_cons, Nat.add_right_cancel_iff] at hlen
      refine ⟨a, l.flatMap write ++ rest, hall.1, ?_, l, rest,
        (ih _ _).mpr ⟨⟨hlen, hall.2⟩, rfl⟩, rfl, rfl⟩
      rw [List.flatMap_cons, List.append_assoc]

theorem reads_slots {n : ℕ} {d : Fin n → Decoder α} {ok : Fin n → α → Prop}
    (h : ∀ i, (d i).Reads write (ok i)) :
    (slots n d).Reads (fun f => (List.ofFn f).flatMap write) fun f => ∀ i, ok i (f i) := by
  intro input rest f
  induction n generalizing input with
  | zero =>
    rw [slots, pure_eq_ok]
    constructor
    · rintro ⟨rfl, rfl⟩
      exact ⟨fun i => i.elim0, rfl⟩
    · rintro ⟨-, rfl⟩
      exact ⟨Subsingleton.elim _ _, rfl⟩
  | succ n ih =>
    have hrest : ∀ i, (d (Fin.succ i)).Reads write (ok i.succ) := fun i => h i.succ
    simp only [slots, (h 0).bind_eq_ok, bind_eq_ok, pure_eq_ok]
    constructor
    · rintro ⟨a, mid, hok, rfl, f', mid', hf, rfl, rfl⟩
      obtain ⟨hall, rfl⟩ := (ih hrest _ _).mp hf
      refine ⟨Fin.cases hok hall, ?_⟩
      simp [List.ofFn_succ]
    · rintro ⟨hall, rfl⟩
      refine ⟨f 0, (List.ofFn (Fin.tail f)).flatMap write ++ rest, hall 0, ?_, Fin.tail f, rest,
        (ih hrest _ _).mpr ⟨fun i => hall i.succ, rfl⟩, Fin.cons_self_tail f, rfl⟩
      rw [List.ofFn_succ, List.flatMap_cons, List.append_assoc]
      rfl

theorem Reads.array (h : d.Reads write ok) (n : ℕ) :
    (d.array n).Reads (fun f => (List.ofFn f).flatMap write) fun f => ∀ i, ok (f i) :=
  reads_slots fun _ => h

/-- How an optional value is written. -/
def writeOption (write : α → Bytes) : Option α → Bytes
  | none => leBytes 1 0
  | some a => leBytes 1 1 ++ write a

theorem Reads.option (h : d.Reads write ok) :
    d.option.Reads (writeOption write) fun o => ∀ a ∈ o, ok a := by
  intro input rest o
  rw [Decoder.option, (reads_uint 1).bind_eq_ok]
  constructor
  · rintro ⟨tag, mid, -, rfl, hd⟩
    split at hd
    · obtain ⟨rfl, rfl⟩ := pure_eq_ok.mp hd
      exact ⟨by simp, rfl⟩
    · obtain ⟨a, mid', hok, rfl, ha⟩ := h.bind_eq_ok.mp hd
      obtain ⟨rfl, rfl⟩ := pure_eq_ok.mp ha
      exact ⟨by simpa using hok, (List.append_assoc ..).symm⟩
    · exact absurd hd throw_ne_ok
  · rintro ⟨hok, rfl⟩
    cases o with
    | none => exact ⟨0, rest, by decide, rfl, rfl⟩
    | some a =>
      refine ⟨1, write a ++ rest, by decide, List.append_assoc .., ?_⟩
      exact h.bind_eq_ok.mpr ⟨a, rest, hok a rfl, rfl, rfl⟩

end Decoder

/-! ## Codecs and their combinators -/

/-- An encoder and a decoder of one format. -/
structure Codec (α : Type) where
  encode : α → Except String Bytes
  decode : Decoder α
  decode_encode : ∀ {a bytes}, encode a = .ok bytes → ∀ rest,
    decode (bytes ++ rest) = .ok (a, rest)
  encode_decode : ∀ {input a rest}, decode input = .ok (a, rest) →
    ∃ bytes, encode a = .ok bytes ∧ input = bytes ++ rest

namespace Codec

/-- Unsigned numbers of `width` bytes. -/
def uint (width : ℕ) : Codec ℕ where
  encode n := if n < 256 ^ width then .ok (leBytes width n) else .error "number out of range"
  decode := Decoder.uint width
  decode_encode := by
    intro n bytes h rest
    split at h
    · rename_i hn
      cases h
      exact Decoder.uint_eq_ok.mpr ⟨hn, rfl⟩
    · cases h
  encode_decode := by
    intro input n rest h
    obtain ⟨hn, rfl⟩ := Decoder.uint_eq_ok.mp h
    exact ⟨leBytes width n, if_pos hn, rfl⟩

/-- Nothing at all. -/
def unit : Codec Unit where
  encode _ := .ok []
  decode := return ()
  decode_encode := by
    intro _ bytes h rest
    cases h
    rfl
  encode_decode := by
    intro input _ rest h
    cases h
    exact ⟨[], rfl, rfl⟩

/-- Byte strings of a fixed length. -/
def bytes (n : ℕ) : Codec Bytes where
  encode b := if b.length = n then .ok b else .error "wrong number of bytes"
  decode := Decoder.take n
  decode_encode := by
    intro b bytes h rest
    split at h
    · rename_i hn
      cases h
      exact Decoder.take_eq_ok.mpr ⟨hn, rfl⟩
    · cases h
  encode_decode := by
    intro input b rest h
    obtain ⟨hn, rfl⟩ := Decoder.take_eq_ok.mp h
    exact ⟨b, if_pos hn, rfl⟩

/-- One byte. -/
def byte : Codec (BitVec 8) where
  encode b := .ok (leBytes 1 b.toNat)
  decode := do return BitVec.ofNat 8 (← Decoder.uint 1)
  decode_encode := by
    intro b bytes h rest
    cases h
    rw [bind_pure_comp]
    exact Decoder.map_eq_ok.mpr ⟨b.toNat, Decoder.uint_eq_ok.mpr ⟨b.isLt, rfl⟩, by simp⟩
  encode_decode := by
    intro input b rest h
    rw [bind_pure_comp] at h
    obtain ⟨n, hn, rfl⟩ := Decoder.map_eq_ok.mp h
    obtain ⟨hlt, rfl⟩ := Decoder.uint_eq_ok.mp hn
    have hval : (BitVec.ofNat 8 n).toNat = n := Nat.mod_eq_of_lt hlt
    exact ⟨leBytes 1 n, by rw [hval], rfl⟩

/-- A truth value is the byte zero or one. -/
def bool : Codec Bool where
  encode b := .ok (leBytes 1 b.toNat)
  decode := Decoder.bool
  decode_encode := by
    intro b bytes h rest
    cases h
    have hb : b.toNat < 256 ^ 1 := by cases b <;> decide
    rw [Decoder.bool, Decoder.bind_of_ok (Decoder.uint_eq_ok.mpr ⟨hb, rfl⟩)]
    cases b <;> rfl
  encode_decode := by
    intro input b rest h
    obtain ⟨n, mid, hn, hb⟩ := Decoder.bind_eq_ok.mp h
    obtain ⟨-, rfl⟩ := Decoder.uint_eq_ok.mp hn
    split at hb
    · obtain ⟨rfl, rfl⟩ := Decoder.pure_eq_ok.mp hb
      exact ⟨_, rfl, rfl⟩
    · obtain ⟨rfl, rfl⟩ := Decoder.pure_eq_ok.mp hb
      exact ⟨_, rfl, rfl⟩
    · exact absurd hb Decoder.throw_ne_ok

/-- A format of other values: `get` may refuse a decoded value, `put` takes it back. -/
def via (c : Codec α) (get : α → Except String β) (put : β → Except String α)
    (get_iff : ∀ a b, get a = .ok b ↔ put b = .ok a) : Codec β where
  encode b := do c.encode (← put b)
  decode := do
    let a ← c.decode
    get a
  decode_encode := by
    intro b bytes h rest
    obtain ⟨a, ha, h⟩ := Fallible.bind_eq_ok.mp h
    refine Decoder.bind_eq_ok.mpr ⟨a, rest, c.decode_encode h rest, ?_⟩
    change (get a >>= fun b => .ok (b, rest)) = _
    rw [(get_iff a b).mpr ha]
    rfl
  encode_decode := by
    intro input b rest h
    obtain ⟨a, mid, ha, h⟩ := Decoder.bind_eq_ok.mp h
    obtain ⟨b', hb, h⟩ : ∃ b', get a = .ok b' ∧ Except.ok (b', mid) = .ok (b, rest) :=
      Fallible.bind_eq_ok.mp h
    cases h
    obtain ⟨bytes, hbytes, hin⟩ := c.encode_decode ha
    exact ⟨bytes, by rw [(get_iff a b).mp hb, Fallible.ok_bind, hbytes], hin⟩

/-- Two values in a row. -/
def pair (c : Codec α) (d : Codec β) : Codec (α × β) where
  encode p := do
    let first ← c.encode p.1
    return first ++ (← d.encode p.2)
  decode := do
    let a ← c.decode
    return (a, ← d.decode)
  decode_encode := by
    intro p bytes h rest
    simp only [Fallible.bind_eq_ok, Fallible.pure_eq_ok] at h
    obtain ⟨first, hc, second, hd, rfl⟩ := h
    rw [List.append_assoc]
    refine Decoder.bind_eq_ok.mpr ⟨p.1, second ++ rest, c.decode_encode hc _, ?_⟩
    exact Decoder.bind_eq_ok.mpr ⟨p.2, rest, d.decode_encode hd rest, rfl⟩
  encode_decode := by
    intro input p rest h
    obtain ⟨a, mid, ha, h⟩ := Decoder.bind_eq_ok.mp h
    obtain ⟨b, tail, hb, h⟩ := Decoder.bind_eq_ok.mp h
    obtain ⟨rfl, rfl⟩ := Decoder.pure_eq_ok.mp h
    obtain ⟨first, hc, rfl⟩ := c.encode_decode ha
    obtain ⟨second, hd, rfl⟩ := d.encode_decode hb
    exact ⟨first ++ second, by rw [hc, hd]; rfl, (List.append_assoc ..).symm⟩

/-- The encodings of a list in a row. -/
def encodeAll (c : Codec α) : List α → Except String Bytes
  | [] => .ok []
  | a :: l => do
    let first ← c.encode a
    return first ++ (← c.encodeAll l)

theorem many_encodeAll (c : Codec α) {l : List α} {bytes : Bytes} (h : c.encodeAll l = .ok bytes)
    (rest : Bytes) : Decoder.many c.decode l.length (bytes ++ rest) = .ok (l, rest) := by
  induction l generalizing bytes with
  | nil =>
    cases h
    rfl
  | cons a l ih =>
    simp only [encodeAll, Fallible.bind_eq_ok, Fallible.pure_eq_ok] at h
    obtain ⟨first, hc, second, hl, rfl⟩ := h
    rw [List.append_assoc]
    refine Decoder.bind_eq_ok.mpr ⟨a, second ++ rest, c.decode_encode hc _, ?_⟩
    exact Decoder.bind_eq_ok.mpr ⟨l, rest, ih hl, rfl⟩

theorem encodeAll_many (c : Codec α) {n : ℕ} {input rest : Bytes} {l : List α}
    (h : Decoder.many c.decode n input = .ok (l, rest)) :
    l.length = n ∧ ∃ bytes, c.encodeAll l = .ok bytes ∧ input = bytes ++ rest := by
  induction n generalizing input l with
  | zero =>
    obtain ⟨rfl, rfl⟩ := Decoder.pure_eq_ok.mp h
    exact ⟨rfl, [], rfl, rfl⟩
  | succ n ih =>
    obtain ⟨a, mid, ha, h⟩ := Decoder.bind_eq_ok.mp h
    obtain ⟨l', tail, hl, h⟩ := Decoder.bind_eq_ok.mp h
    obtain ⟨rfl, rfl⟩ := Decoder.pure_eq_ok.mp h
    obtain ⟨first, hc, rfl⟩ := c.encode_decode ha
    obtain ⟨rfl, second, hs, rfl⟩ := ih hl
    exact ⟨rfl, first ++ second, by rw [encodeAll, hc, hs]; rfl, (List.append_assoc ..).symm⟩

/-- A sequence behind its count. -/
def vec (c : Codec α) : Codec (List α) where
  encode l := do
    let count ← (uint 4).encode l.length
    return count ++ (← c.encodeAll l)
  decode := Decoder.vec c.decode
  decode_encode := by
    intro l bytes h rest
    simp only [Fallible.bind_eq_ok, Fallible.pure_eq_ok] at h
    obtain ⟨count, hn, body, hl, rfl⟩ := h
    rw [List.append_assoc]
    exact Decoder.bind_eq_ok.mpr
      ⟨l.length, body ++ rest, (uint 4).decode_encode hn _, c.many_encodeAll hl rest⟩
  encode_decode := by
    intro input l rest h
    obtain ⟨n, mid, hn, hmany⟩ := Decoder.bind_eq_ok.mp h
    obtain ⟨count, hcount, rfl⟩ := (uint 4).encode_decode hn
    obtain ⟨rfl, body, hl, rfl⟩ := c.encodeAll_many hmany
    exact ⟨count ++ body, by rw [hcount, hl]; rfl, (List.append_assoc ..).symm⟩

/-- One value for each of `n` positions. -/
def array (c : Codec α) (n : ℕ) : Codec (Fin n → α) where
  encode f := c.encodeAll (List.ofFn f)
  decode := Decoder.array c.decode n
  decode_encode := by
    induction n with
    | zero =>
      intro f bytes h rest
      cases h
      rw [Subsingleton.elim f Fin.elim0]
      rfl
    | succ n ih =>
      intro f bytes h rest
      rw [List.ofFn_succ] at h
      simp only [encodeAll, Fallible.bind_eq_ok, Fallible.pure_eq_ok] at h
      obtain ⟨first, hc, second, hl, rfl⟩ := h
      rw [List.append_assoc]
      refine Decoder.bind_eq_ok.mpr ⟨f 0, second ++ rest, c.decode_encode hc _, ?_⟩
      exact Decoder.bind_eq_ok.mpr ⟨Fin.tail f, rest, ih hl rest, by rw [Fin.cons_self_tail]; rfl⟩
  encode_decode := by
    induction n with
    | zero =>
      intro input f rest h
      obtain ⟨-, rfl⟩ := Decoder.pure_eq_ok.mp h
      exact ⟨[], rfl, rfl⟩
    | succ n ih =>
      intro input f rest h
      obtain ⟨a, mid, ha, h⟩ := Decoder.bind_eq_ok.mp h
      obtain ⟨f', tail, hf, h⟩ := Decoder.bind_eq_ok.mp h
      obtain ⟨rfl, rfl⟩ := Decoder.pure_eq_ok.mp h
      obtain ⟨first, hc, rfl⟩ := c.encode_decode ha
      obtain ⟨second, hl, rfl⟩ := ih hf
      refine ⟨first ++ second, ?_, (List.append_assoc ..).symm⟩
      rw [List.ofFn_succ, encodeAll]
      simp only [Fin.cons_zero, Fin.cons_succ, hc, hl]
      rfl

/-- A value behind the byte one, or the byte zero. -/
def option (c : Codec α) : Codec (Option α) where
  encode
    | none => .ok (leBytes 1 0)
    | some a => do return leBytes 1 1 ++ (← c.encode a)
  decode := Decoder.option c.decode
  decode_encode := by
    intro o bytes h rest
    cases o with
    | none =>
      cases h
      rw [Decoder.option, Decoder.bind_of_ok (Decoder.uint_eq_ok.mpr ⟨by decide, rfl⟩)]
      rfl
    | some a =>
      simp only [Fallible.bind_eq_ok, Fallible.pure_eq_ok] at h
      obtain ⟨body, hbody, rfl⟩ := h
      rw [List.append_assoc, Decoder.option,
        Decoder.bind_of_ok (Decoder.uint_eq_ok.mpr ⟨by decide, rfl⟩)]
      exact Decoder.bind_eq_ok.mpr ⟨a, rest, c.decode_encode hbody rest, rfl⟩
  encode_decode := by
    intro input o rest h
    obtain ⟨n, mid, hn, hb⟩ := Decoder.bind_eq_ok.mp h
    obtain ⟨-, rfl⟩ := Decoder.uint_eq_ok.mp hn
    split at hb
    · obtain ⟨rfl, rfl⟩ := Decoder.pure_eq_ok.mp hb
      exact ⟨_, rfl, rfl⟩
    · obtain ⟨a, tail, ha, hb⟩ := Decoder.bind_eq_ok.mp hb
      obtain ⟨rfl, rfl⟩ := Decoder.pure_eq_ok.mp hb
      obtain ⟨body, hbody, rfl⟩ := c.encode_decode ha
      exact ⟨leBytes 1 1 ++ body, Fallible.bind_eq_ok.mpr ⟨body, hbody, rfl⟩,
        (List.append_assoc ..).symm⟩
    · exact absurd hb Decoder.throw_ne_ok

/-- Decoding a constructor's argument. -/
theorem map_decode {c : Codec α} {bytes : Bytes} {a : α} (mk : α → β)
    (h : c.encode a = .ok bytes) (rest : Bytes) :
    (mk <$> c.decode) (bytes ++ rest) = .ok (mk a, rest) :=
  Decoder.map_eq_ok.mpr ⟨a, c.decode_encode h rest, rfl⟩

theorem of_map_decode {c : Codec α} {mk : α → β} {input rest : Bytes} {b : β}
    (h : (mk <$> c.decode) input = .ok (b, rest)) :
    ∃ a bytes, mk a = b ∧ c.encode a = .ok bytes ∧ input = bytes ++ rest := by
  obtain ⟨a, ha, rfl⟩ := Decoder.map_eq_ok.mp h
  obtain ⟨bytes, hbytes, rfl⟩ := c.encode_decode ha
  exact ⟨a, bytes, rfl, hbytes, rfl⟩

/-- A whole input decodes to exactly the value it encodes. -/
theorem run_eq_ok (c : Codec α) {a : α} {input : Bytes} :
    Decoder.run c.decode input = .ok a ↔ c.encode a = .ok input := by
  rw [Decoder.run_eq_ok]
  constructor
  · intro h
    obtain ⟨bytes, hbytes, rfl⟩ := c.encode_decode h
    rwa [List.append_nil]
  · intro h
    have hdec := c.decode_encode h []
    rwa [List.append_nil] at hdec

/-- An encoding is of one value. -/
theorem encode_inj (c : Codec α) {a a' : α} {bytes : Bytes} (h : c.encode a = .ok bytes)
    (h' : c.encode a' = .ok bytes) : a = a' := by
  have hdec := c.decode_encode h []
  rw [c.decode_encode h' []] at hdec
  cases hdec
  rfl

theorem pair_encode_eq_ok {c : Codec α} {d : Codec β} {p : α × β} {bytes : Bytes} :
    (c.pair d).encode p = .ok bytes ↔ ∃ first second, c.encode p.1 = .ok first ∧
      d.encode p.2 = .ok second ∧ bytes = first ++ second := by
  change (do let first ← c.encode p.1; return first ++ (← d.encode p.2)) = _ ↔ _
  simp only [Fallible.bind_eq_ok, Fallible.pure_eq_ok]
  constructor
  · rintro ⟨first, hc, second, hd, rfl⟩
    exact ⟨first, second, hc, hd, rfl⟩
  · rintro ⟨first, second, hc, hd, rfl⟩
    exact ⟨first, hc, second, hd, rfl⟩

end Codec

/-- A format per tag: the payload of a value, and the payload decoder of a tag. -/
structure TaggedCodec (α : Type) where
  tagOf : α → ℕ
  payload : α → Except String Bytes
  ofPayload : ℕ → Decoder α
  tagOf_lt : ∀ a, tagOf a < 256
  ofPayload_payload : ∀ {a bytes}, payload a = .ok bytes → ∀ rest,
    ofPayload (tagOf a) (bytes ++ rest) = .ok (a, rest)
  payload_ofPayload : ∀ {tag input a rest}, ofPayload tag input = .ok (a, rest) →
    tagOf a = tag ∧ ∃ bytes, payload a = .ok bytes ∧ input = bytes ++ rest

namespace TaggedCodec

/-- A payload behind its tag. -/
def codec (c : TaggedCodec α) : Codec α where
  encode a := do
    let body ← c.payload a
    return leBytes 1 (c.tagOf a) ++ body
  decode := do
    let tag ← Decoder.uint 1
    c.ofPayload tag
  decode_encode := by
    intro a bytes h rest
    simp only [Fallible.bind_eq_ok, Fallible.pure_eq_ok] at h
    obtain ⟨body, hbody, rfl⟩ := h
    rw [List.append_assoc]
    refine Decoder.bind_eq_ok.mpr ⟨c.tagOf a, body ++ rest, ?_, c.ofPayload_payload hbody rest⟩
    exact Decoder.uint_eq_ok.mpr ⟨c.tagOf_lt a, rfl⟩
  encode_decode := by
    intro input a rest h
    obtain ⟨tag, mid, htag, hpayload⟩ := Decoder.bind_eq_ok.mp h
    obtain ⟨-, rfl⟩ := Decoder.uint_eq_ok.mp htag
    obtain ⟨rfl, body, hbody, rfl⟩ := c.payload_ofPayload hpayload
    exact ⟨leBytes 1 (c.tagOf a) ++ body, by rw [hbody]; rfl, (List.append_assoc ..).symm⟩

end TaggedCodec

end TexasPoker
