import TexasPoker.Lib.Codec
import TexasPoker.Runtime.Dispatch

/-! # Field codecs

The derived codecs of the data inside seats and hand phases. A stored seat keeps what its
bytes say: a hand of any length over two card bytes, a session key under any tag.
-/

namespace TexasPoker.Wire

variable {G : Type}

/-! ## Addresses -/

/-- Take one more byte into an address. -/
def shiftIn (a : Address) (b : BitVec 8) : Address := a <<< 8 ||| b.setWidth 160

theorem toNat_shiftIn {a : Address} {b : BitVec 8} (ha : a.toNat < 256 ^ 19) :
    (shiftIn a b).toNat = b.toNat + 256 * a.toNat := by
  have hb := b.isLt
  rw [shiftIn, BitVec.toNat_or, BitVec.toNat_shiftLeft, BitVec.toNat_setWidth,
    Nat.mod_eq_of_lt (by omega : b.toNat < 2 ^ 160), Nat.shiftLeft_eq,
    Nat.mod_eq_of_lt (by omega : a.toNat * 2 ^ 8 < 2 ^ 160), Nat.mul_comm,
    ← Nat.two_pow_add_eq_or_of_lt hb]
  omega

/-- The bytes of an address come in big-endian order. -/
theorem toNat_foldl_shiftIn {bytes : Bytes} (h : bytes.length ≤ 20) :
    (bytes.foldl shiftIn 0).toNat = leValue bytes.reverse := by
  induction bytes using List.reverseRecOn with
  | nil => rfl
  | append_singleton bytes b ih =>
    rw [List.length_append, List.length_singleton] at h
    have hval := ih (by omega)
    have hlt : leValue bytes.reverse < 256 ^ 19 := by
      refine lt_of_lt_of_le (leValue_lt _) ?_
      rw [List.length_reverse]
      exact Nat.pow_le_pow_right (by decide) (by omega)
    rw [List.foldl_concat, toNat_shiftIn (by rw [hval]; exact hlt), hval, List.reverse_concat]
    rfl

theorem readAddress_eq_ok {input rest : Bytes} {a : Address} :
    readAddress input = .ok (a, rest) ↔ input = (leBytes 20 a.toNat).reverse ++ rest := by
  have hlt : a.toNat < 256 ^ 20 := a.isLt
  rw [readAddress, bind_pure_comp, Decoder.map_eq_ok]
  constructor
  · rintro ⟨bytes, hb, rfl⟩
    obtain ⟨hlen, rfl⟩ := Decoder.take_eq_ok.mp hb
    have hval : (bytes.foldl shiftIn 0).toNat = _ := toNat_foldl_shiftIn hlen.le
    have hrev : leBytes 20 (bytes.foldl shiftIn 0).toNat = bytes.reverse := by
      rw [leBytes_eq_iff (BitVec.isLt _), List.length_reverse, hval]
      exact ⟨hlen, rfl⟩
    change _ = (leBytes 20 (bytes.foldl shiftIn 0).toNat).reverse ++ rest
    rw [hrev, List.reverse_reverse]
  · rintro rfl
    have hlen : (leBytes 20 a.toNat).reverse.length = 20 := by simp
    refine ⟨_, Decoder.take_eq_ok.mpr ⟨hlen, rfl⟩, ?_⟩
    apply BitVec.eq_of_toNat_eq
    change ((leBytes 20 a.toNat).reverse.foldl shiftIn 0).toNat = _
    rw [toNat_foldl_shiftIn hlen.le, List.reverse_reverse, leValue_leBytes, Nat.mod_eq_of_lt hlt]

/-- The 20 bytes of an address. -/
def address : Codec Address where
  encode a := .ok (leBytes 20 a.toNat).reverse
  decode := readAddress
  decode_encode := by
    intro a bytes h rest
    cases h
    exact readAddress_eq_ok.mpr rfl
  encode_decode := by
    intro input a rest h
    exact ⟨_, rfl, readAddress_eq_ok.mp h⟩

/-! ## Seats -/

/-- A card is one byte, valid or not. -/
def card : Codec Card :=
  (Codec.uint 1).via (fun index => .ok ⟨index⟩) (fun c => .ok c.index) (by
    rintro index ⟨index'⟩
    simp [eq_comm])

/-- Two card bytes with a length that need not fit them. -/
structure HoleCards where
  len : ℕ
  cards : Card × Card
  deriving DecidableEq, Repr

def holeCards : Codec HoleCards :=
  ((Codec.uint 1).pair (card.pair card)).via (fun p => .ok ⟨p.1, p.2⟩)
    (fun h => .ok (h.len, h.cards)) (by
    rintro ⟨len, cards⟩ ⟨len', cards'⟩
    simp [eq_comm])

/-- A session key under any tag. -/
structure StarkTxPubkey where
  tag : ℕ
  raw : Bytes
  deriving DecidableEq, Repr

def starkTxPubkey : Codec StarkTxPubkey :=
  ((Codec.uint 1).pair (Codec.bytes 32)).via (fun p => .ok ⟨p.1, p.2⟩)
    (fun k => .ok (k.tag, k.raw)) (by
    rintro ⟨tag, raw⟩ ⟨tag', raw'⟩
    simp [eq_comm])

/-- Identity and custody data of an occupied seat. -/
structure OccupiedSeat (G : Type) where
  player : Address
  stack : ℕ
  pk : G
  txPk : StarkTxPubkey
  pendingAddon : ℕ
  timeBankMs : ℕ
  deriving DecidableEq

def occupiedSeat (point : Codec G) : Codec (OccupiedSeat G) :=
  (address.pair ((Codec.uint 8).pair (point.pair (starkTxPubkey.pair
    ((Codec.uint 8).pair (Codec.uint 4)))))).via
    (fun p => .ok ⟨p.1, p.2.1, p.2.2.1, p.2.2.2.1, p.2.2.2.2.1, p.2.2.2.2.2⟩)
    (fun o => .ok (o.player, o.stack, o.pk, o.txPk, o.pendingAddon, o.timeBankMs)) (by
    rintro ⟨player, stack, pk, txPk, pendingAddon, timeBankMs⟩ o
    cases o
    simp [eq_comm])

def playingSeatStatus : Codec PlayingSeatStatus :=
  (Codec.uint 1).via
    (fun tag => match tag with
      | 0 => .ok .active
      | 1 => .ok .folded
      | 2 => .ok .allIn
      | tag => .error s!"Unexpected variant tag: {tag}")
    (fun status => match status with
      | .active => .ok 0
      | .folded => .ok 1
      | .allIn => .ok 2) (by
    intro tag status
    constructor
    · intro h
      split at h <;> cases h <;> rfl
    · intro h
      cases status <;> cases h <;> rfl)

/-- Data of a player of the current hand. -/
structure PlayingSeat (G : Type) where
  occupied : OccupiedSeat G
  hand : HoleCards
  bet : ℕ
  totalBet : ℕ
  status : PlayingSeatStatus
  deriving DecidableEq

def playingSeat (point : Codec G) : Codec (PlayingSeat G) :=
  ((occupiedSeat point).pair (holeCards.pair ((Codec.uint 8).pair
    ((Codec.uint 8).pair playingSeatStatus)))).via
    (fun p => .ok ⟨p.1, p.2.1, p.2.2.1, p.2.2.2.1, p.2.2.2.2⟩)
    (fun s => .ok (s.occupied, s.hand, s.bet, s.totalBet, s.status)) (by
    rintro ⟨occupied, hand, bet, totalBet, status⟩ s
    cases s
    simp [eq_comm])

/-! ## Phases -/

/-- Sets of seats are 16-bit masks. -/
def seatMask : Codec SeatMask :=
  (Codec.uint 2).via (fun n => if n < 2 ^ 16 then .ok (BitVec.ofNat 16 n) else .error "mask out of range")
    (fun m => .ok m.toNat) (by
    intro n m
    constructor
    · intro h
      split at h
      · rename_i hn
        cases h
        rw [BitVec.toNat_ofNat, Nat.mod_eq_of_lt hn]
      · cases h
    · intro h
      cases h
      simp [m.isLt])

def shuffleState : Codec ShuffleState :=
  (seatMask.pair seatMask).via (fun p => .ok ⟨p.1, p.2⟩)
    (fun s => .ok (s.pendingMask, s.completedMask)) (by
    rintro ⟨pending, completed⟩ s
    cases s
    simp [eq_comm])

def reconstructState : Codec ReconstructState :=
  seatMask.via (fun mask => .ok ⟨mask⟩) (fun s => .ok s.pendingMask) (by
    rintro mask ⟨mask'⟩
    simp [eq_comm])

def bettingRound : Codec BettingRound :=
  ((Codec.uint 8).pair (Codec.uint 8)).via (fun p => .ok ⟨p.1, p.2⟩)
    (fun r => .ok (r.currentBet, r.minRaise)) (by
    rintro ⟨currentBet, minRaise⟩ r
    cases r
    simp [eq_comm])

def revealTarget : TaggedCodec RevealTarget where
  tagOf
    | .hole .. => 0
    | .board .. => 1
  payload
    | .hole seatIndex cardSlot => ((Codec.uint 1).pair (Codec.uint 1)).encode (seatIndex, cardSlot)
    | .board runoutIndex boardPosition =>
      ((Codec.uint 1).pair (Codec.uint 1)).encode (runoutIndex, boardPosition)
  ofPayload
    | 0 => (fun p => .hole p.1 p.2) <$> ((Codec.uint 1).pair (Codec.uint 1)).decode
    | 1 => (fun p => .board p.1 p.2) <$> ((Codec.uint 1).pair (Codec.uint 1)).decode
    | tag => throw s!"Unexpected variant tag: {tag}"
  tagOf_lt := by
    intro target
    cases target <;> simp
  ofPayload_payload := by
    intro target bytes h
    cases target with
    | hole seatIndex cardSlot => exact Codec.map_decode _ h
    | board runoutIndex boardPosition => exact Codec.map_decode _ h
  payload_ofPayload := by
    intro tag input target rest h
    split at h
    · obtain ⟨p, bytes, rfl, henc, hin⟩ := Codec.of_map_decode h
      exact ⟨rfl, bytes, henc, hin⟩
    · obtain ⟨p, bytes, rfl, henc, hin⟩ := Codec.of_map_decode h
      exact ⟨rfl, bytes, henc, hin⟩
    · exact absurd h Decoder.throw_ne_ok

def revealPurpose : Codec RevealPurpose :=
  (Codec.uint 1).via
    (fun tag => match tag with
      | 1 => .ok .dealHole
      | 2 => .ok .board
      | 3 => .ok .showdownOwner
      | tag => .error s!"Unexpected variant tag: {tag}")
    (fun purpose => match purpose with
      | .dealHole => .ok 1
      | .board => .ok 2
      | .showdownOwner => .ok 3) (by
    intro tag purpose
    constructor
    · intro h
      split at h <;> cases h <;> rfl
    · intro h
      cases purpose <;> cases h <;> rfl)

def revealAssignment (point : Codec G) : Codec (RevealAssignment G) :=
  ((Codec.uint 1).pair (revealTarget.codec.pair (seatMask.pair
    (seatMask.pair point.vec)))).via
    (fun p => .ok ⟨p.1, p.2.1, p.2.2.1, p.2.2.2.1, p.2.2.2.2⟩)
    (fun a => .ok (a.encryptedCardIndex, a.target, a.pendingMask, a.submittedMask,
      a.revealTokens)) (by
    rintro ⟨index, target, pending, submitted, tokens⟩ a
    cases a
    simp [eq_comm])

def revealTokenState (point : Codec G) : Codec (RevealTokenState G) :=
  (revealPurpose.pair (revealAssignment point).vec).via (fun p => .ok ⟨p.1, p.2⟩)
    (fun s => .ok (s.purpose, s.assignments)) (by
    rintro ⟨purpose, assignments⟩ s
    cases s
    simp [eq_comm])

def shufflingPhase (point : Codec G) : TaggedCodec (ShufflingPhase G) where
  tagOf
    | .initial .. => 0
    | .reconstruct .. => 1
  payload
    | .initial state deadlineMs => (shuffleState.pair (Codec.uint 8)).encode (state, deadlineMs)
    | .reconstruct street state suspendedReveal deadlineMs =>
      ((Codec.uint 1).pair (shuffleState.pair ((revealTokenState point).pair
        (Codec.uint 8)))).encode (street, state, suspendedReveal, deadlineMs)
  ofPayload
    | 0 => (fun p => .initial p.1 p.2) <$> (shuffleState.pair (Codec.uint 8)).decode
    | 1 => (fun p => .reconstruct p.1 p.2.1 p.2.2.1 p.2.2.2) <$>
      ((Codec.uint 1).pair (shuffleState.pair ((revealTokenState point).pair
        (Codec.uint 8)))).decode
    | tag => throw s!"Unexpected variant tag: {tag}"
  tagOf_lt := by
    intro phase
    cases phase <;> simp
  ofPayload_payload := by
    intro phase bytes h
    cases phase with
    | initial state deadlineMs => exact Codec.map_decode _ h
    | reconstruct street state suspendedReveal deadlineMs => exact Codec.map_decode _ h
  payload_ofPayload := by
    intro tag input phase rest h
    split at h
    · obtain ⟨p, bytes, rfl, henc, hin⟩ := Codec.of_map_decode h
      exact ⟨rfl, bytes, henc, hin⟩
    · obtain ⟨p, bytes, rfl, henc, hin⟩ := Codec.of_map_decode h
      exact ⟨rfl, bytes, henc, hin⟩
    · exact absurd h Decoder.throw_ne_ok

end TexasPoker.Wire
