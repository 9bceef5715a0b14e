import Mathlib.Data.ZMod.Basic
import TexasPoker.Wire.Totality

/-! # Agreement of the two encodings

The hot and the resolved encoding of a table are both there when the table can be stored, and
both give it back.
-/

namespace TexasPoker.Wire

open Fallible

variable {G H D : Type} {w : Table G}

/-! ## What can be stored -/

theorem writes_record {α : Type} {c : TaggedCodec α} {width n : ℕ} {hmax : width ≤ u32Max} {v : α}
    (h : c.Writes v n) (hfits : recordFits n width = true) :
    (Record.format c width hmax).Writes v width := by
  obtain ⟨body, hbody, rfl⟩ := h
  rw [recordFits, decide_eq_true_eq] at hfits
  have hbuf : (Record.buffer c v body []).length + 4 ≤ width := by
    simp only [Record.buffer, List.length_append, length_leBytes, List.length_nil]
    omega
  have hout := Record.serialize_eq_ok.mpr ⟨body, hbody, hbuf, by omega, rfl⟩
  exact ⟨_, hout, length_frame hbuf⟩

variable [AddCommGroup G] [DecidableEq G] {point : Codec G} (hpoint : ∀ g, point.Writes g 32)

include hpoint

/-- A canonical table whose phase fits its record is written behind any header that is. -/
theorem writes_persisted {header : Codec H} {value : H} {n : ℕ} (version : ℕ)
    (hheader : header.Writes value n) (hversion : version < 2 ^ 8) (hw : w.Canonical)
    (hs : w.Sized) (hfits : recordFits (w.handPhase.payloadLen 32) handPhaseRecordWidth = true) :
    ∃ n, (persisted header point).Writes
      (.ofTable w version value (activeSeats w) w.handPhase) n := by
  have hseats : (Record.format (seat point) seatRecordWidth (by decide)).vec.Writes (activeSeats w)
      (4 + ((activeSeats w).map fun _ => seatRecordWidth).sum) := by
    refine Codec.Writes.vec _ ?_ fun s hmem => ?_
    · rw [length_activeSeats hw.maxPlayers_le]
      exact lt_of_le_of_lt hw.maxPlayers_le (by decide)
    · obtain ⟨i, rfl⟩ := (List.mem_ofFn' _ _).mp (List.mem_of_mem_take hmem)
      exact writes_record (writes_seat hpoint (hs.seats i))
        (w.seats i).view.recordFits_payloadLen
  obtain ⟨_, hboard⟩ := writes_boardCards hs.board
  obtain ⟨_, hdeck⟩ := writes_deckState hpoint hs.deck hw.schema.accumulated
  obtain ⟨_, hruns⟩ := writes_runItTwiceState hs.runs
  have hphase : (Record.format (handPhase point) handPhaseRecordWidth (by decide)).Writes
      w.handPhase handPhaseRecordWidth := writes_record (writes_handPhase hpoint hs.phase hfits) hfits
  have hhead := (writes_objectID hs.id).pair
    ((Codec.writes_uint 1 hversion).pair hheader)
  have hflags := (writes_seatMask w.actedMask).pair ((writes_seatMask w.leaveAfterHandMask).pair
    ((Codec.writes_uint 1 hs.button).pair
      ((Codec.writes_uint 1 hs.lastBbSeat).pair
        ((Codec.writes_uint 8 hs.pot).pair hboard))))
  have htail := hdeck.pair ((Codec.writes_uint 8 hs.chipPool).pair
    (hruns.codec.pair ((Codec.writes_uint 4 hs.handId).pair
      (Codec.writes_uint 4 hs.callSeq))))
  obtain ⟨bytes, henc, -⟩ := hhead.pair (hseats.pair (hflags.pair (hphase.pair htail)))
  exact ⟨_, bytes, bind_eq_ok.mpr ⟨_, rfl, henc⟩, rfl⟩

/-- A resolved table can be stored when its phase fits its record. -/
theorem exists_encodeTableState (hw : w.Canonical) (hs : w.Sized)
    (hfits : recordFits (w.handPhase.payloadLen 32) handPhaseRecordWidth = true) :
    ∃ bytes, encodeTableState point w = .ok bytes := by
  obtain ⟨_, hrules⟩ := writes_tableRules hs.rules
  obtain ⟨_, bytes, henc, -⟩ := writes_persisted hpoint tableStateSchemaVersion
    ((writes_address w.creator).pair hrules) (by decide) hw hs hfits
  exact ⟨bytes, encodeTableState_eq_ok.mpr ⟨hw, henc⟩⟩

omit hpoint [AddCommGroup G] [DecidableEq G] in
/-- One binding of a table is made, and can be written. -/
theorem exists_contextDigest {b : Blake2b D} (hdigest : ∀ d, ∃ n, b.codec.Writes d n) {α : Type}
    {c : Codec α} {value : α} {n : ℕ} (tableId : ObjectID) (domain : Bytes) (h : c.Writes value n) :
    ∃ d, b.contextDigest tableId domain c value = .ok d ∧ ∃ n, (tableContextBinding b.codec).Writes
      ⟨b.deriveContextObjectId tableId domain, d⟩ n := by
  obtain ⟨bytes, henc, -⟩ := h
  refine ⟨b.hash (domain ++ Blake2b.idBytes tableId ++ bytes), ?_, ?_⟩
  · rw [Blake2b.contextDigest, henc]
    rfl
  · obtain ⟨n, hn⟩ := hdigest (b.hash (domain ++ Blake2b.idBytes tableId ++ bytes))
    have hid : (b.deriveContextObjectId tableId domain).Sized := Nat.two_pow_pos 64
    exact ⟨_, ((writes_objectID hid).pair hn).via rfl⟩

omit hpoint in
/-- A canonical table with a creator has bindings that can be written. -/
theorem exists_tableContextBindings {b : Blake2b D} (hdigest : ∀ d, ∃ n, b.codec.Writes d n)
    (hw : w.Canonical) (hs : w.Sized) (hcreator : w.creator ≠ emptyPlayer) :
    ∃ context, b.tableContextBindings w.id (.fromTable w) = .ok context ∧
      ∃ n, (tableContextBindings b.codec).Writes context n := by
  obtain ⟨_, hrules⟩ := writes_tableRules hs.rules
  have hopen : (TableContextOpenings.fromTable w).validateCanonical = .ok () :=
    bind_eq_ok.mpr ⟨(), hw.schema.rules, ensure_eq_ok.mpr hcreator⟩
  obtain ⟨rules, hr, _, hwr⟩ :=
    exists_contextDigest hdigest w.id Blake2b.rulesContextDomain hrules
  obtain ⟨governance, hg, _, hwg⟩ :=
    exists_contextDigest hdigest w.id Blake2b.governanceContextDomain (writes_address w.creator)
  refine ⟨_, bind_eq_ok.mpr ⟨(), hopen, bind_eq_ok.mpr ⟨rules, hr, bind_eq_ok.mpr
    ⟨governance, hg, rfl⟩⟩⟩, _, (hwr.pair hwg).via rfl⟩

/-- A hot table can be stored when it has a creator too. -/
theorem exists_encodeHotTableState {b : Blake2b D} (hdigest : ∀ d, ∃ n, b.codec.Writes d n)
    (hw : w.Canonical) (hs : w.Sized)
    (hfits : recordFits (w.handPhase.payloadLen 32) handPhaseRecordWidth = true)
    (hcreator : w.creator ≠ emptyPlayer) : ∃ bytes, encodeHotTableState point b w = .ok bytes := by
  obtain ⟨context, hcontext, _, hheader⟩ := exists_tableContextBindings hdigest hw hs hcreator
  obtain ⟨_, bytes, henc, -⟩ := writes_persisted hpoint hotStateSchemaVersion
    hheader (by decide) hw hs hfits
  exact ⟨bytes, encodeHotTableState_eq_ok.mpr ⟨hw, context, hcontext, henc⟩⟩

/-! ## Both encodings -/

omit hpoint [AddCommGroup G] [DecidableEq G] in
/-- Only a slot beyond the seats that is not fresh keeps a table from coming back as it was. -/
theorem padded_eq_iff : w.padded = w ↔
    ∀ i : Fin maxSeats, w.rules.maxPlayers ≤ i.1 → w.seats i = .empty := by
  have hslot (i : Fin maxSeats) : w.padded.seats i = w.seats i ↔
      (w.rules.maxPlayers ≤ i.1 → w.seats i = .empty) := by
    change (if _ then _ else _) = _ ↔ _
    split
    · rename_i hi
      exact ⟨fun _ hle => absurd hle hi.not_ge, fun _ => rfl⟩
    · rename_i hi
      exact ⟨fun h _ => h.symm, fun h => (h (not_lt.mp hi)).symm⟩
  constructor
  · intro h i
    exact (hslot i).mp (congrFun (congrArg Table.seats h) i)
  · intro h
    have hseats : w.padded.seats = w.seats := funext fun i => (hslot i).mpr (h i)
    cases w
    exact congrArg (fun seats => Table.mk _ _ _ seats _ _ _ _ _ _ _ _ _ _ _ _) hseats

/-- A table that passes the schema is stored when its phase fits its record, hot when it has a
creator too. Both encodings give it back, with fresh slots beyond its configured seats; a hot one
opens with the table's own rules and creator only. Bytes that a decoder accepts are the encoding of
what it gives exactly when every record in them is read to its end. -/
theorem table_encodings_agree [DecidableEq D] {b : Blake2b D} (hhash : Function.Injective b.hash)
    (hdigest : ∀ d, ∃ n, b.codec.Writes d n) (w : Table G) :
    (w.validateStateSchema = .ok () → w.Sized →
      recordFits (w.handPhase.payloadLen 32) handPhaseRecordWidth = true →
        (∃ bytes, encodeTableState point w = .ok bytes) ∧
          (w.creator ≠ emptyPlayer → ∃ bytes, encodeHotTableState point b w = .ok bytes)) ∧
      ∀ bytes, (encodeTableState point w = .ok bytes → decodeTableState point bytes = .ok w.padded) ∧
        (encodeHotTableState point b w = .ok bytes → ∀ o w',
          decodeHotTableState point b bytes o = .ok w' ↔ o = .fromTable w ∧ w' = w.padded) ∧
        (decodeTableState point bytes = .ok w → (encodeTableState point w = .ok bytes ↔
          ∃ v, (persistedTexasPokerTable point).decode bytes = .ok (v, []))) ∧
        ∀ o, decodeHotTableState point b bytes o = .ok w →
          (encodeHotTableState point b w = .ok bytes ↔
            ∃ v, (persistedTexasPokerHotTable b.codec point).decode bytes = .ok (v, [])) := by
  constructor
  · intro hschema hs hfits
    have hw := Table.validateStateSchema_eq_ok.mp hschema
    exact ⟨exists_encodeTableState hpoint hw hs hfits,
      exists_encodeHotTableState hpoint hdigest hw hs hfits⟩
  · intro bytes
    refine ⟨decode_encodeTableState, fun h o w' => decode_encodeHotTableState hhash h, fun h => ?_,
      fun o h => ?_⟩
    · constructor
      · intro henc
        have hdec := (persistedTexasPokerTable point).decode_encode
          (encodeTableState_eq_ok.mp henc).2 []
        rw [List.append_nil] at hdec
        exact ⟨_, hdec⟩
      · rintro ⟨v, hwhole⟩
        exact encode_decodeTableState h hwhole
    · constructor
      · intro henc
        obtain ⟨-, context, -, henc⟩ := encodeHotTableState_eq_ok.mp henc
        have hdec := (persistedTexasPokerHotTable b.codec point).decode_encode henc []
        rw [List.append_nil] at hdec
        exact ⟨_, hdec⟩
      · rintro ⟨v, hwhole⟩
        exact encode_decodeHotTableState h hwhole

omit hpoint

/-! ## Tables of a small group -/

/-- Points of thirty-two bytes. -/
def zmodPoint : Codec (ZMod 13) :=
  (Codec.uint 32).via (fun n => if n < 13 then .ok (n : ZMod 13) else .error "not reduced")
    (fun z => .ok z.val) (by
    intro n z
    constructor
    · intro h
      split at h
      · rename_i hn
        cases h
        exact congrArg Except.ok (ZMod.val_cast_of_lt hn)
      · cases h
    · intro h
      cases h
      rw [if_pos z.val_lt, ZMod.natCast_zmod_val])

theorem writes_zmodPoint (z : ZMod 13) : zmodPoint.Writes z 32 :=
  (Codec.writes_uint 32 (z.val_lt.trans (by decide))).via rfl

/-- Every byte behind the byte one, and the byte zero at the end. -/
def writeMarked : Bytes → Bytes
  | [] => [0]
  | b :: bytes => 1 :: b :: writeMarked bytes

def readMarked : Bytes → Except String (Bytes × Bytes)
  | [] => .error "unexpected end of input"
  | [mark] => if mark = 0 then .ok ([], []) else .error "unexpected end of input"
  | mark :: b :: rest =>
    if mark = 0 then .ok ([], b :: rest)
    else if mark = 1 then do
      let p ← readMarked rest
      return (b :: p.1, p.2)
    else .error "unknown mark"

/-- Byte strings of any length. -/
def marked : Codec Bytes where
  encode bytes := .ok (writeMarked bytes)
  decode := readMarked
  decode_encode := by
    intro value bytes h rest
    cases h
    induction value with
    | nil => cases rest <;> rfl
    | cons b value ih =>
      change (if (1 : BitVec 8) = 0 then _ else if (1 : BitVec 8) = 1 then _ else _) = _
      rw [if_neg (by decide), if_pos rfl]
      exact bind_eq_ok.mpr ⟨(value, rest), ih, rfl⟩
  encode_decode := by
    intro input value rest h
    refine ⟨_, rfl, ?_⟩
    induction input using readMarked.induct generalizing value with
    | case1 => cases h
    | case2 =>
      cases h
      rfl
    | case3 mark hmark =>
      rw [readMarked, if_neg hmark] at h
      cases h
    | case4 b rest' =>
      rw [readMarked, if_pos rfl] at h
      cases h
      rfl
    | case5 b rest' _ ih =>
      rw [readMarked, if_neg (by decide), if_pos rfl, bind_eq_ok] at h
      obtain ⟨p, hp, h⟩ := h
      cases h
      rw [ih hp]
      rfl
    | case6 mark b rest' h0 h1 =>
      rw [readMarked, if_neg h0, if_neg h1] at h
      cases h

/-- The bytes themselves in place of their hash. -/
def bytesHash : Blake2b Bytes where
  hash := id
  creatorAddress bytes := (bytes.take 20).foldl shiftIn 0
  codec := marked

/-- A table with the given slots, cards and phase. -/
def storedTable (creator : Address) (maxPlayers : ℕ) (seats : Fin maxSeats → Seat (ZMod 13))
    (board : BoardCards) (handPhase : HandPhase (ZMod 13)) : Table (ZMod 13) where
  id := ⟨7, 0⟩
  creator
  rules := .new maxPlayers 50 100
  seats
  actedMask := 0
  leaveAfterHandMask := 0
  button := 0
  lastBbSeat := noSeat
  pot := 0
  communityCards := board
  handPhase
  deckState := .new
  chipPool := 0
  runItTwiceState := .single
  handId := 0
  callSeq := 0

def noCards : BoardCards := ⟨0, fun _ => Card.padding⟩

/-- A slot beyond two seats whose time bank is not the default one. -/
def spentSlot : Table (ZMod 13) :=
  storedTable 7 2 (fun i => if i.1 = 8 then .vacant 0 else .empty) noCards .waiting

/-- Nine hands of two cards are dealt, and eight tokens for each card are there. -/
def crowdedReveal : Table (ZMod 13) :=
  storedTable 7 9 (fun _ => .empty) noCards <| .revealing roundPreflop ⟨.dealHole,
    (List.range 18).map fun n => ⟨n, .hole (n / 2) (n % 2), 0, 255, List.replicate 8 1⟩⟩ 1000000

/-- The schema lets through a slot that does not come back, a table without a creator and a reveal
that is too long for its record. -/
theorem schema_is_not_enough :
    (∃ bytes, spentSlot.validateStateSchema = .ok () ∧
      encodeTableState zmodPoint spentSlot = .ok bytes ∧
        decodeTableState zmodPoint bytes ≠ .ok spentSlot) ∧
    (∃ w : Table (ZMod 13), w.validateStateSchema = .ok () ∧
      (encodeHotTableState zmodPoint bytesHash w).isOk = false) ∧
    crowdedReveal.validateStateSchema = .ok () ∧
      (encodeTableState zmodPoint crowdedReveal).isOk = false := by
  have hpassed {w : Table (ZMod 13)} (h : w.validateStateSchema.isOk = true) :
      w.validateStateSchema = .ok () := by
    obtain ⟨_, h⟩ := isOk_iff.mp h
    exact h
  refine ⟨?_, ⟨storedTable emptyPlayer 2 (fun _ => .empty) noCards .waiting, ?_, ?_⟩, ?_, ?_⟩
  · have henc : (encodeTableState zmodPoint spentSlot).isOk = true := by decide +kernel
    obtain ⟨bytes, hbytes⟩ := isOk_iff.mp henc
    refine ⟨bytes, hpassed (by decide +kernel), hbytes, fun h => ?_⟩
    rw [decode_encodeTableState hbytes] at h
    have hslot := padded_eq_iff.mp (Except.ok.inj h) 8 (by decide)
    exact absurd hslot (by decide)
  · exact hpassed (by decide +kernel)
  · decide +kernel
  · exact hpassed (by decide +kernel)
  · decide +kernel

/-- A player with a hundred chips in the pot. -/
def flopSeat (player : Address) (pk : ZMod 13) : Seat (ZMod 13) :=
  .playing ⟨⟨player, 900, pk, ⟨1, List.replicate 32 1⟩, 0, 25000⟩, ⟨0, Card.padding, Card.padding⟩,
    0, 100, .active⟩

/-- Two players bet on the flop. -/
def flopForTwo : Table (ZMod 13) :=
  storedTable 7 2 (fun i => if i.1 = 0 then flopSeat 1 2 else if i.1 = 1 then flopSeat 2 3 else .empty)
    ⟨3, fun i => if i.1 < 3 then ⟨10 * i.1⟩ else Card.padding⟩
    (.betting roundFlop ⟨0, 100⟩ 1 1000000)

theorem flopForTwo_sized : flopForTwo.Sized where
  id := by decide
  rules := ⟨by decide, by decide, ⟨by decide, by decide, by decide, by decide, by decide⟩, by decide,
    by decide, by decide, by decide, by decide, by decide⟩
  seats i := by
    have hseat (player : Address) (pk : ZMod 13) : (flopSeat player pk).Sized :=
      ⟨⟨(by decide : 900 < 2 ^ 64), ⟨(by decide : 1 < 2 ^ 8), rfl⟩, Nat.two_pow_pos 64,
        (by decide : 25000 < 2 ^ 32)⟩, ⟨Nat.two_pow_pos 8, (by decide : Card.padding.Sized),
          (by decide : Card.padding.Sized)⟩, Nat.two_pow_pos 64, (by decide : 100 < 2 ^ 64)⟩
    change (if _ then _ else if _ then _ else _ : Seat (ZMod 13)).Sized
    split
    · exact hseat 1 2
    · split
      · exact hseat 2 3
      · exact (by decide : defaultTimeBankMs < 2 ^ 32)
  button := by decide
  lastBbSeat := by decide
  pot := by decide
  board := ⟨by decide, by decide⟩
  phase := ⟨by decide, by decide, by decide, by decide⟩
  deck := ⟨by decide, fun _ _ _ hc => by cases hc⟩
  chipPool := by decide
  runs := trivial
  handId := by decide
  callSeq := by decide

/-- A hand on the flop is stored hot and comes back under its own rules. -/
theorem flopForTwo_opens : ∃ bytes, encodeHotTableState zmodPoint bytesHash flopForTwo = .ok bytes ∧
    decodeHotTableState zmodPoint bytesHash bytes (.fromTable flopForTwo) = .ok flopForTwo := by
  have hmarked : ∀ d, ∃ n, bytesHash.codec.Writes d n := fun d => ⟨_, _, rfl, rfl⟩
  have hschema : flopForTwo.validateStateSchema.isOk = true := by decide +kernel
  obtain ⟨_, hschema⟩ := isOk_iff.mp hschema
  have hagree := table_encodings_agree writes_zmodPoint (b := bytesHash) Function.injective_id hmarked
    flopForTwo
  obtain ⟨bytes, hbytes⟩ := (hagree.1 hschema flopForTwo_sized (by decide)).2 (by decide)
  have hpadded : flopForTwo.padded = flopForTwo := padded_eq_iff.mpr (by decide)
  exact ⟨bytes, hbytes, ((hagree.2 bytes).2.1 hbytes _ _).mpr ⟨rfl, hpadded.symm⟩⟩

end TexasPoker.Wire
