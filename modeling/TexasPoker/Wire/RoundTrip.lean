import TexasPoker.Wire.StateCodec

/-! # Round trips of stored tables

Both encodings give a table back with fresh slots beyond its configured seats. What is read
with every record read to its end is the one encoding of its table, and a hot table opens with
its own rules and creator only.
-/

namespace TexasPoker

variable {G : Type}

namespace TexasPokerTable

variable [AddCommGroup G] [DecidableEq G] {t : TexasPokerTable G}

/-- The schema does not look at what a vacant slot carries. -/
theorem Schema.of_vacant (h : t.Schema) {f : Fin maxSeats → Seat G}
    (hf : ∀ i, f i = t.seats i ∨ ((t.seats i).isVacant = true ∧ (f i).isVacant = true)) :
    Schema { t with seats := f } := by
  have hsame (i : Fin maxSeats) : (f i).pk = (t.seats i).pk ∧ (f i).hand = (t.seats i).hand ∧
      (f i).isOccupied = (t.seats i).isOccupied ∧ (f i).isVacant = (t.seats i).isVacant ∧
      (f i).player = (t.seats i).player ∧
      (f i).validateCanonical = (t.seats i).validateCanonical := by
    rcases hf i with hi | ⟨hi, hi'⟩
    · rw [hi]
      exact ⟨rfl, rfl, rfl, rfl, rfl, rfl⟩
    · cases hs : t.seats i <;> rw [hs] at hi <;> cases hi
      cases hs' : f i <;> rw [hs'] at hi' <;> cases hi'
      exact ⟨rfl, rfl, rfl, rfl, rfl, rfl⟩
  have hseat (j : ℕ) : (({ t with seats := f } : TexasPokerTable G).seat j).pk = (t.seat j).pk ∧
      (({ t with seats := f } : TexasPokerTable G).seat j).hand = (t.seat j).hand ∧
      (({ t with seats := f } : TexasPokerTable G).seat j).isOccupied = (t.seat j).isOccupied := by
    unfold seat
    split
    · exact ⟨(hsame _).1, (hsame _).2.1, (hsame _).2.2.1⟩
    · exact ⟨rfl, rfl, rfl⟩
  have hkey : ({ t with seats := f } : TexasPokerTable G).derivedAggregatedPk =
      t.derivedAggregatedPk := by
    unfold derivedAggregatedPk aggregatedPkForContributorMask
    simp only [fun j => (hseat j).1, fun j => (hseat j).2.2]
  have hcards : ({ t with seats := f } : TexasPokerTable G).materializedCards =
      t.materializedCards := by
    unfold materializedCards
    simp only [fun i => (hsame i).2.1]
  have hledger : ({ t with seats := f } : TexasPokerTable G).validateLedgerRecord =
      t.validateLedgerRecord := by
    funext seen r
    unfold validateLedgerRecord
    simp only [fun j => (hseat j).2.1]
  refine ⟨h.rules, fun i => ?_, h.flags, h.button, h.phase, fun i => ?_, ?_, h.board, h.runouts, ?_,
    ?_, h.pending, h.completed, h.shuffled, h.reveals, h.reconstruct, h.accumulated⟩
  · rw [(hsame i).2.2.2.1]
    exact h.padding i
  · have hi := h.seats i
    unfold validateSeat at hi ⊢
    simp only [fun i => (hsame i).2.2.2.2.2, fun i => (hsame i).2.2.1, fun i => (hsame i).2.2.2.1,
      fun i => (hsame i).2.2.2.2.1]
    exact hi
  · rw [hkey]
    exact h.sharedKey
  · rw [hcards]
    exact h.cards
  · rw [hledger]
    exact h.ledger

end TexasPokerTable

namespace Wire

open Fallible

variable {H D : Type} {w : Table G}

/-! ## Slots in play -/

theorem length_activeSeats (h : w.rules.maxPlayers ≤ maxSeats) :
    (activeSeats w).length = w.rules.maxPlayers := by
  rw [activeSeats, List.length_take, List.length_ofFn]
  exact min_eq_left h

theorem getD_activeSeats (i : Fin maxSeats) :
    (activeSeats w).getD i.1 .empty = w.padded.seats i := by
  rw [activeSeats, List.getD_eq_getElem?_getD, List.getElem?_take]
  change _ = if _ then _ else _
  split
  · rw [List.getElem?_ofFn, dif_pos i.2]
    rfl
  · rfl

/-- The slots in play of a table that was restored from a record. -/
theorem activeSeats_getD {seats : List (Seat G)} (hlen : seats.length = w.rules.maxPlayers)
    (hmax : seats.length ≤ 9) (hw : w.seats = fun i => seats.getD i.1 .empty) :
    activeSeats w = seats := by
  refine List.ext_getElem? fun n => ?_
  rw [activeSeats, List.getElem?_take, List.getElem?_ofFn, hw, ← hlen]
  split
  · rename_i hn
    rw [dif_pos (hn.trans_le hmax), List.getElem?_eq_getElem hn]
    change some (seats.getD n .empty) = _
    rw [List.getD_eq_getElem?_getD, List.getElem?_eq_getElem hn]
    rfl
  · rename_i hn
    exact (List.getElem?_eq_none (not_lt.mp hn)).symm

variable [AddCommGroup G] [DecidableEq G]

/-! ## Canonical tables -/

/-- What the schema says of a stored table. -/
structure Table.Canonical (w : Table G) : Prop where
  seats : ∀ i, (w.seats i).validateCanonical = .ok ()
  board : w.communityCards.validateCanonical = .ok ()
  suffix : w.runItTwiceState.validateCanonical = .ok ()
  schema : w.view.Schema

namespace Table

theorem validateStateSchema_eq_ok : w.validateStateSchema = .ok () ↔ w.Canonical := by
  simp only [validateStateSchema, bind_eq_ok, forM_eq_ok, List.mem_finRange, true_imp_iff,
    labelled_eq_ok, TexasPokerTable.validateStateSchema_eq_ok]
  constructor
  · rintro ⟨_, hseats, _, hboard, _, hsuffix, hschema⟩
    exact ⟨hseats, hboard, hsuffix, hschema⟩
  · intro h
    exact ⟨(), h.seats, (), h.board, (), h.suffix, h.schema⟩

theorem Canonical.maxPlayers_le (h : w.Canonical) : w.rules.maxPlayers ≤ maxSeats := by
  have hrules : w.rules.validateCanonical = .ok () := h.schema.rules
  simp only [TableRules.validateCanonical, bind_eq_ok, ensure_eq_ok] at hrules
  obtain ⟨_, hsize, -⟩ := hrules
  exact hsize.2

theorem Canonical.padded (h : w.Canonical) : w.padded.Canonical where
  seats i := by
    change (if _ then _ else _ : Seat G).validateCanonical = _
    split
    · exact h.seats i
    · rfl
  board := h.board
  suffix := h.suffix
  schema := by
    refine h.schema.of_vacant (f := w.padded.view.seats) fun i => ?_
    change (if _ then _ else _ : Seat G).view = _ ∨ _
    split
    · exact .inl rfl
    · rename_i hi
      refine .inr ⟨(h.schema.padding i).resolve_left hi, ?_⟩
      change (if _ then _ else _ : Seat G).view.isVacant = true
      rw [if_neg hi]
      rfl

end Table

/-! ## Records of tables -/

variable {version : ℕ} {header : H} {v : Persisted H G} {rules : TableRules} {creator : Address}

theorem persist_of_canonical (h : w.Canonical) :
    persist w version header = .ok (.ofTable w version header (activeSeats w) w.handPhase) := by
  have hseats : (activeSeats w).forM Seat.validateCanonical = .ok () := by
    refine forM_eq_ok.mpr fun s hs => ?_
    obtain ⟨i, rfl⟩ := (List.mem_ofFn' _ _).mp (List.mem_of_mem_take hs)
    exact h.seats i
  have hphase : w.view.validateHandPhase = .ok () := h.schema.phase
  rw [persist, persistedSeats, hseats, canonicalHandPhase, hphase]
  rfl

theorem restoreTable_eq_ok : restoreTable v rules creator = .ok w ↔
    v.seats.length ≤ 9 ∧ v.seats.length = rules.maxPlayers ∧
      (∀ s ∈ v.seats, s.validateCanonical = .ok ()) ∧
      w = v.toTable rules creator (fun i => v.seats.getD i.1 .empty) ∧ w.Canonical := by
  simp only [restoreTable, restoreSeats, bind_eq_ok, ensure_eq_ok, forM_eq_ok, pure_eq_ok]
  constructor
  · rintro ⟨_, ⟨_, hmax, _, hlen, _, hseats, rfl⟩, _, hvalid, rfl⟩
    exact ⟨hmax, hlen, hseats, rfl, Table.validateStateSchema_eq_ok.mp hvalid⟩
  · rintro ⟨hmax, hlen, hseats, rfl, hvalid⟩
    exact ⟨_, ⟨(), hmax, (), hlen, (), hseats, rfl⟩, (),
      Table.validateStateSchema_eq_ok.mpr hvalid, rfl⟩

/-- A table comes back from its record with fresh slots beyond its configured seats. -/
theorem restoreTable_ofTable (h : w.Canonical) :
    restoreTable (.ofTable w version header (activeSeats w) w.handPhase) w.rules w.creator =
      .ok w.padded := by
  refine restoreTable_eq_ok.mpr ⟨?_, length_activeSeats h.maxPlayers_le, fun s hs => ?_, ?_,
    h.padded⟩
  · exact (length_activeSeats h.maxPlayers_le).trans_le h.maxPlayers_le
  · obtain ⟨i, rfl⟩ := (List.mem_ofFn' _ _).mp (List.mem_of_mem_take hs)
    exact h.seats i
  · have hseats : (fun i : Fin maxSeats => (activeSeats w).getD i.1 .empty) = w.padded.seats :=
      funext getD_activeSeats
    change w.padded = Persisted.toTable _ _ _ fun i => (activeSeats w).getD i.1 .empty
    rw [hseats]
    rfl

/-- A restored table is stored as the record it came from. -/
theorem persist_restoreTable (h : restoreTable v rules creator = .ok w) :
    w.Canonical ∧ w.rules = rules ∧ w.creator = creator ∧
      persist w v.stateSchemaVersion v.header = .ok v := by
  obtain ⟨hmax, hlen, -, rfl, hvalid⟩ := restoreTable_eq_ok.mp h
  refine ⟨hvalid, rfl, rfl, ?_⟩
  rw [persist_of_canonical hvalid, activeSeats_getD hlen hmax rfl]
  rfl

/-! ## Both encodings -/

variable {point : Codec G} {header : Codec H} {v : Persisted H G} {input rest bytes : Bytes}

omit [AddCommGroup G] [DecidableEq G] in
/-- An encoded record starts with its identifier and its version. -/
theorem persisted_prefix (h : (persisted header point).encode v = .ok bytes) :
    ∃ mid tail, objectID.decode bytes = .ok (v.id, mid) ∧
      (Codec.uint 1).decode mid = .ok (v.stateSchemaVersion, tail) := by
  obtain ⟨first, second, hfirst, -, rfl⟩ :=
    (Codec.pair_encode_eq_ok (p := ((v.id, v.stateSchemaVersion, v.header), _))).mp h
  obtain ⟨id, tail, hid, htail, rfl⟩ := Codec.pair_encode_eq_ok.mp hfirst
  obtain ⟨schema, after, hschema, -, rfl⟩ := Codec.pair_encode_eq_ok.mp htail
  refine ⟨schema ++ after ++ second, after ++ second, ?_, ?_⟩
  · rw [List.append_assoc]
    exact objectID.decode_encode hid _
  · rw [List.append_assoc]
    exact (Codec.uint 1).decode_encode hschema _

theorem readAll_eq_ok {α : Type} {r : Reader α} {a : α} :
    readAll r input = .ok a ↔ r input = .ok (a, []) := by
  simp only [readAll, bind_eq_ok, ensure_eq_ok, pure_eq_ok]
  constructor
  · rintro ⟨⟨a', tail⟩, hr, _, rfl, rfl⟩
    exact hr
  · intro h
    exact ⟨_, h, (), rfl, rfl⟩

theorem refuse_eq_ok {α : Type} {x : PokerL1Result α} {a : α} :
    refuse x = .ok a ↔ x = .ok a :=
  mapError_eq_ok

theorem relabel_eq_ok {α : Type} {label : String} {x : Except ReadFailure α} {a : α} :
    relabel label x = .ok a ↔ x = .ok a :=
  mapError_eq_ok

theorem encodeTableState_eq_ok : encodeTableState point w = .ok bytes ↔ w.Canonical ∧
    (persistedTexasPokerTable point).encode (.ofTable w tableStateSchemaVersion
      (w.creator, w.rules) (activeSeats w) w.handPhase) = .ok bytes := by
  simp only [encodeTableState, serialize, bind_eq_ok, labelled_eq_ok, mapError_eq_ok]
  constructor
  · rintro ⟨_, hvalid, _, -, v, hv, henc⟩
    have hw := Table.validateStateSchema_eq_ok.mp hvalid
    rw [persist_of_canonical hw] at hv
    cases hv
    exact ⟨hw, henc⟩
  · rintro ⟨hw, henc⟩
    have hvalid := Table.validateStateSchema_eq_ok.mpr hw
    exact ⟨(), hvalid, (), hvalid, _, persist_of_canonical hw, henc⟩

theorem ofPersisted_eq_ok {v : PersistedTexasPokerTable G} : ofPersisted v = .ok w ↔
    v.stateSchemaVersion = tableStateSchemaVersion ∧
      restoreTable v v.header.2 v.header.1 = .ok w := by
  simp only [ofPersisted, bind_eq_ok, ensure_eq_ok]
  constructor
  · rintro ⟨_, hversion, h⟩
    exact ⟨hversion, h⟩
  · rintro ⟨hversion, h⟩
    exact ⟨(), hversion, h⟩

theorem deserializeReader_eq_ok : deserializeReader point input = .ok (w, rest) ↔
    (∃ id mid tail, objectID.decode input = .ok (id, mid) ∧
      (Codec.uint 1).decode mid = .ok (tableStateSchemaVersion, tail)) ∧
      ∃ v, (persistedTexasPokerTable point).read input = .ok (v, rest) ∧ ofPersisted v = .ok w := by
  simp only [deserializeReader, report, bind_eq_ok, mapError_eq_ok, ensure_eq_ok, pure_eq_ok,
    refuse_eq_ok]
  constructor
  · rintro ⟨⟨id, mid⟩, hid, ⟨schema, tail⟩, hschema, _, rfl, ⟨v, rest'⟩, hread, w', hw, heq⟩
    cases heq
    exact ⟨⟨id, mid, tail, hid, hschema⟩, v, hread, hw⟩
  · rintro ⟨⟨id, mid, tail, hid, hschema⟩, v, hread, hw⟩
    exact ⟨_, hid, _, hschema, (), rfl, _, hread, w, hw, rfl⟩

theorem decodeTableState_eq_ok : decodeTableState point bytes = .ok w ↔
    deserializeReader point bytes = .ok (w, []) := by
  simp only [decodeTableState, bind_eq_ok, relabel_eq_ok, readAll_eq_ok, refuse_eq_ok, pure_eq_ok]
  constructor
  · rintro ⟨w', hread, _, -, rfl⟩
    exact hread
  · intro h
    obtain ⟨-, v, -, hv⟩ := deserializeReader_eq_ok.mp h
    have hw := (restoreTable_eq_ok.mp (ofPersisted_eq_ok.mp hv).2).2.2.2.2
    exact ⟨w, h, (), Table.validateStateSchema_eq_ok.mpr hw, rfl⟩

theorem decode_encodeTableState (h : encodeTableState point w = .ok bytes) :
    decodeTableState point bytes = .ok w.padded := by
  obtain ⟨hw, henc⟩ := encodeTableState_eq_ok.mp h
  obtain ⟨mid, tail, hid, hschema⟩ := persisted_prefix henc
  have hread := Format.read_encode henc []
  rw [List.append_nil] at hread
  exact decodeTableState_eq_ok.mpr (deserializeReader_eq_ok.mpr ⟨⟨_, mid, tail, hid, hschema⟩, _,
    hread, ofPersisted_eq_ok.mpr ⟨rfl, restoreTable_ofTable hw⟩⟩)

/-- What is read with every record read to its end is the encoding of its table. -/
theorem encode_decodeTableState {v : PersistedTexasPokerTable G}
    (h : decodeTableState point bytes = .ok w)
    (hwhole : (persistedTexasPokerTable point).decode bytes = .ok (v, [])) :
    encodeTableState point w = .ok bytes := by
  obtain ⟨-, v', hread, hv⟩ := deserializeReader_eq_ok.mp (decodeTableState_eq_ok.mp h)
  rw [(persistedTexasPokerTable point).read_of_decode hwhole] at hread
  cases hread
  obtain ⟨hversion, hrestore⟩ := ofPersisted_eq_ok.mp hv
  obtain ⟨hw, hrules, hcreator, hpersist⟩ := persist_restoreTable hrestore
  rw [persist_of_canonical hw, hversion] at hpersist
  have hheader : v.header = (w.creator, w.rules) := by rw [hrules, hcreator]
  rw [hheader] at hpersist
  have hv' := Except.ok.inj hpersist
  obtain ⟨bytes', henc, hin⟩ := (persistedTexasPokerTable point).encode_decode hwhole
  rw [List.append_nil] at hin
  subst hin
  exact encodeTableState_eq_ok.mpr ⟨hw, by rw [hv']; exact henc⟩

/-! ## Hot tables -/

section Hot

variable {b : Blake2b D} {o o' : TableContextOpenings} {context : TableContextBindings D}

theorem contextDigest_inj {α : Type} {tableId : ObjectID} {domain : Bytes} {c : Codec α} {a a' : α}
    {d : D} (hhash : Function.Injective b.hash) (h : b.contextDigest tableId domain c a = .ok d)
    (h' : b.contextDigest tableId domain c a' = .ok d) : a = a' := by
  simp only [Blake2b.contextDigest, bind_eq_ok, labelled_eq_ok, pure_eq_ok] at h h'
  obtain ⟨encoded, henc, rfl⟩ := h
  obtain ⟨encoded', henc', heq⟩ := h'
  obtain rfl := List.append_cancel_left (hhash heq)
  exact c.encode_inj henc henc'

/-- The bindings of a table are of one pair of openings. -/
theorem tableContextBindings_inj {tableId : ObjectID} (hhash : Function.Injective b.hash)
    (h : b.tableContextBindings tableId o = .ok context)
    (h' : b.tableContextBindings tableId o' = .ok context) : o = o' := by
  simp only [Blake2b.tableContextBindings, bind_eq_ok, pure_eq_ok] at h h'
  obtain ⟨_, -, rules, hrules, governance, hgovernance, rfl⟩ := h
  obtain ⟨_, -, rules', hrules', governance', hgovernance', heq⟩ := h'
  cases heq
  have hr := contextDigest_inj hhash hrules hrules'
  have hc := contextDigest_inj hhash hgovernance hgovernance'
  cases o
  cases o'
  cases hr
  cases hc
  rfl

theorem encodeHotTableState_eq_ok : encodeHotTableState point b w = .ok bytes ↔ w.Canonical ∧
    ∃ context, b.tableContextBindings w.id (.fromTable w) = .ok context ∧
      (persistedTexasPokerHotTable b.codec point).encode (.ofTable w hotStateSchemaVersion context
        (activeSeats w) w.handPhase) = .ok bytes := by
  simp only [encodeHotTableState, bind_eq_ok, labelled_eq_ok]
  constructor
  · rintro ⟨_, hvalid, context, hcontext, v, hv, henc⟩
    have hw := Table.validateStateSchema_eq_ok.mp hvalid
    rw [persist_of_canonical hw] at hv
    cases hv
    exact ⟨hw, context, hcontext, henc⟩
  · rintro ⟨hw, context, hcontext, henc⟩
    exact ⟨(), Table.validateStateSchema_eq_ok.mpr hw, context, hcontext, _,
      persist_of_canonical hw, henc⟩

variable [DecidableEq D]

theorem decodeHotTableState_eq_ok : decodeHotTableState point b bytes o = .ok w ↔
    ∃ v, (persistedTexasPokerHotTable b.codec point).read bytes = .ok (v, []) ∧
      v.stateSchemaVersion = hotStateSchemaVersion ∧
      b.tableContextBindings v.id o = .ok v.header ∧
      restoreTable v o.rules o.creator = .ok w := by
  simp only [decodeHotTableState, bind_eq_ok, relabel_eq_ok, readAll_eq_ok, refuse_eq_ok,
    ensure_eq_ok]
  constructor
  · rintro ⟨v, hread, _, hversion, context, hcontext, _, rfl, hrestore⟩
    exact ⟨v, hread, hversion, hcontext, hrestore⟩
  · rintro ⟨v, hread, hversion, hcontext, hrestore⟩
    exact ⟨v, hread, (), hversion, _, hcontext, (), rfl, hrestore⟩

/-- A hot encoding opens with the openings of its table, and with no others. -/
theorem decode_encodeHotTableState {w' : Table G} (hhash : Function.Injective b.hash)
    (h : encodeHotTableState point b w = .ok bytes) :
    decodeHotTableState point b bytes o = .ok w' ↔ o = .fromTable w ∧ w' = w.padded := by
  obtain ⟨hw, context, hcontext, henc⟩ := encodeHotTableState_eq_ok.mp h
  have hread := Format.read_encode henc []
  rw [List.append_nil] at hread
  constructor
  · intro hdec
    obtain ⟨v, hread', -, hcontext', hrestore⟩ := decodeHotTableState_eq_ok.mp hdec
    rw [hread] at hread'
    cases hread'
    obtain rfl := tableContextBindings_inj hhash hcontext' hcontext
    exact ⟨rfl, (Except.ok.inj ((restoreTable_ofTable hw).symm.trans hrestore)).symm⟩
  · rintro ⟨rfl, rfl⟩
    exact decodeHotTableState_eq_ok.mpr ⟨_, hread, rfl, hcontext, restoreTable_ofTable hw⟩

theorem encode_decodeHotTableState {v : PersistedTexasPokerHotTable D G}
    (h : decodeHotTableState point b bytes o = .ok w)
    (hwhole : (persistedTexasPokerHotTable b.codec point).decode bytes = .ok (v, [])) :
    encodeHotTableState point b w = .ok bytes := by
  obtain ⟨v', hread, hversion, hcontext, hrestore⟩ := decodeHotTableState_eq_ok.mp h
  rw [(persistedTexasPokerHotTable b.codec point).read_of_decode hwhole] at hread
  cases hread
  obtain ⟨hw, hrules, hcreator, hpersist⟩ := persist_restoreTable hrestore
  rw [persist_of_canonical hw, hversion] at hpersist
  have hv' := Except.ok.inj hpersist
  have hid : w.id = v.id := congrArg Persisted.id hv'
  have ho : TableContextOpenings.fromTable w = o := by
    rw [TableContextOpenings.fromTable, hrules, hcreator]
  obtain ⟨bytes', henc, hin⟩ := (persistedTexasPokerHotTable b.codec point).encode_decode hwhole
  rw [List.append_nil] at hin
  subst hin
  refine encodeHotTableState_eq_ok.mpr ⟨hw, v.header, ?_, ?_⟩
  · rw [hid, ho]
    exact hcontext
  · rw [hv']
    exact henc

end Hot

end Wire

end TexasPoker
