import TexasPoker.Runtime.Client
import TexasPoker.Runtime.Payload

/-! # Replay of canonical payloads

Every accepted call is kept as a tag and a payload from which the verifier gets its arguments
back, so two different calls of one caller are never kept as the same.
-/

namespace TexasPoker.Payload

/-! ## The caller's seat -/

section Caller

variable {G : Type} {context : DispatchContext} {preTable : TexasPokerTable G}
  {seatIndex claimed : ℕ} {method : String}

/-- The caller's seat does not depend on the method. -/
theorem authenticatedCallerSeat_of_ok
    (h : authenticatedCallerSeat context preTable method = .ok seatIndex) (method' : String) :
    authenticatedCallerSeat context preTable method' = .ok seatIndex := by
  simp only [authenticatedCallerSeat, Fallible.bind_eq_ok, Fallible.ensure_eq_ok] at h ⊢
  obtain ⟨u, hpadding, h⟩ := h
  refine ⟨u, hpadding, ?_⟩
  split at h
  · cases h
  · exact h
  · cases h

theorem resolveCallerSeat_eq_ok
    (h : resolveCallerSeat context preTable claimed method = .ok seatIndex) :
    claimed = seatIndex ∧ authenticatedCallerSeat context preTable method = .ok seatIndex := by
  simp only [resolveCallerSeat, Fallible.bind_eq_ok, Fallible.ensure_eq_ok,
    Fallible.pure_eq_ok] at h
  obtain ⟨-, -, resolved, hresolved, -, rfl, rfl⟩ := h
  exact ⟨rfl, hresolved⟩

end Caller

variable {α : Type} {c : Codec α} {args payload : Bytes} {label : String} {a : α}

theorem decodeArgs_eq_ok : decodeArgs c.decode args label = .ok a ↔ c.encode a = .ok args :=
  labelled_eq_ok.trans c.run_eq_ok

theorem toVec_eq_ok : toVec c a label = .ok args ↔ c.encode a = .ok args := labelled_eq_ok

section Seats

variable {G : Type} {context : DispatchContext} {preTable : TexasPokerTable G} {seatIndex : ℕ}

/-- What an accepted command of one seat was given. -/
structure SeatCall (c : Codec α) (args : Bytes) (context : DispatchContext)
    (preTable : TexasPokerTable G) (seatIndex : ℕ) (a : α) (payload : Bytes) : Prop where
  args_eq : (Args.seatIndex.pair c).encode (seatIndex, a) = .ok args
  payload_eq : c.encode a = .ok payload
  caller : ∀ method, authenticatedCallerSeat context preTable method = .ok seatIndex

namespace SeatCall

theorem decode_args (h : SeatCall c args context preTable seatIndex a payload) (label : String) :
    decodeArgs (Args.seatIndex.pair c).decode args label = .ok (seatIndex, a) :=
  decodeArgs_eq_ok.mpr h.args_eq

theorem decode_payload (h : SeatCall c args context preTable seatIndex a payload)
    (label : String) : decodeArgs c.decode payload label = .ok a :=
  decodeArgs_eq_ok.mpr h.payload_eq

theorem erased (h : SeatCall c args context preTable seatIndex a payload) (label : String) :
    eraseSeat c args label = .ok payload := by
  rw [eraseSeat, h.decode_args]
  exact toVec_eq_ok.mpr h.payload_eq

theorem restored (h : SeatCall c args context preTable seatIndex a payload)
    (label replay : String) : restoreSeat payload c seatIndex label replay = .ok args := by
  rw [restoreSeat, h.decode_payload]
  exact toVec_eq_ok.mpr h.args_eq

end SeatCall

theorem seatCall_of_dispatch {d : Decoder α} {s s' : Exec G} {method : String}
    {run : Exec G → ℕ → α → PokerL1Result (Exec G)}
    (h : s.dispatchSeat context args method d run = .ok s') (hd : d = c.decode) :
    ∃ seatIndex a payload, SeatCall c args context s.table seatIndex a payload := by
  subst hd
  simp only [Exec.dispatchSeat, Fallible.bind_eq_ok] at h
  obtain ⟨⟨claimed, a⟩, hargs, seatIndex, hseat, -⟩ := h
  obtain ⟨rfl, hcaller⟩ := resolveCallerSeat_eq_ok hseat
  have henc : (Args.seatIndex.pair c).encode (claimed, a) = .ok args := decodeArgs_eq_ok.mp hargs
  obtain ⟨-, payload, -, hpayload, -⟩ := Codec.pair_encode_eq_ok.mp henc
  exact ⟨claimed, a, payload, henc, hpayload, authenticatedCallerSeat_of_ok hcaller⟩

end Seats

variable {G : Type} [AddCommGroup G] [Protocol G] {preTable : TexasPokerTable G} {seatIndex : ℕ}

theorem find_methodOrder (hsel : Function.Injective (CanonicalCommand.selector G))
    (command : CanonicalCommand) : CanonicalCommand.methodOrder.find?
      (fun c => c.selector G = command.selector G) = some command := by
  obtain ⟨found, hfound⟩ : ∃ found, CanonicalCommand.methodOrder.find?
      (fun c => c.selector G = command.selector G) = some found := by
    rw [← Option.isSome_iff_exists, List.find?_isSome]
    exact ⟨command, command.mem_methodOrder, by simp⟩
  have heq : found.selector G = command.selector G := by simpa using List.find?_some hfound
  rw [hfound, hsel heq]

variable [ProtocolCodecs G] {context : DispatchContext}
  {command : CanonicalCommand}

/-- A call is kept as a payload that restores its arguments. -/
def Kept (context : DispatchContext) (preTable : TexasPokerTable G) (command : CanonicalCommand)
    (args : Bytes) : Prop :=
  ∃ payload, canonicalCommandParts G (command.selector G) args = .ok (command.tag, payload) ∧
    replayDispatchArgs command.tag payload context preTable = .ok args

variable (hsel : Function.Injective (CanonicalCommand.selector G))
  (hfrom : CanonicalCommand.fromSelector G (command.selector G) = some command)

include hsel hfrom

theorem kept_actorOnly (h : SeatCall Codec.unit args context preTable seatIndex () payload)
    (hc : command ∈ [.leaveTable, .fold, .check, .call]) : Kept context preTable command args := by
  have hargs : Args.seatIndex.encode seatIndex = .ok args := by
    obtain ⟨first, second, hfirst, hsecond, rfl⟩ := Codec.pair_encode_eq_ok.mp h.args_eq
    cases hsecond
    rwa [List.append_nil]
  have hdecode (label : String) : decodeArgs Args.seatIndex.decode args label = .ok seatIndex :=
    decodeArgs_eq_ok.mpr hargs
  simp only [List.mem_cons, List.not_mem_nil, or_false] at hc
  refine ⟨[], ?_, ?_⟩
  · rcases hc with rfl | rfl | rfl | rfl <;>
      simp [canonicalCommandParts, hfrom, buildMethodInput, buildMethodInput.seatOnly,
        find_methodOrder hsel, hdecode]
  · rcases hc with rfl | rfl | rfl | rfl <;>
      simp [replayDispatchArgs, deriveAuthenticatedMethodInput, CanonicalCommand.fromU8_tag,
        requireEmptyCanonicalPayload, h.caller, toVec_eq_ok, hargs]

theorem kept_amount {amount : ℕ}
    (h : SeatCall Args.amount args context preTable seatIndex amount payload)
    (hc : command ∈ [.raise, .bet, .addon, .rebuy]) : Kept context preTable command args := by
  simp only [List.mem_cons, List.not_mem_nil, or_false] at hc
  refine ⟨payload, ?_, ?_⟩
  · rcases hc with rfl | rfl | rfl | rfl <;>
      simp [canonicalCommandParts, hfrom, buildMethodInput, buildMethodInput.seatAnd,
        find_methodOrder hsel, h.decode_args, h.erased]
  · rcases hc with rfl | rfl | rfl | rfl <;>
      simp [replayDispatchArgs, deriveAuthenticatedMethodInput, CanonicalCommand.fromU8_tag,
        h.decode_payload, h.caller, toVec_eq_ok, h.args_eq]

omit hsel in
/-- Commands kept with all their arguments. -/
theorem kept_whole (input : MethodInput)
    (hbuild : buildMethodInput G (command.selector G) args = .ok (command.tag, input))
    (hc : command ∈ [.createTable, .startHand, .forceFold]) :
    Kept context preTable command args := by
  simp only [List.mem_cons, List.not_mem_nil, or_false] at hc
  refine ⟨args, ?_, ?_⟩
  · rcases hc with rfl | rfl | rfl <;> simp [canonicalCommandParts, hfrom, hbuild, Fallible.ensure]
  · rcases hc with rfl | rfl | rfl <;>
      simp [replayDispatchArgs, deriveAuthenticatedMethodInput, deriveMethodInput,
        CanonicalCommand.fromU8_tag, hbuild, Fallible.ensure]

theorem kept_of_runCommand [DecidableEq G] {s s' : Exec G}
    (h : s.runCommand context args command = .ok s') : Kept context s.table command args := by
  cases command
  case createTable =>
    change s.dispatchCreateTable context args = .ok s' at h
    simp only [Exec.dispatchCreateTable, ← Args.createTable_decode, Fallible.bind_eq_ok] at h
    obtain ⟨a, ha, -⟩ := h
    have hdecode (label : String) : decodeArgs Args.createTable.decode args label = .ok a :=
      decodeArgs_eq_ok.mpr (decodeArgs_eq_ok.mp ha)
    refine kept_whole hfrom (.createTable a.1 a.2.1 a.2.2.1 a.2.2.2) ?_ (by decide)
    simp [buildMethodInput, find_methodOrder hsel, hdecode]
  case startHand =>
    change s.dispatchStartHand context args = .ok s' at h
    refine kept_whole hfrom .empty ?_ (by decide)
    simp [buildMethodInput, find_methodOrder hsel]
  case forceFold =>
    change s.dispatchForceFold context args = .ok s' at h
    simp only [Exec.dispatchForceFold, Fallible.bind_eq_ok] at h
    obtain ⟨i, hi, -⟩ := h
    have hdecode (label : String) : decodeArgs Args.seatIndex.decode args label = .ok i :=
      decodeArgs_eq_ok.mpr (decodeArgs_eq_ok.mp hi)
    refine kept_whole hfrom (.seatOnly i) ?_ (by decide)
    simp [buildMethodInput, buildMethodInput.seatOnly, find_methodOrder hsel, hdecode]
  case advanceDeadline =>
    change s.dispatchAdvanceDeadline context args = .ok s' at h
    simp only [Exec.dispatchAdvanceDeadline, Fallible.bind_eq_ok, Fallible.ensure_eq_ok] at h
    obtain ⟨-, rfl, -⟩ := h
    refine ⟨[], ?_, ?_⟩
    · simp [canonicalCommandParts, hfrom, buildMethodInput, find_methodOrder hsel, Fallible.ensure]
    · simp [replayDispatchArgs, deriveAuthenticatedMethodInput, deriveMethodInput,
        CanonicalCommand.fromU8_tag, buildMethodInput, find_methodOrder hsel, Fallible.ensure]
  case kickPlayer =>
    change s.dispatchKickPlayer context args = .ok s' at h
    simp only [Exec.dispatchKickPlayer, Fallible.bind_eq_ok] at h
    obtain ⟨i, hi, -⟩ := h
    have hargs : Args.seatIndex.encode i = .ok args := decodeArgs_eq_ok.mp hi
    have hdecode (label : String) : decodeArgs Args.seatIndex.decode args label = .ok i :=
      decodeArgs_eq_ok.mpr hargs
    have hvec (label : String) : toVec Args.seatIndex i label = .ok args := toVec_eq_ok.mpr hargs
    refine ⟨args, ?_, ?_⟩
    · simp [canonicalCommandParts, hfrom, buildMethodInput, find_methodOrder hsel, hdecode, hvec]
    · simp [replayDispatchArgs, deriveAuthenticatedMethodInput, CanonicalCommand.fromU8_tag,
        hdecode, hvec]
  case joinTable =>
    change s.dispatchJoinTable context args = .ok s' at h
    simp only [Exec.dispatchJoinTable, ← Args.joinTable_decode, Fallible.bind_eq_ok] at h
    obtain ⟨⟨player, input⟩, ha, hrun⟩ := h
    obtain ⟨rfl, -⟩ : player = context.caller ∧ _ := by simpa using hrun
    have hargs : (Args.joinTable G).encode (context.caller, input) = .ok args :=
      decodeArgs_eq_ok.mp ha
    have hdecode (label : String) : decodeArgs (Args.joinTable G).decode args label =
        .ok (context.caller, input) := decodeArgs_eq_ok.mpr hargs
    obtain ⟨-, payload, -, hpayload, -⟩ := Codec.pair_encode_eq_ok.mp hargs
    have hrest (label : String) : decodeArgs (Args.canonicalJoinTable G).decode payload label =
        .ok input := decodeArgs_eq_ok.mpr hpayload
    have hvec (label : String) : toVec (Args.canonicalJoinTable G) input label = .ok payload :=
      toVec_eq_ok.mpr hpayload
    refine ⟨payload, ?_, ?_⟩
    · simp [canonicalCommandParts, hfrom, buildMethodInput, find_methodOrder hsel, hdecode, hvec]
    · simp [replayDispatchArgs, deriveAuthenticatedMethodInput, CanonicalCommand.fromU8_tag,
        hrest, toVec_eq_ok, hargs]
  case leaveTable =>
    change s.dispatchLeaveTable context args = .ok s' at h
    obtain ⟨i, _, payload, hc⟩ := seatCall_of_dispatch (c := Codec.unit) h rfl
    exact kept_actorOnly hsel hfrom hc (by decide)
  case fold =>
    change s.dispatchFold context args = .ok s' at h
    obtain ⟨i, _, payload, hc⟩ := seatCall_of_dispatch (c := Codec.unit) h rfl
    exact kept_actorOnly hsel hfrom hc (by decide)
  case check =>
    change s.dispatchCheck context args = .ok s' at h
    obtain ⟨i, _, payload, hc⟩ := seatCall_of_dispatch (c := Codec.unit) h rfl
    exact kept_actorOnly hsel hfrom hc (by decide)
  case call =>
    change s.dispatchCall context args = .ok s' at h
    obtain ⟨i, _, payload, hc⟩ := seatCall_of_dispatch (c := Codec.unit) h rfl
    exact kept_actorOnly hsel hfrom hc (by decide)
  case raise =>
    change s.dispatchRaise context args = .ok s' at h
    obtain ⟨i, amount, payload, hc⟩ := seatCall_of_dispatch (c := Args.amount) h rfl
    exact kept_amount hsel hfrom hc (by decide)
  case bet =>
    change s.dispatchBet context args = .ok s' at h
    obtain ⟨i, amount, payload, hc⟩ := seatCall_of_dispatch (c := Args.amount) h rfl
    exact kept_amount hsel hfrom hc (by decide)
  case addon =>
    change s.dispatchAddon context args = .ok s' at h
    obtain ⟨i, amount, payload, hc⟩ := seatCall_of_dispatch (c := Args.amount) h rfl
    exact kept_amount hsel hfrom hc (by decide)
  case rebuy =>
    change s.dispatchRebuy context args = .ok s' at h
    obtain ⟨i, amount, payload, hc⟩ := seatCall_of_dispatch (c := Args.amount) h rfl
    exact kept_amount hsel hfrom hc (by decide)
  case setLeaveAfterHand =>
    change s.dispatchSetLeaveAfterHand context args = .ok s' at h
    obtain ⟨i, wantLeave, payload, hc⟩ := seatCall_of_dispatch (c := Codec.bool) h rfl
    refine ⟨payload, ?_, ?_⟩
    · simp [canonicalCommandParts, hfrom, buildMethodInput, buildMethodInput.seatAnd,
        find_methodOrder hsel, hc.decode_args, hc.erased]
    · simp [replayDispatchArgs, deriveAuthenticatedMethodInput, CanonicalCommand.fromU8_tag,
        hc.decode_payload, hc.caller, toVec_eq_ok, hc.args_eq]
  case submitShuffleV2 =>
    change s.dispatchSubmitShuffleV2 context args = .ok s' at h
    obtain ⟨i, input, payload, hc⟩ := seatCall_of_dispatch h (Args.submitShuffleV2_decode G).symm
    refine ⟨payload, ?_, ?_⟩
    · simp [canonicalCommandParts, hfrom, buildMethodInput, buildMethodInput.seatAnd,
        find_methodOrder hsel, hc.decode_args, hc.erased]
    · simp [replayDispatchArgs, deriveAuthenticatedMethodInput, CanonicalCommand.fromU8_tag,
        hc.decode_payload, hc.caller, hc.restored]
  case submitPlayerRevealTokens =>
    change s.dispatchSubmitPlayerRevealTokens context args = .ok s' at h
    obtain ⟨i, input, payload, hc⟩ :=
      seatCall_of_dispatch h (Args.submitRevealTokens_decode G).symm
    refine ⟨payload, ?_, ?_⟩
    · simp [canonicalCommandParts, hfrom, buildMethodInput, buildMethodInput.seatAnd,
        find_methodOrder hsel, hc.decode_args, hc.erased]
    · simp [replayDispatchArgs, deriveAuthenticatedMethodInput, CanonicalCommand.fromU8_tag,
        hc.decode_payload, hc.caller, hc.restored]
  case submitReconstructDeck =>
    change s.dispatchSubmitReconstructDeck context args = .ok s' at h
    obtain ⟨i, input, payload, hc⟩ :=
      seatCall_of_dispatch h (Args.submitReconstructDeck_decode G).symm
    refine ⟨payload, ?_, ?_⟩
    · simp [canonicalCommandParts, hfrom, buildMethodInput, buildMethodInput.seatAnd,
        find_methodOrder hsel, hc.decode_args, hc.erased]
    · simp [replayDispatchArgs, deriveAuthenticatedMethodInput, CanonicalCommand.fromU8_tag,
        hc.decode_payload, hc.caller, hc.restored]
  case foldWithProof =>
    change s.dispatchFoldWithProof context args = .ok s' at h
    obtain ⟨i, input, payload, hc⟩ := seatCall_of_dispatch h (Args.foldWithProof_decode G).symm
    refine ⟨payload, ?_, ?_⟩
    · simp [canonicalCommandParts, hfrom, buildMethodInput, buildMethodInput.seatAnd,
        find_methodOrder hsel, hc.decode_args, hc.erased]
    · simp [replayDispatchArgs, deriveAuthenticatedMethodInput, CanonicalCommand.fromU8_tag,
        hc.decode_payload, hc.caller, hc.restored]

omit hsel hfrom in
/-- Replay reads of its context only the caller. -/
theorem replayDispatchArgs_congr {context' : DispatchContext}
    (h : context'.caller = context.caller) (methodTag : ℕ) :
    replayDispatchArgs methodTag payload context' preTable =
      replayDispatchArgs methodTag payload context preTable := by
  have hseat : authenticatedCallerSeat context' preTable =
      authenticatedCallerSeat context preTable := by
    funext method
    simp only [authenticatedCallerSeat, h]
  simp only [replayDispatchArgs, deriveAuthenticatedMethodInput, hseat, h]

omit hfrom in
/-- Every accepted call is kept as a payload from which its arguments come back, and no other
arguments of the caller are kept as the same. -/
theorem accepted_call_kept [DecidableEq G] {selector : Hash} {result : DispatchResult G}
    {t : TexasPokerTable G} (h : dispatch context preTable selector args = (.ok result, t)) :
    ∃ methodTag payload, canonicalCommandParts G selector args = .ok (methodTag, payload) ∧
      replayDispatchArgs methodTag payload context preTable = .ok args ∧
      ∀ context' selector' args' result' t', context'.caller = context.caller →
        dispatch context' preTable selector' args' = (.ok result', t') → args' ≠ args →
          canonicalCommandParts G selector' args' ≠ .ok (methodTag, payload) := by
  have hkept {context : DispatchContext} {selector : Hash} {args : Bytes}
      {result : DispatchResult G} {t : TexasPokerTable G}
      (h : dispatch context preTable selector args = (.ok result, t)) :
      ∃ methodTag payload, canonicalCommandParts G selector args = .ok (methodTag, payload) ∧
        replayDispatchArgs methodTag payload context preTable = .ok args := by
    obtain ⟨command, s, -, -, -, hcommand, hrun, -⟩ := dispatch_eq_ok h
    have hsel' : command.selector G = selector := by simpa using List.find?_some hcommand
    subst hsel'
    obtain ⟨payload, hparts, hreplay⟩ := kept_of_runCommand hsel hcommand hrun
    exact ⟨command.tag, payload, hparts, hreplay⟩
  obtain ⟨methodTag, payload, hparts, hreplay⟩ := hkept h
  refine ⟨methodTag, payload, hparts, hreplay, ?_⟩
  intro context' selector' args' result' t' hcaller h' hne hsame
  obtain ⟨methodTag', payload', hparts', hreplay'⟩ := hkept h'
  obtain ⟨rfl, rfl⟩ : methodTag' = methodTag ∧ payload' = payload := by
    simpa using hparts'.symm.trans hsame
  rw [replayDispatchArgs_congr hcaller, hreplay] at hreplay'
  exact hne (Except.ok.inj hreplay').symm

end TexasPoker.Payload

namespace TexasPoker.Transparent

/-! ## Codecs of the transparent curve -/

/-- Eight-byte two's complement numbers. -/
def int : Codec ℤ where
  encode n := if -2 ^ 63 ≤ n ∧ n < 2 ^ 63 then .ok (writeInt n) else .error "number out of range"
  decode := readInt
  decode_encode := by
    intro n bytes h rest
    split at h
    · rename_i hn
      cases h
      rw [readInt, bind_pure_comp]
      refine Decoder.map_eq_ok.mpr ⟨_, Decoder.uint_eq_ok.mpr ⟨by omega, rfl⟩, ?_⟩
      simp only [Int.bmod]
      split <;> omega
    · cases h
  encode_decode := by
    intro input n rest h
    rw [readInt, bind_pure_comp] at h
    obtain ⟨m, hm, rfl⟩ := Decoder.map_eq_ok.mp h
    obtain ⟨hlt, rfl⟩ := Decoder.uint_eq_ok.mp hm
    have hback : (Int.bmod m (2 ^ 64) % 2 ^ 64).toNat = m := by
      simp only [Int.bmod]
      split <;> omega
    have hrange : -2 ^ 63 ≤ Int.bmod m (2 ^ 64) ∧ Int.bmod m (2 ^ 64) < 2 ^ 63 := by
      simp only [Int.bmod]
      split <;> omega
    exact ⟨leBytes 8 m, by rw [if_pos hrange, writeInt, hback], rfl⟩

def hash : Codec Hash where
  encode h := .ok (leBytes 32 h.toNat)
  decode := readHash
  decode_encode := by
    intro h bytes henc rest
    cases henc
    rw [readHash, bind_pure_comp]
    exact Decoder.map_eq_ok.mpr ⟨h.toNat, Decoder.uint_eq_ok.mpr ⟨h.isLt, rfl⟩, by simp⟩
  encode_decode := by
    intro input h rest hdec
    rw [readHash, bind_pure_comp] at hdec
    obtain ⟨n, hn, rfl⟩ := Decoder.map_eq_ok.mp hdec
    obtain ⟨hlt, rfl⟩ := Decoder.uint_eq_ok.mp hn
    have hval : (BitVec.ofNat 256 n).toNat = n := Nat.mod_eq_of_lt hlt
    exact ⟨leBytes 32 n, by rw [hval], rfl⟩

def card : Codec (ElGamalCiphertext ℤ) :=
  (int.pair int).via (fun p => .ok ⟨p.1, p.2⟩) (fun c => .ok (c.c1, c.c2)) (by
    rintro ⟨c1, c2⟩ c
    cases c
    simp [eq_comm])

theorem card_decode : card.decode = readCard := by
  simp only [card, Codec.via, Codec.pair, bind_assoc, pure_bind]
  rfl

def statement : Codec (ReconstructionStatement ℤ (ElGamalCiphertext ℤ)) :=
  (int.pair (int.pair (int.vec.pair (card.vec.pair (hash.pair (hash.pair
    ((Codec.uint 8).pair card.vec))))))).via
    (fun p => .ok ⟨p.1, p.2.1, p.2.2.1, p.2.2.2.1, p.2.2.2.2.1, p.2.2.2.2.2.1, p.2.2.2.2.2.2.1,
      p.2.2.2.2.2.2.2⟩)
    (fun s => .ok (s.aggregatePk, s.ownerPk, s.cards, s.residualCarriers, s.contextDigest,
      s.priorStateDigest, s.reconstructionEpoch, s.contributions)) (by
    rintro ⟨aggregatePk, ownerPk, cards, carriers, context, prior, epoch, contributions⟩ s
    cases s
    simp [eq_comm])

theorem statement_decode : statement.decode = readStatement := by
  simp only [statement, Codec.via, Codec.pair, Codec.vec, Codec.uint, bind_assoc, pure_bind,
    card_decode]
  rfl

instance : ProtocolCodecs ℤ where
  point := int
  shuffleProof := Codec.unit
  revealTokenProof := Codec.unit
  leaveProof := Codec.unit
  reconstructProof := Codec.unit
  statement := statement
  point_decode := rfl
  shuffleProof_decode := rfl
  revealTokenProof_decode := rfl
  leaveProof_decode := rfl
  reconstructProof_decode := rfl
  statement_decode := statement_decode

theorem selector_injective : Function.Injective (CanonicalCommand.selector ℤ) := by
  have hnodup : (CanonicalCommand.all.map (CanonicalCommand.selector ℤ)).Nodup := by
    decide +kernel
  intro a b hab
  exact List.inj_on_of_nodup_map hnodup a.mem_all b.mem_all hab

/-- A table without players. -/
abbrev freshTable : TexasPokerTable ℤ := .fresh ⟨7, 0⟩ 7 (.new 4 50 100)

/-- The first player joins it. -/
abbrev firstJoin : Call := (ClientStep.join 1 1000 2).call freshTable

/-- The first player's join is kept without the player, who comes back from the caller. -/
theorem join_kept :
    ∃ methodTag payload, canonicalCommandParts ℤ firstJoin.selector firstJoin.args =
        .ok (methodTag, payload) ∧
      replayDispatchArgs methodTag payload firstJoin.context freshTable = .ok firstJoin.args := by
  have hrun : Fallible.holds (dispatch firstJoin.context freshTable firstJoin.selector
      firstJoin.args).1 (fun _ => true) = true := by
    decide +kernel
  obtain ⟨result, t, hcall⟩ : ∃ result t, dispatch firstJoin.context freshTable firstJoin.selector
      firstJoin.args = (.ok result, t) := by
    generalize dispatch firstJoin.context freshTable firstJoin.selector firstJoin.args = d at hrun ⊢
    obtain ⟨result, hresult, -⟩ := Fallible.holds_iff.mp hrun
    exact ⟨result, d.2, Prod.ext hresult rfl⟩
  obtain ⟨methodTag, payload, hparts, hreplay, -⟩ :=
    Payload.accepted_call_kept selector_injective hcall
  exact ⟨methodTag, payload, hparts, hreplay⟩

end TexasPoker.Transparent
