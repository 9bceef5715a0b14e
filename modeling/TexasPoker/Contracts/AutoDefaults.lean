import TexasPoker.Contracts.Acceptance
import TexasPoker.Contracts.Solvency

/-! # The defaults of an accepted log

The digest of accepted inputs is the chain of one list of actions. An action that the server
made is the lawful default of its legality word exactly when the word has the kind of the
logged action and means the same above its second bit as above its fourth.
-/

namespace TexasPoker.Contracts

open Fallible

/-! ## Chains -/

/-- The words that the chain of a log absorbs. -/
def logFelts (log : List LoggedAction) : List Felt :=
  actionLogDomain :: log.map fun e => natFelt e.word

/-- A log with a digest, among those that the hash tells apart. -/
def ChainOf (P : Primitives) (S : Set (List Felt)) (digest : Felt) (log : List LoggedAction) :
    Prop :=
  logFelts log ∈ S ∧ P.poseidon (logFelts log) = digest

variable {P : Primitives} {S : Set (List Felt)} {digest leg : Felt} {log log' : List LoggedAction}
  {e : LoggedAction} {inputs : SettlementInputs} {segment : List Felt} {i : ℕ}

theorem LoggedAction.natFelt_word : (natFelt e.word).1 = e.word :=
  Nat.mod_eq_of_lt (e.word_lt.trans (by decide))

theorem logFelts_injective : Function.Injective logFelts := by
  intro log log' h
  refine List.map_injective_iff.mpr (fun e e' he => ?_) (List.cons.inj h).2
  apply LoggedAction.word_injective
  rw [← LoggedAction.natFelt_word, he, LoggedAction.natFelt_word]

theorem ChainOf.unique (hS : Set.InjOn P.poseidon S) (h : ChainOf P S digest log)
    (h' : ChainOf P S digest log') : log = log' :=
  logFelts_injective (hS h.1 h'.1 (h.2.trans h'.2.symm))

/-- Words that each name an action below 202 bits are those of a log. -/
theorem exists_logFelts_eq {words : List Felt}
    (h : ∀ w ∈ words, w.1 < 2 ^ 202 ∧ w.1 % 2 ^ 40 ∈ actionNames) :
    ∃ log, logFelts log = actionLogDomain :: words := by
  have hwords : words ∈ Set.range (List.map fun e : LoggedAction => natFelt e.word) := by
    rw [Set.range_list_map]
    intro w hw
    obtain ⟨e, he⟩ := LoggedAction.exists_word_eq (h w hw).1 (h w hw).2
    exact ⟨e, (congrArg natFelt he).trans natFelt_val_self⟩
  obtain ⟨log, hlog⟩ := hwords
  exact ⟨log, congrArg (actionLogDomain :: ·) hlog⟩

/-! ## Legality words -/

namespace LoggedAction

/-- The entry of the game with a logged action and the bets at its time. -/
def entry (e : LoggedAction) (owed myBet bigBlind : Fin u64Bound) : ActionLogEntry :=
  ⟨e.seat, e.seq, e.action.text, e.amount, e.auto, e.sigOk, owed, myBet, bigBlind⟩

/-- A legality word is that of the logged action, whose default is lawful. -/
def Lawful (e : LoggedAction) (leg : Felt) : Prop :=
  ∃ owed myBet bigBlind, legalityWord (e.entry owed myBet bigBlind) = some leg ∧
    (e.auto = true → (legalAutoAction owed myBet bigBlind).map AutoActionKind.name = some e.action)

theorem legalityWord_entry {owed myBet bigBlind : Fin u64Bound} :
    legalityWord (e.entry owed myBet bigBlind) = some (if e.auto then
      natFelt (legWord e.action.kindCode owed myBet bigBlind) else 0) := by
  rw [← ActionName.actionKindCode_text]
  exact legalityWord_eq

end LoggedAction

/-- The words of an entry of 202 bits, whose legality word has the kind of the logged action and
means the same above its second bit as above its fourth. -/
structure ReadAlike (log leg : Felt) : Prop where
  log_lt : log.1 < 2 ^ 202
  kind : log.1 / 2 ^ 40 % 2 = 1 → ∀ a : ActionName, a.code = log.1 % 2 ^ 40 →
    a.kindCode = leg.1 % 4
  bets : log.1 / 2 ^ 40 % 2 = 1 → defaultAt 4 leg.1 = defaultAt p2_4 leg.1

theorem defaultAt_legWord {kind : ℕ} {owed myBet bigBlind : Fin u64Bound} (hkind : kind < 4) :
    defaultAt 4 (legWord kind owed myBet bigBlind) = legalAutoAction owed myBet bigBlind := by
  have hunpack : Packing.unpack legRadices (legWord kind owed myBet bigBlind) = _ :=
    Packing.unpack_pack (by
      simp only [legRadices, Packing.fits_cons]
      exact ⟨hkind, owed.2, myBet.2, bigBlind.2, .nil⟩)
  simp only [legRadices, Packing.unpack_cons, List.cons.injEq] at hunpack
  obtain ⟨-, howed, hbet, hblind, -⟩ := hunpack
  have hlt : legWord kind owed myBet bigBlind / 4 / u64Bound / u64Bound < u64Bound := by
    have : legWord kind owed myBet bigBlind < 2 ^ 194 := legWord_lt hkind
    unfold u64Bound
    omega
  rw [Nat.mod_eq_of_lt hlt] at hblind
  rw [defaultAt, howed, hbet, hblind]

theorem legWord_mod {kind : ℕ} {owed myBet bigBlind : Fin u64Bound} (hkind : kind < 4) :
    legWord kind owed myBet bigBlind % 4 = kind := by
  rw [legWord_eq, Nat.add_mul_mod_self_left, Nat.mod_eq_of_lt hkind]

/-- A number of 194 bits is a legality word. -/
theorem exists_legWord_eq {n : ℕ} (h : n < 2 ^ 194) :
    ∃ owed myBet bigBlind, legWord (n % 4) owed myBet bigBlind = n := by
  have hfits : Packing.Fits legRadices (Packing.unpack legRadices n) :=
    Packing.fits_unpack (by decide)
  have hpack := Packing.pack_unpack (legRadices_prod ▸ h)
  simp only [legRadices, Packing.unpack_cons, Packing.fits_cons] at hfits
  obtain ⟨-, howed, hbet, hblind, -⟩ := hfits
  exact ⟨⟨_, howed⟩, ⟨_, hbet⟩, ⟨_, hblind⟩, hpack⟩

namespace ActionOk

variable {count : ℕ} {words : List Felt}

/-- The flag of the server is the lowest above the action. -/
theorem flag_mod {n : ℕ} : n % p2_4 % 2 = n % 2 := Nat.mod_mod_of_dvd n (by decide)

theorem lawful_of_readAlike (h : ActionOk count words i) (hi : i < count)
    (he : e.word = (slot words (2 * i)).1)
    (hread : ReadAlike (slot words (2 * i)) (slot words (2 * i + 1))) :
    e.Lawful (slot words (2 * i + 1)) := by
  have hflag : (slot words (2 * i)).1 / 2 ^ 40 % p2_4 % 2 = e.auto.toNat := by
    rw [← he, LoggedAction.word_auto]
  by_cases hauto : e.auto = true
  · rw [hauto, Bool.toNat_true] at hflag
    obtain ⟨hlt, k, hk, hmod⟩ := assertLawfulDefault_eq_ok.mp (h.auto hi hflag)
    rw [flag_mod] at hflag
    have hkind := hread.kind hflag e.action (by rw [← he, LoggedAction.word_mod])
    obtain ⟨owed, myBet, bigBlind, hleg⟩ := exists_legWord_eq hlt
    refine ⟨owed, myBet, bigBlind, ?_, fun _ => ?_⟩
    · rw [LoggedAction.legalityWord_entry, if_pos hauto, hkind, hleg, natFelt_val_self]
    · have hdefault : legalAutoAction owed myBet bigBlind = some k := by
        rw [← hk, ← hread.bets hflag, ← hleg, defaultAt_legWord (Nat.mod_lt _ (by decide))]
      have hsame : k.name.kindCode = e.action.kindCode := by
        have := k.kindCode_lt
        rw [hkind, ← hmod, p2_4] at *
        omega
      rw [hdefault, Option.map_some, ActionName.kindCode_injective hsame]
  · have hfalse := Bool.eq_false_iff.mpr hauto
    have hzero : slot words (2 * i + 1) = 0 := by
      refine h.plain hi ?_
      rw [hflag, hfalse]
      decide
    have hpos : 0 < u64Bound := by decide
    refine ⟨⟨0, hpos⟩, ⟨0, hpos⟩, ⟨0, hpos⟩, ?_, fun h => absurd h hauto⟩
    rw [LoggedAction.legalityWord_entry, if_neg hauto, hzero]

theorem readAlike_of_lawful (h : ActionOk count words i) (hi : i < count)
    (he : e.word = (slot words (2 * i)).1) (hlaw : e.Lawful (slot words (2 * i + 1))) :
    ReadAlike (slot words (2 * i)) (slot words (2 * i + 1)) := by
  obtain ⟨owed, myBet, bigBlind, hleg, hdefault⟩ := hlaw
  have hauto : (slot words (2 * i)).1 / 2 ^ 40 % 2 = 1 → e.auto = true := by
    intro hflag
    rw [← flag_mod, ← he, LoggedAction.word_auto] at hflag
    simpa using hflag
  -- the legality word of an action of the server is its packed bets
  have hword : e.auto = true → (slot words (2 * i + 1)).1 =
      legWord e.action.kindCode owed myBet bigBlind := by
    intro ha
    rw [LoggedAction.legalityWord_entry, if_pos ha] at hleg
    rw [← Option.some.inj hleg]
    exact Nat.mod_eq_of_lt ((legWord_lt e.action.kindCode_lt).trans (by decide))
  constructor
  · rw [← he]
    exact LoggedAction.word_lt
  · intro hflag a ha
    rw [← he, LoggedAction.word_mod] at ha
    rw [hword (hauto hflag), legWord_mod e.action.kindCode_lt, ActionName.code_injective ha]
  · intro hflag
    have ha := hauto hflag
    rw [← flag_mod] at hflag
    obtain ⟨-, k, hk, hmod⟩ := assertLawfulDefault_eq_ok.mp (h.auto hi hflag)
    obtain ⟨k', hk', hname⟩ := Option.map_eq_some_iff.mp (hdefault ha)
    have hkind : k.name.kindCode = e.action.kindCode := by
      have hlt := k.kindCode_lt
      have hmod4 : legWord e.action.kindCode owed myBet bigBlind % 4 = e.action.kindCode :=
        legWord_mod e.action.kindCode_lt
      rw [← hword ha] at hmod4
      rw [p2_4] at hmod
      omega
    have hsame : k' = k :=
      AutoActionKind.name_injective (hname.trans (ActionName.kindCode_injective hkind).symm)
    rw [hk, hword ha, defaultAt_legWord e.action.kindCode_lt, hk', hsame]

end ActionOk

/-! ## The log of accepted inputs -/

/-- The legality word of an entry. -/
def SettlementInputs.legality (inputs : SettlementInputs) (i : ℕ) : Felt :=
  slot inputs.words (2 * i + 1)

/-- The registered digest is the chain of one list of actions, each with its legality word. -/
def LegalDefaults (P : Primitives) (S : Set (List Felt)) (inputs : SettlementInputs) : Prop :=
  ∃ log, ChainOf P S inputs.actionLogDigest log ∧
    (∀ log', ChainOf P S inputs.actionLogDigest log' → log' = log) ∧
    log.length = inputs.actionCount.1 ∧
    ∀ (i : ℕ) (e : LoggedAction), log[i]? = some e → e.Lawful (inputs.legality i)

/-- The words of every entry mean what the circuit reads in them. -/
def SettlementInputs.ReadAlike (inputs : SettlementInputs) : Prop :=
  ∀ i < inputs.actionCount.1,
    Contracts.ReadAlike (slot inputs.words (2 * i)) (inputs.legality i)

theorem getElem?_loggedWords {w : Felt} (h : inputs.loggedWords[i]? = some w) :
    i < inputs.actionCount.1 ∧ slot inputs.words (2 * i) = w := by
  rw [SettlementInputs.loggedWords, List.getElem?_map, Option.map_eq_some_iff] at h
  obtain ⟨j, hj, hw⟩ := h
  obtain ⟨hlt, rfl⟩ := List.getElem?_eq_some_iff.mp hj
  rw [List.getElem_range] at hw
  exact ⟨by simpa using hlt, hw⟩

/-- The words of the log are the absorbed ones, entry by entry. -/
theorem word_eq_of_logFelts (h : logFelts log = actionLogDomain :: inputs.loggedWords)
    (he : log[i]? = some e) :
    i < inputs.actionCount.1 ∧ e.word = (slot inputs.words (2 * i)).1 := by
  have hw : inputs.loggedWords[i]? = some (natFelt e.word) := by
    rw [← (List.cons.inj h).2, List.getElem?_map, he]
    rfl
  obtain ⟨hi, hslot⟩ := getElem?_loggedWords hw
  exact ⟨hi, by rw [hslot, LoggedAction.natFelt_word]⟩

theorem length_of_logFelts (h : logFelts log = actionLogDomain :: inputs.loggedWords) :
    log.length = inputs.actionCount.1 := by
  have hlen := congrArg List.length (List.cons.inj h).2
  simpa [SettlementInputs.loggedWords] using hlen

theorem legalDefaults_of_readAlike (hS : Set.InjOn P.poseidon S)
    (hmem : actionLogDomain :: inputs.loggedWords ∈ S) (ha : Accepts P inputs)
    (hread : inputs.ReadAlike) : LegalDefaults P S inputs := by
  obtain ⟨log, hlog⟩ : ∃ log, logFelts log = actionLogDomain :: inputs.loggedWords := by
    refine exists_logFelts_eq fun w hw => ?_
    obtain ⟨i, hi⟩ := List.mem_iff_getElem?.mp hw
    obtain ⟨hlt, rfl⟩ := getElem?_loggedWords hi
    exact ⟨(hread i hlt).log_lt, (ha.actions i (hlt.trans_le ha.count)).name hlt⟩
  have hchain : ChainOf P S inputs.actionLogDigest log := by
    rw [ChainOf, hlog]
    exact ⟨hmem, ha.chain⟩
  refine ⟨log, hchain, fun log' h => h.unique hS hchain, length_of_logFelts hlog, ?_⟩
  intro i e he
  obtain ⟨hi, hword⟩ := word_eq_of_logFelts hlog he
  exact (ha.actions i (hi.trans_le ha.count)).lawful_of_readAlike hi hword (hread i hi)

theorem readAlike_of_legalDefaults (hS : Set.InjOn P.poseidon S)
    (hmem : actionLogDomain :: inputs.loggedWords ∈ S) (ha : Accepts P inputs)
    (h : LegalDefaults P S inputs) : inputs.ReadAlike := by
  obtain ⟨log, hchain, -, hlen, hlaw⟩ := h
  have hlog : logFelts log = actionLogDomain :: inputs.loggedWords :=
    hS hchain.1 hmem (hchain.2.trans ha.chain.symm)
  intro i hi
  obtain ⟨e, he⟩ : ∃ e, log[i]? = some e := by
    rw [← hlen] at hi
    exact ⟨_, List.getElem?_eq_getElem hi⟩
  obtain ⟨-, hword⟩ := word_eq_of_logFelts hlog he
  exact (ha.actions i (hi.trans_le ha.count)).readAlike_of_lawful hi hword (hlaw i e he)

/-! ## Two accepted logs -/

/-- Inputs whose log has one entry, in a hand in which player nine wins the thousand of player
ten. -/
def oneAction (log leg : Felt) : SettlementInputs :=
  let words := [log, leg] ++ List.replicate 58 0
  let entries : List Entry := [⟨9, 1, 1000⟩, ⟨10, 0, 1000⟩] ++ List.replicate 6 ⟨0, 1, 0⟩
  let actionLogDigest := Chain.toyPrimitives.poseidon [actionLogDomain, log]
  { handId := 1
    registeredDigest := (Statement.mk 1 entries actionLogDigest).digest Chain.toyPrimitives
    nExpected := 2
    handBinding := 77
    entries
    commitments := [50, 51] ++ List.replicate 6 0
    actionLogDigest
    actionCount := 1
    words
    length_entries := rfl
    length_commitments := rfl
    length_words := rfl }

/-- The server calls four chips for a player on the big blind of forty. -/
def serverCall : LoggedAction :=
  ⟨⟨2, by decide⟩, ⟨5, by decide⟩, ⟨0, by decide⟩, true, false, .call⟩

def calledInputs : SettlementInputs :=
  oneAction (natFelt serverCall.word)
    (natFelt (legWord 1 ⟨40, by decide⟩ ⟨20, by decide⟩ ⟨40, by decide⟩))

theorem calledInputs_readAlike : calledInputs.ReadAlike := by
  have hcount : calledInputs.actionCount.1 = 1 := rfl
  intro i hi
  obtain rfl : i = 0 := by omega
  refine ⟨by decide +kernel, fun _ a ha => ?_, fun _ => by decide +kernel⟩
  have hcall : a = .call := ActionName.code_injective (ha.trans (by decide +kernel))
  subst hcall
  decide +kernel

/-- The server raises for a player who owes nothing. -/
def serverRaise : LoggedAction :=
  ⟨⟨2, by decide⟩, ⟨5, by decide⟩, ⟨500, by decide⟩, true, false, .raise⟩

def raisedInputs : SettlementInputs := oneAction (natFelt serverRaise.word) 0

/-- Accepted inputs hold lawful defaults exactly when the words of every entry mean what the
circuit reads in them. -/
theorem legalDefaults_iff (hS : Set.InjOn P.poseidon S)
    (hmem : actionLogDomain :: inputs.loggedWords ∈ S)
    (h : settlementPrivate P inputs = .ok segment) :
    LegalDefaults P S inputs ↔ inputs.ReadAlike := by
  have ha := (settlementPrivate_eq_ok.mp h).1
  exact ⟨readAlike_of_legalDefaults hS hmem ha, legalDefaults_of_readAlike hS hmem ha⟩

/-- The digest and the defaults of the called inputs, by the general theorem. -/
theorem calledInputs_legalDefaults : ∃ segment,
    settlementPrivate Chain.toyPrimitives calledInputs = .ok segment ∧
    LegalDefaults Chain.toyPrimitives {actionLogDomain :: calledInputs.loggedWords}
      calledInputs := by
  obtain ⟨segment, h⟩ := isOk_iff.mp
    (by decide +kernel : (settlementPrivate Chain.toyPrimitives calledInputs).isOk = true)
  exact ⟨segment, h, (legalDefaults_iff (Set.injOn_singleton _ _) (Set.mem_singleton _) h).mpr
    calledInputs_readAlike⟩

/-- The circuit accepts a raise of the server as the default of an empty legality word. -/
theorem raised_not_legalDefaults : ∃ segment,
    settlementPrivate Chain.toyPrimitives raisedInputs = .ok segment ∧
    ¬ LegalDefaults Chain.toyPrimitives {actionLogDomain :: raisedInputs.loggedWords}
      raisedInputs := by
  obtain ⟨segment, h⟩ := isOk_iff.mp
    (by decide +kernel : (settlementPrivate Chain.toyPrimitives raisedInputs).isOk = true)
  refine ⟨segment, h, fun hlegal => ?_⟩
  have hread := readAlike_of_legalDefaults (Set.injOn_singleton _ _) (Set.mem_singleton _)
    (settlementPrivate_eq_ok.mp h).1 hlegal
  have hkind := (hread 0 (by decide)).kind (by decide +kernel) .raise (by decide +kernel)
  exact absurd hkind (by decide +kernel)

end TexasPoker.Contracts
