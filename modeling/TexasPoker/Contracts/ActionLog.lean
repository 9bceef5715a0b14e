import TexasPoker.Contracts.Statement
import TexasPoker.Lib.Packing

/-! # The action log

The actions of a hand, the word that logs each of them, and the word that carries the betting
context of an action that the server made for a player.
-/

namespace TexasPoker.Contracts

/-! ## Entries -/

/-- The actions that a log knows. -/
inductive ActionName
  | fold
  | check
  | call
  | raise
  deriving DecidableEq

namespace ActionName

def text : ActionName → String
  | fold => "FOLD"
  | check => "CHECK"
  | call => "CALL"
  | raise => "RAISE"

end ActionName

/-- An accepted action, or one that the server made on a timeout, with the bets at the time. -/
structure ActionLogEntry where
  seat : Fin u32Bound
  seq : Fin u64Bound
  action : String
  amount : Fin u64Bound
  auto : Bool
  sigOk : Bool
  owed : Fin u64Bound
  myBet : Fin u64Bound
  bigBlind : Fin u64Bound
  deriving DecidableEq

/-- The actions that the server makes for a player. -/
inductive AutoActionKind
  | check
  | call
  | fold
  deriving DecidableEq

namespace AutoActionKind

def name : AutoActionKind → ActionName
  | check => .check
  | call => .call
  | fold => .fold

theorem name_injective : Function.Injective name := by
  intro k k' h
  cases k <;> cases k' <;> first | rfl | cases h

end AutoActionKind

/-- The lawful default of a player who has not acted. -/
def legalAutoAction (callAmount myBet bigBlind : ℕ) : Option AutoActionKind :=
  if callAmount = 0 ∨ callAmount ≤ myBet then some .check
  else if callAmount - myBet ≤ bigBlind then some .call
  else some .fold

/-! ## Words -/

/-- A name as a number, its first letter highest. -/
def asciiWord (name : String) : ℕ := name.toList.foldl (fun acc c => acc * 256 + c.toNat) 0

/-- The code of an action, whichever case its name is written in. -/
def actionWord (action : String) : Option Felt :=
  let up := action.toUpper
  if up ∈ ["FOLD", "CHECK", "CALL", "RAISE"] then some (natFelt (asciiWord up)) else none

/-- One action, packed. -/
def actionEntryWord (e : ActionLogEntry) : Option Felt := do
  let action ← actionWord e.action
  let flags := e.auto.toNat + 2 * e.sigOk.toNat
  return action + natFelt flags * natFelt (2 ^ 40) + natFelt e.amount * natFelt (2 ^ 42) +
    natFelt e.seq * natFelt (2 ^ 106) + natFelt e.seat * natFelt (2 ^ 170)

/-- The code of an action in its legality word. -/
def actionKindCode (action : String) : ℕ :=
  if action = "CHECK" then 0 else if action = "CALL" then 1 else if action = "FOLD" then 2 else 3

/-- The context of an action of the server, packed. -/
def legalityWord (e : ActionLogEntry) : Option Felt :=
  if !e.auto then some 0
  else some (natFelt (actionKindCode e.action) + natFelt e.owed * natFelt (2 ^ 2) +
    natFelt e.myBet * natFelt (2 ^ 66) + natFelt e.bigBlind * natFelt (2 ^ 130))

/-- The digest of a log; it fails on an action that no log knows. -/
def actionLogDigestFelt (P : Primitives) (log : List ActionLogEntry) : Option Felt := do
  let words ← log.mapM actionEntryWord
  return P.poseidon (actionLogDomain :: words)

/-! ## Fields of the words -/

theorem natFelt_mul {a b : ℕ} : natFelt (a * b) = natFelt a * natFelt b := by
  apply Fin.ext
  rw [Fin.val_mul, natFelt_val, natFelt_val, natFelt_val, Nat.mul_mod]

namespace ActionName

variable {a b : ActionName}

def code (a : ActionName) : ℕ := asciiWord a.text

theorem code_injective : Function.Injective code := by
  intro a b h
  cases a <;> cases b <;> first | rfl | exact absurd h (by decide)

theorem code_lt : a.code < 2 ^ 40 := by
  cases a <;> decide

theorem mem_actionNames {n : ℕ} : n ∈ actionNames ↔ ∃ a : ActionName, a.code = n := by
  have hcodes : actionNames = [fold.code, check.code, call.code, raise.code] := by decide
  rw [hcodes]
  simp only [List.mem_cons, List.not_mem_nil, or_false]
  constructor
  · rintro (rfl | rfl | rfl | rfl)
    exacts [⟨fold, rfl⟩, ⟨check, rfl⟩, ⟨call, rfl⟩, ⟨raise, rfl⟩]
  · rintro ⟨a, rfl⟩
    cases a <;> simp

/-- The action with a name in any case. -/
def ofText (action : String) : Option ActionName :=
  [fold, check, call, raise].find? fun a => a.text = action.toUpper

theorem actionWord_eq {action : String} : actionWord action = (ofText action).map
    fun a => natFelt a.code := by
  unfold actionWord ofText
  generalize action.toUpper = up
  by_cases hf : up = "FOLD"
  · subst hf
    decide
  by_cases hch : up = "CHECK"
  · subst hch
    decide
  by_cases hca : up = "CALL"
  · subst hca
    decide
  by_cases hr : up = "RAISE"
  · subst hr
    decide
  simp [hf, hch, hca, hr, text, eq_comm]

/-- The code that the legality word has for an action. -/
def kindCode : ActionName → ℕ
  | check => 0
  | call => 1
  | fold => 2
  | raise => 3

theorem kindCode_injective : Function.Injective kindCode := by
  intro a b h
  cases a <;> cases b <;> first | rfl | cases h

theorem kindCode_lt : a.kindCode < 4 := by
  cases a <;> decide

theorem actionKindCode_text : actionKindCode a.text = a.kindCode := by
  cases a <;> decide

end ActionName

/-- The radices of a log word: action, flags, amount, number and seat. -/
def logRadices : List ℕ := [2 ^ 40, 4, u64Bound, u64Bound, u32Bound]

/-- The radices of a legality word: kind, owed, own bet and big blind. -/
def legRadices : List ℕ := [4, u64Bound, u64Bound, u64Bound]

theorem logRadices_prod : logRadices.prod = 2 ^ 202 := by decide

theorem legRadices_prod : legRadices.prod = 2 ^ 194 := by decide

/-- What a log word says. -/
structure LoggedAction where
  seat : Fin u32Bound
  seq : Fin u64Bound
  amount : Fin u64Bound
  auto : Bool
  sigOk : Bool
  action : ActionName
  deriving DecidableEq

namespace LoggedAction

variable {e e' : LoggedAction} {w : ℕ}

def fields (e : LoggedAction) : List ℕ :=
  [e.action.code, e.auto.toNat + 2 * e.sigOk.toNat, e.amount, e.seq, e.seat]

def word (e : LoggedAction) : ℕ := Packing.pack logRadices e.fields

theorem fits_fields : Packing.Fits logRadices e.fields := by
  have hflags : e.auto.toNat + 2 * e.sigOk.toNat < 4 := by
    have := e.auto.toNat_lt
    have := e.sigOk.toNat_lt
    omega
  simp only [logRadices, fields, Packing.fits_cons]
  exact ⟨ActionName.code_lt, hflags, e.amount.2, e.seq.2, e.seat.2, .nil⟩

theorem word_lt : e.word < 2 ^ 202 := logRadices_prod ▸ Packing.pack_lt fits_fields

theorem word_injective : Function.Injective word := by
  intro e e' h
  have hfields := Packing.pack_injective fits_fields fits_fields h
  simp only [fields, List.cons.injEq, and_true] at hfields
  obtain ⟨haction, hflags, hamount, hseq, hseat⟩ := hfields
  have hauto : e.auto = e'.auto ∧ e.sigOk = e'.sigOk := by
    revert hflags
    cases e.auto <;> cases e'.auto <;> cases e.sigOk <;> cases e'.sigOk <;> simp
  obtain ⟨seat, seq, amount, auto, sigOk, action⟩ := e
  obtain ⟨seat', seq', amount', auto', sigOk', action'⟩ := e'
  obtain ⟨rfl, rfl⟩ := hauto
  cases ActionName.code_injective haction
  cases Fin.ext hamount
  cases Fin.ext hseq
  cases Fin.ext hseat
  rfl

theorem word_eq : e.word = e.action.code + 2 ^ 40 * ((e.auto.toNat + 2 * e.sigOk.toNat) +
    4 * (e.amount + u64Bound * (e.seq + u64Bound * e.seat))) := by
  simp [word, fields, logRadices, Packing.pack]

theorem word_mod : e.word % 2 ^ 40 = e.action.code := by
  rw [word_eq, Nat.add_mul_mod_self_left, Nat.mod_eq_of_lt ActionName.code_lt]

/-- The flag of an action of the server is the lowest above the action. -/
theorem word_auto : e.word / 2 ^ 40 % p2_4 % 2 = e.auto.toNat := by
  have hdiv : e.word / 2 ^ 40 = (e.auto.toNat + 2 * e.sigOk.toNat) +
      4 * (e.amount + u64Bound * (e.seq + u64Bound * e.seat)) := by
    rw [word_eq, Nat.add_mul_div_left _ _ (by decide), Nat.div_eq_of_lt ActionName.code_lt,
      zero_add]
  have := e.auto.toNat_lt
  rw [hdiv, p2_4]
  omega

theorem toNat_flags {n : ℕ} (h : n < 4) :
    (decide (n % 2 = 1)).toNat + 2 * (decide (n / 2 = 1)).toNat = n := by
  rcases (by omega : n = 0 ∨ n = 1 ∨ n = 2 ∨ n = 3) with rfl | rfl | rfl | rfl <;> rfl

/-- A number of 202 bits that names an action is the word of one. -/
theorem exists_word_eq {n : ℕ} (h : n < 2 ^ 202) (hname : n % 2 ^ 40 ∈ actionNames) :
    ∃ e : LoggedAction, e.word = n := by
  obtain ⟨action, haction⟩ := ActionName.mem_actionNames.mp hname
  have hfits : Packing.Fits logRadices (Packing.unpack logRadices n) :=
    Packing.fits_unpack (by decide)
  have hpack := Packing.pack_unpack (logRadices_prod ▸ h)
  simp only [logRadices, Packing.unpack_cons, Packing.fits_cons] at hfits
  obtain ⟨-, hflags, hamount, hseq, hseat, -⟩ := hfits
  refine ⟨⟨⟨_, hseat⟩, ⟨_, hseq⟩, ⟨_, hamount⟩, n / 2 ^ 40 % 4 % 2 = 1,
    n / 2 ^ 40 % 4 / 2 = 1, action⟩, ?_⟩
  rw [word, fields, haction, toNat_flags hflags]
  exact hpack

end LoggedAction

/-- What a log word says of an entry. -/
def ActionLogEntry.logged (e : ActionLogEntry) (action : ActionName) : LoggedAction :=
  ⟨e.seat, e.seq, e.amount, e.auto, e.sigOk, action⟩

theorem actionEntryWord_eq {e : ActionLogEntry} : actionEntryWord e =
    (ActionName.ofText e.action).map fun a => natFelt (e.logged a).word := by
  rw [actionEntryWord, ActionName.actionWord_eq]
  cases ActionName.ofText e.action with
  | none => rfl
  | some a =>
    refine congrArg some ?_
    simp only [LoggedAction.word_eq, ← natFelt_mul, ← natFelt_add]
    congr 1
    simp only [ActionLogEntry.logged, u64Bound]
    ring

/-! ## Legality words -/

/-- A legality word as a number. -/
def legWord (kind : ℕ) (owed myBet bigBlind : Fin u64Bound) : ℕ :=
  Packing.pack legRadices [kind, owed, myBet, bigBlind]

theorem legWord_eq {kind : ℕ} {owed myBet bigBlind : Fin u64Bound} :
    legWord kind owed myBet bigBlind =
      kind + 4 * (owed + u64Bound * (myBet + u64Bound * bigBlind)) := by
  simp [legWord, legRadices, Packing.pack]

theorem legalityWord_eq {e : ActionLogEntry} : legalityWord e = some (if e.auto then
    natFelt (legWord (actionKindCode e.action) e.owed e.myBet e.bigBlind) else 0) := by
  unfold legalityWord
  cases e.auto with
  | false => rfl
  | true =>
    refine congrArg some ?_
    rw [if_pos rfl, legWord_eq]
    simp only [← natFelt_mul, ← natFelt_add]
    congr 1
    simp only [u64Bound]
    ring

theorem actionKindCode_lt {action : String} : actionKindCode action < 4 := by
  unfold actionKindCode
  split_ifs <;> decide

theorem legWord_lt {kind : ℕ} {owed myBet bigBlind : Fin u64Bound} (h : kind < 4) :
    legWord kind owed myBet bigBlind < 2 ^ 194 := by
  refine legRadices_prod ▸ Packing.pack_lt ?_
  simp only [legRadices, Packing.fits_cons]
  exact ⟨h, owed.2, myBet.2, bigBlind.2, .nil⟩

end TexasPoker.Contracts
