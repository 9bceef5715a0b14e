import TexasPoker.Lib.Transition
import TexasPoker.Runtime.Dispatch

/-! # Sessions

The runs of a table: a fresh table under canonical rules, and one accepted dispatch
after another. A state of a session keeps every event emitted so far.
-/

namespace TexasPoker

variable {G : Type} [AddCommGroup G] [Protocol G] [DecidableEq G]

/-- The arguments of one dispatch. -/
structure Call where
  context : DispatchContext
  selector : Hash
  args : Bytes
  deriving DecidableEq

/-- A table without players under given rules. -/
def TexasPokerTable.fresh (id : ObjectID) (creator : Address) (rules : TableRules) :
    TexasPokerTable G :=
  { TexasPokerTable.new id creator rules.maxPlayers rules.smallBlind rules.bigBlind with rules }

/-- Run one call and record its events. -/
def Exec.call (s : Exec G) (c : Call) : PokerL1Result (Exec G) := do
  let (result, t) := dispatch c.context s.table c.selector c.args
  let result ← result
  return ⟨t, s.events ++ result.output.events⟩

/-- Accepted dispatches from a fresh table. -/
def session (G : Type) [AddCommGroup G] [Protocol G] [DecidableEq G] :
    TransitionSystem (Exec G) Call where
  init s := ∃ id creator rules, rules.validateCanonical = .ok () ∧ s = ⟨.fresh id creator rules, []⟩
  next s c s' := s.call c = .ok s'

/-- Tables some session reaches. -/
def TexasPokerTable.Reachable (t : TexasPokerTable G) : Prop :=
  ∃ events, (session G).Reachable ⟨t, events⟩

/-- An accepted call is an accepted dispatch whose events are recorded. -/
theorem Exec.call_dispatches {s s' : Exec G} {c : Call} (h : s.call c = .ok s') :
    ∃ r, dispatch c.context s.table c.selector c.args = (.ok r, s'.table) ∧
      s'.events = s.events ++ r.output.events := by
  unfold Exec.call at h
  generalize dispatch c.context s.table c.selector c.args = d at h ⊢
  obtain ⟨result, t⟩ := d
  obtain ⟨r, rfl, h⟩ := Fallible.bind_eq_ok.mp h
  cases h
  exact ⟨r, rfl, rfl⟩

/-- What an accepted dispatch ran: the command, the normalization, the betting clock, and the
counters of a changed table. -/
theorem dispatch_eq_ok {context : DispatchContext} {t t' : TexasPokerTable G} {selector : Hash}
    {args : Bytes} {r : DispatchResult G}
    (h : dispatch context t selector args = (.ok r, t')) :
    ∃ command s s' report u,
      CanonicalCommand.fromSelector G selector = some command ∧
      Exec.runCommand context args ⟨t, []⟩ command = .ok s ∧
      s.normalizeUntilBlocked context.blockTimestamp = .ok (s', report) ∧
      rearmBettingDeadline context s'.table = .ok u ∧
      advanceCounters t u s'.events = .ok t' ∧ r.output.events = s'.events := by
  unfold dispatch at h
  split at h
  · cases h
  rename_i command hc
  split at h
  · cases h
  rename_i s hs
  split at h
  · cases h
  rename_i s' report hn
  split at h
  · cases h
  rename_i u hu
  split at h
  · cases h
  rename_i v hv
  split at h
  · cases h
  rename_i output ho
  obtain ⟨hr, rfl⟩ := Prod.mk.inj h
  cases hr
  refine ⟨command, s, s', report, u, hc, hs, hn, hu, hv, ?_⟩
  unfold buildDispatchOutput at ho
  split at ho
  · cases ho
    rfl
  · simp only [Fallible.bind_eq_ok] at ho
    obtain ⟨-, -, -, -, ho⟩ := ho
    cases ho
    rfl

end TexasPoker
