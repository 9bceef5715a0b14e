import TexasPoker.Runtime.Client

/-! # Failed dispatches

Which failures of a dispatch put the table back. A failed command and a failed betting
clock do; the normalization, the counters and the output keep what the command did.
-/

namespace TexasPoker

variable {G : Type} [AddCommGroup G] [Protocol G] [DecidableEq G]

/-- A failed dispatch leaves its table as it was. -/
def RestoresOnError (context : DispatchContext) (t : TexasPokerTable G) (selector : Hash)
    (args : Bytes) : Prop :=
  ∀ e, (dispatch context t selector args).1 = .error e →
    (dispatch context t selector args).2 = t

/-- The counters have room for one more call, and for one more hand if one started. -/
def CountersFit (t : TexasPokerTable G) (events : List TexasPokerEvent) : Prop :=
  t.callSeq + 1 ≤ u32Max ∧
    (events.any TexasPokerEvent.isHandStarted = true → t.handId + 1 ≤ u32Max)

/-- The table with its counters after one more call. -/
def TexasPokerTable.counted (pre t : TexasPokerTable G) (events : List TexasPokerEvent) :
    TexasPokerTable G :=
  { t with
    callSeq := pre.callSeq + 1
    handId := if events.any TexasPokerEvent.isHandStarted then pre.handId + 1 else pre.handId }

/-- What can still fail, without a way back, after a command has led to `s`. -/
inductive UnrestoredFailure (context : DispatchContext) (pre : TexasPokerTable G) (s : Exec G) :
    Prop where
  | normalization : s.table ≠ pre →
      (∀ r, s.normalizeUntilBlocked context.blockTimestamp ≠ .ok r) →
      UnrestoredFailure context pre s
  | counters {s' : Exec G} {report : List NormalizationStep} {t : TexasPokerTable G} :
      s.normalizeUntilBlocked context.blockTimestamp = .ok (s', report) →
      rearmBettingDeadline context s'.table = .ok t → t ≠ pre →
      ¬ CountersFit pre s'.events → UnrestoredFailure context pre s
  | output {s' : Exec G} {report : List NormalizationStep} {t : TexasPokerTable G} :
      s.normalizeUntilBlocked context.blockTimestamp = .ok (s', report) →
      rearmBettingDeadline context s'.table = .ok t → t ≠ pre → CountersFit pre s'.events →
      ¬ (pre.persist = .ok () ∧ (pre.counted t s'.events).persist = .ok ()) →
      UnrestoredFailure context pre s

/-- The command is accepted, changes the table, and a later stage fails. -/
def LeavesChange (context : DispatchContext) (t : TexasPokerTable G) (selector : Hash)
    (args : Bytes) : Prop :=
  ∃ command s, CanonicalCommand.fromSelector G selector = some command ∧
    Exec.runCommand context args ⟨t, []⟩ command = .ok s ∧ UnrestoredFailure context t s

omit [AddCommGroup G] [Protocol G] [DecidableEq G] in
theorem counted_ne (pre t : TexasPokerTable G) (events : List TexasPokerEvent) :
    pre.counted t events ≠ pre := by
  intro h
  have : pre.callSeq + 1 = pre.callSeq := congrArg TexasPokerTable.callSeq h
  omega

omit [AddCommGroup G] [Protocol G] in
theorem advanceCounters_of_fit {pre t : TexasPokerTable G} {events : List TexasPokerEvent}
    (ht : t ≠ pre) (h : CountersFit pre events) :
    advanceCounters pre t events = .ok (pre.counted t events) := by
  obtain ⟨hc, hh⟩ := h
  rw [advanceCounters, if_neg ht, nextCounters, Fallible.ensure_pos hc, TexasPokerTable.counted]
  by_cases he : events.any TexasPokerEvent.isHandStarted = true
  · simp only [he, if_true, Fallible.ensure_pos (hh he), Fallible.ok_bind]
    rfl
  · simp only [he, Fallible.ok_bind]
    rfl

omit [AddCommGroup G] [Protocol G] in
theorem advanceCounters_eq_ok {pre t v : TexasPokerTable G} {events : List TexasPokerEvent}
    (h : advanceCounters pre t events = .ok v) :
    t = pre ∧ v = pre ∨ t ≠ pre ∧ CountersFit pre events ∧ v = pre.counted t events := by
  by_cases ht : t = pre
  · rw [advanceCounters, if_pos ht] at h
    cases h
    exact .inl ⟨ht, ht⟩
  · refine .inr ⟨ht, ?_⟩
    have hf : CountersFit pre events := by
      rw [advanceCounters, if_neg ht, Fallible.bind_eq_ok] at h
      obtain ⟨c, h, -⟩ := h
      rw [nextCounters, Fallible.bind_eq_ok] at h
      obtain ⟨_, hc, h⟩ := h
      refine ⟨Fallible.ensure_eq_ok.mp hc, fun he => ?_⟩
      rw [if_pos he, Fallible.bind_eq_ok] at h
      obtain ⟨_, hh, -⟩ := h
      exact Fallible.ensure_eq_ok.mp hh
    rw [advanceCounters_of_fit ht hf] at h
    cases h
    exact ⟨hf, rfl⟩

/-- The output of a changed table fails exactly when one of the tables cannot be stored. -/
theorem buildDispatchOutput_eq_error (events : List TexasPokerEvent) (command : CanonicalCommand)
    (pre t : TexasPokerTable G) :
    (∃ e, buildDispatchOutput events command pre t = .error e) ↔
      pre ≠ t ∧ ¬ (pre.persist = .ok () ∧ t.persist = .ok ()) := by
  rw [Fallible.exists_error_iff]
  unfold buildDispatchOutput
  by_cases h : pre = t
  · simp only [h, if_true, Fallible.pure_eq_ok, ne_eq, not_true_eq_false, false_and, iff_false]
    exact fun h => h _ rfl
  · simp only [h, if_false, Fallible.bind_eq_ok, labelled_eq_ok, ne_eq, not_false_eq_true,
      true_and]
    constructor
    · rintro hn ⟨hp, ht⟩
      exact hn _ ⟨(), hp, (), ht, rfl⟩
    · rintro hn _ ⟨_, hp, _, ht, _⟩
      exact hn ⟨hp, ht⟩

section Stages

variable {context : DispatchContext} {pre t : TexasPokerTable G} {s s' : Exec G}
  {report : List NormalizationStep} {e : PokerL1Error}

theorem unrestoredFailure_of_rejected
    (hn : s.normalizeUntilBlocked context.blockTimestamp = .error e) :
    UnrestoredFailure context pre s ↔ s.table ≠ pre := by
  constructor
  · intro h
    rcases h with ⟨h, -⟩ | ⟨h, -⟩ | ⟨h, -⟩
    · exact h
    · cases hn.symm.trans h
    · cases hn.symm.trans h
  · intro h
    exact .normalization h fun r hr => by cases hn.symm.trans hr

theorem not_unrestoredFailure_of_unarmed
    (hn : s.normalizeUntilBlocked context.blockTimestamp = .ok (s', report))
    (hu : rearmBettingDeadline context s'.table = .error e) :
    ¬ UnrestoredFailure context pre s := by
  rintro (⟨-, h⟩ | ⟨h, h'⟩ | ⟨h, h'⟩)
  · exact h _ hn
  · cases hn.symm.trans h
    cases hu.symm.trans h'
  · cases hn.symm.trans h
    cases hu.symm.trans h'

theorem unrestoredFailure_of_armed
    (hn : s.normalizeUntilBlocked context.blockTimestamp = .ok (s', report))
    (hu : rearmBettingDeadline context s'.table = .ok t) :
    UnrestoredFailure context pre s ↔ t ≠ pre ∧ (CountersFit pre s'.events →
      ¬ (pre.persist = .ok () ∧ (pre.counted t s'.events).persist = .ok ())) := by
  constructor
  · rintro (⟨-, h⟩ | ⟨h, h', ht, hf⟩ | ⟨h, h', ht, hf, ho⟩)
    · exact absurd hn (h _)
    · cases hn.symm.trans h
      cases hu.symm.trans h'
      exact ⟨ht, fun h => absurd h hf⟩
    · cases hn.symm.trans h
      cases hu.symm.trans h'
      exact ⟨ht, fun _ => ho⟩
  · rintro ⟨ht, h⟩
    by_cases hf : CountersFit pre s'.events
    · exact .output hn hu ht hf (h hf)
    · exact .counters hn hu ht hf

end Stages

/-- A failed dispatch puts the table back exactly when no stage after an accepted command
fails on a changed table. -/
theorem restoresOnError_iff (context : DispatchContext) (t : TexasPokerTable G) (selector : Hash)
    (args : Bytes) :
    RestoresOnError context t selector args ↔ ¬ LeavesChange context t selector args := by
  unfold RestoresOnError LeavesChange dispatch
  rcases hc : CanonicalCommand.fromSelector G selector with - | command
  · simp
  rcases hs : Exec.runCommand context args ⟨t, []⟩ command with e | s
  · simp [hs]
  rcases hn : s.normalizeUntilBlocked context.blockTimestamp with e | ⟨s', report⟩
  · simp [hs, hn, unrestoredFailure_of_rejected hn]
  rcases hu : rearmBettingDeadline context s'.table with e | u
  · simp [hs, hn, hu, not_unrestoredFailure_of_unarmed hn hu]
  rcases hv : advanceCounters t u s'.events with e | v
  · have hut : u ≠ t := by
      rintro rfl
      rw [advanceCounters, if_pos rfl] at hv
      cases hv
    have hf : ¬ CountersFit t s'.events := fun hf => by
      rw [advanceCounters_of_fit hut hf] at hv
      cases hv
    simp [hs, hn, hu, hv, unrestoredFailure_of_armed hn hu, hut, hf]
  rcases advanceCounters_eq_ok hv with ⟨rfl, rfl⟩ | ⟨hut, hf, rfl⟩
  · have hb : buildDispatchOutput s'.events command v v = .ok ⟨s'.events, none⟩ := if_pos rfl
    simp [hs, hn, hu, hv, hb, unrestoredFailure_of_armed hn hu]
  have ho := buildDispatchOutput_eq_error s'.events command t
    (t.counted u s'.events)
  rcases hb : buildDispatchOutput s'.events command t (t.counted u s'.events) with e | output
  · have := ho.mp ⟨e, hb⟩
    simp [hs, hn, hu, hv, hb, unrestoredFailure_of_armed hn hu, hut, hf, this.2, counted_ne]
  · have hp : ¬ (t ≠ t.counted u s'.events ∧
        ¬ (t.persist = .ok () ∧ (t.counted u s'.events).persist = .ok ())) := by
      rw [← ho]
      rintro ⟨e, he⟩
      cases hb.symm.trans he
    have := fun h => hp ⟨(counted_ne t u s'.events).symm, h⟩
    simp [hs, hn, hu, hv, hb, unrestoredFailure_of_armed hn hu, hut, hf, not_not.mp this]

namespace Transparent

/-- Default rules of a four-seat table. -/
abbrev fourSeats : TableRules := .new 4 50 100

/-- A player who has a seat and joins again with a second key is refused, but stays seated
twice: only the normalization finds the double seat. -/
theorem second_join_not_restored :
    (played fourSeats [.join 1 1000 2]).Reachable ∧
      let t := played fourSeats [.join 1 1000 2]
      let c := (ClientStep.join 1 1000 3).call t
      (dispatch c.context t c.selector c.args).1.isOk = false ∧
        ¬ RestoresOnError c.context t c.selector c.args := by
  refine ⟨played_reachable (by decide) _, ?_⟩
  intro t c
  have hr : (dispatch c.context t c.selector c.args).1.isOk = false := by decide +kernel
  refine ⟨hr, fun h => ?_⟩
  have ht : (dispatch c.context t c.selector c.args).2 ≠ t := by decide +kernel
  rcases hd : (dispatch c.context t c.selector c.args).1 with e | r
  · exact ht (h e hd)
  · rw [hd] at hr
    cases hr

end Transparent

end TexasPoker
