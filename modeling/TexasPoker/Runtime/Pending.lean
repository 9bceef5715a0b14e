import TexasPoker.Core.Basic
import Mathlib.Logic.Relation

/-! # The entry queue

Commands that come before their window wait here. The queue keeps, replays and buries
entries; whether one applies is the judgement of the caller's `apply`.
-/

namespace TexasPoker

/-- A command that waits. -/
structure PendingEntry (E : Type) where
  envelope : E
  selector : Hash
  args : Bytes
  holdCount : ℕ
  lastReject : Option String
  deriving DecidableEq

/-- The judgement of one try. -/
inductive ApplyOutcome where
  | applied
  | hold
  | reject (e : PokerL1Error)
  deriving DecidableEq

/-- What an entry asks for, whatever has been tried. -/
def PendingEntry.command {E : Type} (entry : PendingEntry E) : E × Hash × Bytes :=
  (entry.envelope, entry.selector, entry.args)

structure PendingQueue (E : Type) where
  entries : List (PendingEntry E)
  dead : List (PendingEntry E)
  maxEntries : ℕ
  heldTotal : ℕ
  flushedTotal : ℕ
  deadDropped : ℕ

/-- The dead letters that are kept. -/
def maxDead : ℕ := 128

/-- The holds after which an entry is buried. -/
def maxHolds : ℕ := 64

namespace PendingQueue

variable {E σ : Type}

def new (maxEntries : ℕ) : PendingQueue E where
  entries := []
  dead := []
  maxEntries
  heldTotal := 0
  flushedTotal := 0
  deadDropped := 0

/-- Bury an entry; beyond the limit it is only counted. -/
def deadLetter (q : PendingQueue E) (entry : PendingEntry E) : PendingQueue E :=
  if maxDead ≤ q.dead.length then { q with deadDropped := q.deadDropped + 1 }
  else { q with dead := q.dead ++ [entry] }

def clear (q : PendingQueue E) : PendingQueue E := { q with entries := [], dead := [] }

variable (apply : E → Hash → Bytes → σ → ApplyOutcome × σ)

/-- Try an entry in a state. -/
def tryEntry (entry : PendingEntry E) (s : σ) : ApplyOutcome × σ :=
  apply entry.envelope entry.selector entry.args s

def submit (q : PendingQueue E) (envelope : E) (selector : Hash) (args : Bytes) (s : σ) :
    PokerL1Result Unit × PendingQueue E × σ :=
  match apply envelope selector args s with
  | (.applied, s) => (.ok (), q, s)
  | (.hold, s) =>
    if q.maxEntries ≤ q.entries.length then
      (.error (.other s!"pending queue full ({q.maxEntries}) — backpressure, retry later"), q, s)
    else
      let entries := q.entries ++ [⟨envelope, selector, args, 0, none⟩]
      (.ok (), { q with entries, heldTotal := q.heldTotal + 1 }, s)
  | (.reject e, s) => (.error e, q, s)

/-- The queue and the state during a pass, and how many entries were applied. -/
structure Pass (E σ : Type) where
  queue : PendingQueue E
  state : σ
  flushed : ℕ

/-- What becomes of an entry that was tried; the entries that stay are appended. -/
def settle (q : PendingQueue E) (entry : PendingEntry E) : ApplyOutcome → PendingQueue E
  | .applied => { q with flushedTotal := q.flushedTotal + 1 }
  | .reject e => q.deadLetter { entry with lastReject := some e.text }
  | .hold =>
    let entry := { entry with holdCount := entry.holdCount + 1 }
    if maxHolds ≤ entry.holdCount then q.deadLetter entry
    else { q with entries := q.entries ++ [entry] }

/-- Try the next entry of a pass. -/
def tryNext (p : Pass E σ) (entry : PendingEntry E) : Pass E σ :=
  let r := tryEntry apply entry p.state
  ⟨p.queue.settle entry r.1, r.2, if r.1 = .applied then p.flushed + 1 else p.flushed⟩

/-- Try the entries in order, each once. The queue holds those that stayed. -/
def flushEntries (entries : List (PendingEntry E)) (p : Pass E σ) : Pass E σ :=
  entries.foldl (tryNext apply) p

/-- One round over all entries. -/
def flushPass (q : PendingQueue E) (s : σ) : Pass E σ :=
  flushEntries apply q.entries ⟨{ q with entries := [] }, s, 0⟩

/-- Rounds until one applies nothing. -/
def flushRounds : ℕ → PendingQueue E → σ → Pass E σ
  | 0, q, s => ⟨q, s, 0⟩
  | rounds + 1, q, s =>
    let p := flushPass apply q s
    if p.flushed = 0 then p
    else
      let later := flushRounds rounds p.queue p.state
      { later with flushed := p.flushed + later.flushed }

/-- Every round but the last removes an entry, so one more round than entries is enough. -/
def flush (q : PendingQueue E) (s : σ) : Pass E σ := flushRounds apply (q.entries.length + 1) q s

variable {apply} {q : PendingQueue E} {s s' : σ} {entry : PendingEntry E} {p : Pass E σ}
  {outcome : ApplyOutcome} {rest : List (PendingEntry E)} {rounds : ℕ}

/-! ## Enough rounds -/

@[simp] theorem deadLetter_entries : (q.deadLetter entry).entries = q.entries := by
  unfold deadLetter
  split <;> rfl

theorem settle_entries_length (q : PendingQueue E) (entry : PendingEntry E)
    (outcome : ApplyOutcome) : (q.settle entry outcome).entries.length ≤
    q.entries.length + if outcome = .applied then 0 else 1 := by
  cases outcome with
  | applied => simp [settle]
  | reject e => simp [settle]
  | hold =>
    simp only [settle]
    split <;> simp

theorem tryNext_length (p : Pass E σ) (entry : PendingEntry E) :
    (tryNext apply p entry).queue.entries.length + (tryNext apply p entry).flushed ≤
      p.queue.entries.length + p.flushed + 1 := by
  have hs := settle_entries_length p.queue entry (tryEntry apply entry p.state).1
  simp only [tryNext]
  split at hs
  · rename_i h
    rw [if_pos h]
    omega
  · rename_i h
    rw [if_neg h]
    omega

theorem flushEntries_length (rest : List (PendingEntry E)) (p : Pass E σ) :
    (flushEntries apply rest p).queue.entries.length + (flushEntries apply rest p).flushed ≤
      p.queue.entries.length + p.flushed + rest.length := by
  induction rest generalizing p with
  | nil => exact le_rfl
  | cons entry rest ih =>
    have hnext : (tryNext apply p entry).queue.entries.length + _ ≤ _ := tryNext_length p entry
    have hrest := ih (tryNext apply p entry)
    rw [List.length_cons]
    change (flushEntries apply rest (tryNext apply p entry)).queue.entries.length +
      (flushEntries apply rest (tryNext apply p entry)).flushed ≤ _
    omega

theorem flushPass_length (q : PendingQueue E) (s : σ) : (flushPass apply q s).queue.entries.length +
    (flushPass apply q s).flushed ≤ q.entries.length := by
  have h : (flushPass apply q s).queue.entries.length + (flushPass apply q s).flushed ≤ _ :=
    flushEntries_length q.entries ⟨{ q with entries := [] }, s, 0⟩
  simpa using h

/-- More rounds than `flush` makes change nothing. -/
theorem flushRounds_stable {n m : ℕ} (hn : q.entries.length < n) (hm : q.entries.length < m) :
    flushRounds apply n q s = flushRounds apply m q s := by
  induction n generalizing m q s with
  | zero => omega
  | succ n ih =>
    obtain ⟨m, rfl⟩ := Nat.exists_eq_add_of_lt (Nat.zero_lt_of_lt hm)
    rw [Nat.zero_add, flushRounds, flushRounds]
    split
    · rfl
    · rename_i hp
      have hlen : (flushPass apply q s).queue.entries.length + _ ≤ _ := flushPass_length q s
      rw [ih (m := m) (by omega) (by omega)]

/-! ## What is tried -/

/-- A pass over entries tries `entry` in the state `s'`. -/
inductive PassTries (apply : E → Hash → Bytes → σ → ApplyOutcome × σ) :
    List (PendingEntry E) → σ → PendingEntry E → σ → Prop where
  | here {entry : PendingEntry E} {rest : List (PendingEntry E)} {s : σ} :
      PassTries apply (entry :: rest) s entry s
  | later {entry entry' : PendingEntry E} {rest : List (PendingEntry E)} {s s' : σ} :
      PassTries apply rest (tryEntry apply entry s).2 entry' s' →
        PassTries apply (entry :: rest) s entry' s'

/-- A flush tries `entry` in the state `s'`. -/
inductive Tries (apply : E → Hash → Bytes → σ → ApplyOutcome × σ) :
    PendingQueue E → σ → PendingEntry E → σ → Prop where
  | pass {q : PendingQueue E} {s s' : σ} {entry : PendingEntry E} :
      PassTries apply q.entries s entry s' → Tries apply q s entry s'
  | round {q : PendingQueue E} {s s' : σ} {entry : PendingEntry E} :
      (flushPass apply q s).flushed ≠ 0 →
        Tries apply (flushPass apply q s).queue (flushPass apply q s).state entry s' →
          Tries apply q s entry s'

/-- A dead letter of a flush is old, or was tried and not applied. -/
def Buried (apply : E → Hash → Bytes → σ → ApplyOutcome × σ)
    (tries : PendingEntry E → σ → Prop) (dead : List (PendingEntry E)) (d : PendingEntry E) : Prop :=
  d ∈ dead ∨ ∃ entry s', tries entry s' ∧ d.envelope = entry.envelope ∧
    (tryEntry apply entry s').1 ≠ .applied

theorem mem_dead_deadLetter {d : PendingEntry E} (h : d ∈ (q.deadLetter entry).dead) :
    d ∈ q.dead ∨ d = entry := by
  unfold deadLetter at h
  split at h
  · exact .inl h
  · simpa using h

theorem mem_dead_settle {d : PendingEntry E} (h : d ∈ (q.settle entry outcome).dead) :
    d ∈ q.dead ∨ d.envelope = entry.envelope ∧ outcome ≠ .applied := by
  cases outcome with
  | applied => exact .inl h
  | reject e =>
    rcases mem_dead_deadLetter h with h | rfl
    · exact .inl h
    · exact .inr ⟨rfl, nofun⟩
  | hold =>
    simp only [settle] at h
    split at h
    · rcases mem_dead_deadLetter h with h | rfl
      · exact .inl h
      · exact .inr ⟨rfl, nofun⟩
    · exact .inl h

theorem buried_flushEntries {d : PendingEntry E} (h : d ∈ (flushEntries apply rest p).queue.dead) :
    Buried apply (PassTries apply rest p.state) p.queue.dead d := by
  induction rest generalizing p with
  | nil => exact .inl h
  | cons entry rest ih =>
    rcases ih (p := tryNext apply p entry) h with hold | ⟨entry', s', ht, hd, ho⟩
    · rcases mem_dead_settle hold with hold | ⟨hd, ho⟩
      · exact .inl hold
      · exact .inr ⟨entry, p.state, .here, hd, ho⟩
    · exact .inr ⟨entry', s', .later ht, hd, ho⟩

theorem buried_flushRounds {d : PendingEntry E} (h : d ∈ (flushRounds apply rounds q s).queue.dead) :
    Buried apply (Tries apply q s) q.dead d := by
  induction rounds generalizing q s with
  | zero => exact .inl h
  | succ rounds ih =>
    have hpass (h : d ∈ (flushPass apply q s).queue.dead) : Buried apply (Tries apply q s) q.dead d := by
      rcases buried_flushEntries h with hold | ⟨entry, s', ht, hd, ho⟩
      · exact .inl hold
      · exact .inr ⟨entry, s', .pass ht, hd, ho⟩
    simp only [flushRounds] at h
    split at h
    · exact hpass h
    · rename_i hp
      rcases ih h with hold | ⟨entry, s', ht, hd, ho⟩
      · exact hpass hold
      · exact .inr ⟨entry, s', .round hp ht, hd, ho⟩

/-! ## What becomes of an entry -/

/-- More tries lead from one state to the other. -/
def GoesOn (apply : E → Hash → Bytes → σ → ApplyOutcome × σ) : σ → σ → Prop :=
  Relation.ReflTransGen fun s s' => ∃ envelope selector args,
    s' = (apply envelope selector args s).2

/-- The entry was buried between the two queues, or counted where burials are only counted. -/
def Buries (q q' : PendingQueue E) (entry : PendingEntry E) : Prop :=
  (∃ d ∈ q'.dead, d.command = entry.command) ∨ q.deadDropped < q'.deadDropped

/-- What becomes of an entry that was last tried with an outcome: it is applied, stays in the
queue, or is buried. -/
inductive Fate (q q' : PendingQueue E) (entry : PendingEntry E) : ApplyOutcome → Prop where
  | applied : Fate q q' entry .applied
  | held {kept : PendingEntry E} : kept ∈ q'.entries → kept.command = entry.command →
      Fate q q' entry .hold
  | buried {outcome : ApplyOutcome} : outcome ≠ .applied → Buries q q' entry →
      Fate q q' entry outcome

/-- Burials only add to the dead letters and their count. -/
structure Graves (q q' : PendingQueue E) : Prop where
  dead : ∀ d ∈ q.dead, d ∈ q'.dead
  dropped : q.deadDropped ≤ q'.deadDropped

variable {q' q'' : PendingQueue E}

theorem Graves.of_eq (hdead : q'.dead = q.dead) (hdropped : q'.deadDropped = q.deadDropped) :
    Graves q q' :=
  ⟨fun _ h => hdead ▸ h, hdropped.ge⟩

theorem Graves.trans (h : Graves q q') (h' : Graves q' q'') : Graves q q'' :=
  ⟨fun d hd => h'.dead d (h.dead d hd), h.dropped.trans h'.dropped⟩

theorem Buries.mono (hb : Buries q q' entry) (h : Graves q' q'') : Buries q q'' entry := by
  rcases hb with ⟨d, hd, hcommand⟩ | hlt
  · exact .inl ⟨d, h.dead d hd, hcommand⟩
  · exact .inr (hlt.trans_le h.dropped)

theorem Buries.after (h : Graves q q') (hb : Buries q' q'' entry) : Buries q q'' entry :=
  hb.imp_right h.dropped.trans_lt

/-- What became of an entry since a later queue has become of it since an earlier one. -/
theorem Fate.after (h : Graves q q') (hfate : Fate q' q'' entry outcome) :
    Fate q q'' entry outcome := by
  cases hfate with
  | applied => exact .applied
  | held hmem hcommand => exact .held hmem hcommand
  | buried hne hb => exact .buried hne (hb.after h)

theorem graves_deadLetter : Graves q (q.deadLetter entry) := by
  unfold deadLetter
  split
  · exact ⟨fun _ h => h, Nat.le_succ _⟩
  · exact ⟨fun _ h => List.mem_append_left _ h, le_rfl⟩

theorem buries_deadLetter {buried : PendingEntry E} (h : buried.command = entry.command) :
    Buries q (q.deadLetter buried) entry := by
  unfold deadLetter
  split
  · exact .inr (Nat.lt_succ_self _)
  · exact .inl ⟨buried, List.mem_append_right _ (List.mem_singleton_self _), h⟩

theorem graves_settle : Graves q (q.settle entry outcome) := by
  cases outcome with
  | applied => exact .of_eq rfl rfl
  | reject e => exact graves_deadLetter
  | hold =>
    simp only [settle]
    split
    · exact graves_deadLetter
    · exact .of_eq rfl rfl

theorem fate_settle : Fate q (q.settle entry outcome) entry outcome := by
  cases outcome with
  | applied => exact .applied
  | reject e => exact .buried nofun (buries_deadLetter rfl)
  | hold =>
    simp only [settle]
    split
    · exact .buried nofun (buries_deadLetter rfl)
    · exact .held (List.mem_append_right _ (List.mem_singleton_self _)) rfl

theorem mem_entries_settle {kept : PendingEntry E} (h : kept ∈ q.entries) :
    kept ∈ (q.settle entry outcome).entries := by
  cases outcome with
  | applied => exact h
  | reject e =>
    simp only [settle, deadLetter_entries]
    exact h
  | hold =>
    simp only [settle]
    split
    · rw [deadLetter_entries]
      exact h
    · exact List.mem_append_left _ h

variable (apply) in
/-- A pass keeps what it has settled. -/
theorem flushEntries_keeps (rest : List (PendingEntry E)) (p : Pass E σ) :
    Graves p.queue (flushEntries apply rest p).queue ∧
      (∀ kept ∈ p.queue.entries, kept ∈ (flushEntries apply rest p).queue.entries) ∧
        GoesOn apply p.state (flushEntries apply rest p).state := by
  induction rest generalizing p with
  | nil => exact ⟨.of_eq rfl rfl, fun _ h => h, .refl⟩
  | cons entry rest ih =>
    obtain ⟨hgraves, hkept, hstates⟩ := ih (tryNext apply p entry)
    refine ⟨graves_settle.trans hgraves, fun kept h => hkept kept (mem_entries_settle h), ?_⟩
    exact .head ⟨entry.envelope, entry.selector, entry.args, rfl⟩ hstates

variable (apply) in
theorem flushPass_keeps (q : PendingQueue E) (s : σ) :
    Graves q (flushPass apply q s).queue ∧ GoesOn apply s (flushPass apply q s).state := by
  obtain ⟨hgraves, -, hstates⟩ :=
    flushEntries_keeps apply q.entries ⟨{ q with entries := [] }, s, 0⟩
  exact ⟨⟨hgraves.dead, hgraves.dropped⟩, hstates⟩

variable (apply) in
theorem fate_flushEntries (he : entry ∈ rest) : ∃ s', PassTries apply rest p.state entry s' ∧
    Fate p.queue (flushEntries apply rest p).queue entry (tryEntry apply entry s').1 := by
  induction rest generalizing p with
  | nil => cases he
  | cons first rest ih =>
    have hgraves : Graves p.queue (tryNext apply p first).queue := graves_settle
    rcases List.mem_cons.mp he with rfl | he
    · refine ⟨p.state, .here, ?_⟩
      obtain ⟨hlater, hkept, -⟩ := flushEntries_keeps apply rest (tryNext apply p entry)
      have hfate : Fate p.queue (tryNext apply p entry).queue entry
        (tryEntry apply entry p.state).1 := fate_settle
      generalize (tryEntry apply entry p.state).1 = outcome at hfate ⊢
      cases hfate with
      | applied => exact .applied
      | held hmem hcommand => exact .held (hkept _ hmem) hcommand
      | buried hne hb => exact .buried hne (hb.mono hlater)
    · obtain ⟨s', htries, hfate⟩ := ih (p := tryNext apply p first) he
      exact ⟨s', .later htries, hfate.after hgraves⟩

variable (apply) in
theorem fate_flushPass (s : σ) (he : entry ∈ q.entries) :
    ∃ s', PassTries apply q.entries s entry s' ∧
      Fate q (flushPass apply q s).queue entry (tryEntry apply entry s').1 := by
  obtain ⟨s', htries, hfate⟩ := fate_flushEntries apply (p := ⟨{ q with entries := [] }, s, 0⟩) he
  refine ⟨s', htries, ?_⟩
  generalize (tryEntry apply entry s').1 = outcome at hfate ⊢
  cases hfate with
  | applied => exact .applied
  | held hmem hcommand => exact .held hmem hcommand
  | buried hne hb => exact .buried hne hb

/-- A flush is one round, and a flush of what it left if it applied something. -/
theorem flush_eq (q : PendingQueue E) (s : σ) : flush apply q s =
    if (flushPass apply q s).flushed = 0 then flushPass apply q s
    else
      let later := flush apply (flushPass apply q s).queue (flushPass apply q s).state
      { later with flushed := (flushPass apply q s).flushed + later.flushed } := by
  unfold flush
  rw [flushRounds]
  dsimp only
  split
  · rfl
  · rename_i hgo
    have hlen : (flushPass apply q s).queue.entries.length + _ ≤ _ := flushPass_length q s
    rw [flushRounds_stable (n := q.entries.length) (by omega) (Nat.lt_succ_self _)]

variable (apply) in
/-- Every round before the last one leaves fewer entries. -/
theorem flush_induction {motive : PendingQueue E → σ → Prop}
    (stop : ∀ q s, (flushPass apply q s).flushed = 0 → motive q s)
    (go : ∀ q s, (flushPass apply q s).flushed ≠ 0 →
      motive (flushPass apply q s).queue (flushPass apply q s).state → motive q s)
    (q : PendingQueue E) (s : σ) : motive q s := by
  induction hn : q.entries.length using Nat.strong_induction_on generalizing q s with
  | _ n ih =>
    by_cases hstop : (flushPass apply q s).flushed = 0
    · exact stop q s hstop
    · have hlen : (flushPass apply q s).queue.entries.length + _ ≤ _ := flushPass_length q s
      exact go q s hstop (ih _ (by omega) _ _ rfl)

variable (apply) in
theorem flush_keeps_graves (q : PendingQueue E) (s : σ) :
    Graves q (flush apply q s).queue ∧ GoesOn apply s (flush apply q s).state := by
  refine flush_induction apply (motive := fun q s => Graves q (flush apply q s).queue ∧
    GoesOn apply s (flush apply q s).state) (fun q s hstop => ?_) (fun q s hgo ih => ?_) q s
  · rw [flush_eq, if_pos hstop]
    exact flushPass_keeps apply q s
  · rw [flush_eq, if_neg hgo]
    exact ⟨(flushPass_keeps apply q s).1.trans ih.1, (flushPass_keeps apply q s).2.trans ih.2⟩

/-- A flush tries every entry, and its last try of one decides what becomes of it. -/
theorem fate_flush (he : entry ∈ q.entries) : ∃ tried s', Tries apply q s tried s' ∧
    tried.command = entry.command ∧
      Fate q (flush apply q s).queue tried (tryEntry apply tried s').1 := by
  revert entry
  refine flush_induction apply (motive := fun q s => ∀ {entry}, entry ∈ q.entries →
    ∃ tried s', Tries apply q s tried s' ∧ tried.command = entry.command ∧
      Fate q (flush apply q s).queue tried (tryEntry apply tried s').1)
    (fun q s hstop entry he => ?_) (fun q s hgo ih entry he => ?_) q s
  · obtain ⟨s', htries, hfate⟩ := fate_flushPass apply s he
    refine ⟨entry, s', .pass htries, rfl, ?_⟩
    rw [flush_eq, if_pos hstop]
    exact hfate
  · obtain ⟨s', htries, hfate⟩ := fate_flushPass apply s he
    have hgraves := (flushPass_keeps apply q s).1
    have hlater := (flush_keeps_graves apply (flushPass apply q s).queue
      (flushPass apply q s).state).1
    rw [flush_eq, if_neg hgo]
    generalize hout : (tryEntry apply entry s').1 = outcome at hfate
    cases hfate with
    | applied => exact ⟨entry, s', .pass htries, rfl, hout ▸ .applied⟩
    | buried hne hb =>
      exact ⟨entry, s', .pass htries, rfl, .buried (hout ▸ hne) (hb.mono hlater)⟩
    | @held kept hmem hcommand =>
      -- the next round tries what stayed
      obtain ⟨tried, s'', htries', hcommand', hfate'⟩ := ih hmem
      exact ⟨tried, s'', .round hgo htries', hcommand'.trans hcommand, hfate'.after hgraves⟩

/-- A flush goes on from the state that a try leaves. -/
theorem goesOn_of_tries (h : Tries apply q s entry s') :
    GoesOn apply (tryEntry apply entry s').2 (flush apply q s).state := by
  have hpass {rest : List (PendingEntry E)} {p : Pass E σ}
      (h : PassTries apply rest p.state entry s') :
      GoesOn apply (tryEntry apply entry s').2 (flushEntries apply rest p).state := by
    induction rest generalizing p with
    | nil => cases h
    | cons first rest ih =>
      cases h with
      | here => exact (flushEntries_keeps apply rest (tryNext apply p entry)).2.2
      | later h => exact ih (p := tryNext apply p first) h
  induction h with
  | @pass q s s' entry htries =>
    have hfirst := hpass (p := ⟨{ q with entries := [] }, s, 0⟩) htries
    rw [flush_eq]
    split
    · exact hfirst
    · exact hfirst.trans (flush_keeps_graves apply _ _).2
  | @round q s s' entry hgo _ ih =>
    rw [flush_eq, if_neg hgo]
    exact ih hpass

/-! ## What a flush keeps -/

/-- What every try keeps, a flush keeps. -/
theorem flush_keeps {P : σ → Prop} (hstep : ∀ envelope selector args s, P s →
    P (apply envelope selector args s).2) (hs : P s) : P (flush apply q s).state := by
  have hpass {rest : List (PendingEntry E)} {p : Pass E σ} (hp : P p.state) :
      P (flushEntries apply rest p).state := by
    induction rest generalizing p with
    | nil => exact hp
    | cons entry rest ih => exact ih (hstep _ _ _ _ hp)
  have hrounds {rounds : ℕ} {q : PendingQueue E} {s : σ} (hs : P s) :
      P (flushRounds apply rounds q s).state := by
    induction rounds generalizing q s with
    | zero => exact hs
    | succ rounds ih =>
      simp only [flushRounds]
      split
      · exact hpass hs
      · exact ih (hpass hs)
  exact hrounds hs

theorem submit_keeps {P : σ → Prop} {envelope : E} {selector : Hash} {args : Bytes}
    (hs : P (apply envelope selector args s).2) :
    P (submit apply q envelope selector args s).2.2 := by
  unfold submit
  split <;> rename_i h <;> rw [h] at hs
  · exact hs
  · split
    · exact hs
    · exact hs
  · exact hs

end PendingQueue

end TexasPoker
