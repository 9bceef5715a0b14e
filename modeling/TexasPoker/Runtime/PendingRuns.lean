import Mathlib.Data.List.Nodup
import Mathlib.Data.List.Perm.Basic
import TexasPoker.Runtime.Pending

/-! # Runs of the entry queue

Every held command carries the ticket of its admission. Over all submissions and flushes the
tickets are split between the live entries, the applied ones, the dead letters and the dead
letters that were only counted.
-/

namespace TexasPoker

namespace PendingQueue

variable {E F σ : Type}

/-! ## The loops of a flush -/

section Loops

variable (apply : E → Hash → Bytes → σ → ApplyOutcome × σ)

/-- The inner loop: try the entry at `i`, and remove it or step over it. -/
def scanFrom (q : PendingQueue E) (s : σ) (i flushed : ℕ) : Pass E σ :=
  if h : i < q.entries.length then
    let entry := q.entries[i]
    let s' := (tryEntry apply entry s).2
    let removed := { q with entries := q.entries.eraseIdx i }
    match (tryEntry apply entry s).1 with
    | .applied =>
      scanFrom { removed with flushedTotal := q.flushedTotal + 1 } s' i (flushed + 1)
    | .reject e => scanFrom (removed.deadLetter { entry with lastReject := some e.text }) s' i flushed
    | .hold =>
      let entry := { entry with holdCount := entry.holdCount + 1 }
      if maxHolds ≤ entry.holdCount then scanFrom (removed.deadLetter entry) s' i flushed
      else scanFrom { q with entries := q.entries.set i entry } s' (i + 1) flushed
  else ⟨q, s, flushed⟩
termination_by q.entries.length - i
decreasing_by
  all_goals simp only [deadLetter_entries, List.length_eraseIdx, List.length_set]
  all_goals grind

/-- The outer loop: scan until a scan applies nothing. -/
inductive FlushLoop : PendingQueue E → σ → Pass E σ → Prop where
  | stop {q : PendingQueue E} {s : σ} : (scanFrom apply q s 0 0).flushed = 0 →
      FlushLoop q s (scanFrom apply q s 0 0)
  | again {q : PendingQueue E} {s : σ} {p : Pass E σ} : (scanFrom apply q s 0 0).flushed ≠ 0 →
      FlushLoop (scanFrom apply q s 0 0).queue (scanFrom apply q s 0 0).state p →
        FlushLoop q s { p with flushed := (scanFrom apply q s 0 0).flushed + p.flushed }

variable {apply}

/-- The scan at position `i` has settled the entries before `i`. -/
theorem scanFrom_eq {kept rest : List (PendingEntry E)} {q : PendingQueue E} {s : σ}
    {flushed : ℕ} (hq : q.entries = kept ++ rest) :
    scanFrom apply q s kept.length flushed =
      flushEntries apply rest ⟨{ q with entries := kept }, s, flushed⟩ := by
  induction rest generalizing kept q s flushed with
  | nil =>
    have hend : ¬ kept.length < q.entries.length := by simp [hq]
    rw [scanFrom, dif_neg hend]
    obtain rfl : q.entries = kept := by simpa using hq
    rfl
  | cons entry rest ih =>
    have hlt : kept.length < q.entries.length := by simp [hq]
    have hget : q.entries[kept.length] = entry := by simp [hq]
    have herase : q.entries.eraseIdx kept.length = kept ++ rest := by
      rw [hq, List.eraseIdx_append_of_length_le le_rfl]
      simp
    have hset (e : PendingEntry E) : q.entries.set kept.length e = (kept ++ [e]) ++ rest := by
      simp [hq]
    rw [scanFrom, dif_pos hlt]
    simp only [hget, herase]
    change _ = flushEntries apply rest (tryNext apply ⟨{ q with entries := kept }, s, flushed⟩ entry)
    simp only [tryNext]
    have hbury (e : PendingEntry E) :
        ({ q with entries := kept ++ rest } : PendingQueue E).deadLetter e =
          { ({ q with entries := kept } : PendingQueue E).deadLetter e with
            entries := kept ++ rest } := by
      simp only [deadLetter]
      split <;> rfl
    have hburied (e : PendingEntry E) :
        { ({ q with entries := kept ++ rest } : PendingQueue E).deadLetter e with
            entries := kept } = ({ q with entries := kept } : PendingQueue E).deadLetter e := by
      simp only [deadLetter]
      split <;> rfl
    cases hr : (tryEntry apply entry s).1 with
    | applied =>
      dsimp only
      rw [ih rfl]
      rfl
    | reject e =>
      dsimp only
      rw [ih (by rw [hbury]), hburied]
      rfl
    | hold =>
      dsimp only
      simp only [settle]
      split
      · rw [ih (by rw [hbury]), hburied]
        rfl
      · have hstep := @ih (kept ++ [{ entry with holdCount := entry.holdCount + 1 }])
          { q with entries :=
            q.entries.set kept.length { entry with holdCount := entry.holdCount + 1 } }
          (tryEntry apply entry s).2 flushed (hset _)
        rw [List.length_append, List.length_singleton] at hstep
        rw [hstep]
        rfl

theorem scanFrom_zero (q : PendingQueue E) (s : σ) : scanFrom apply q s 0 0 = flushPass apply q s :=
  scanFrom_eq (show q.entries = [] ++ q.entries from rfl)

/-- The loops of the source end, with what `flush` returns. -/
theorem flushLoop_flush (q : PendingQueue E) (s : σ) : FlushLoop apply q s (q.flush apply s) := by
  have hrounds {rounds : ℕ} {q : PendingQueue E} {s : σ} (h : q.entries.length < rounds) :
      FlushLoop apply q s (flushRounds apply rounds q s) := by
    induction rounds generalizing q s with
    | zero => omega
    | succ rounds ih =>
      rw [flushRounds]
      split
      · rename_i hstop
        rw [← scanFrom_zero] at hstop ⊢
        exact .stop hstop
      · rename_i hgo
        have hlen : (flushPass apply q s).queue.entries.length + _ ≤ _ := flushPass_length q s
        have hrest := ih (q := (flushPass apply q s).queue) (s := (flushPass apply q s).state)
          (by omega)
        rw [← scanFrom_zero] at hgo hrest ⊢
        exact .again hgo hrest
  exact hrounds (Nat.lt_succ_self _)

end Loops

/-! ## Verdicts -/

section Verdicts

variable (apply : E → Hash → Bytes → σ → ApplyOutcome × σ)

/-- A try and its verdict. -/
abbrev Verdict (E : Type) := PendingEntry E × ApplyOutcome

/-- The verdicts of a pass, in order. -/
def passLog : List (PendingEntry E) → σ → List (Verdict E)
  | [], _ => []
  | entry :: rest, s => (entry, (tryEntry apply entry s).1) :: passLog rest (tryEntry apply entry s).2

/-- The verdicts of the rounds, in order. -/
def roundsLog : ℕ → PendingQueue E → σ → List (Verdict E)
  | 0, _, _ => []
  | rounds + 1, q, s =>
    let p := flushPass apply q s
    if p.flushed = 0 then passLog apply q.entries s
    else passLog apply q.entries s ++ roundsLog rounds p.queue p.state

def flushLog (q : PendingQueue E) (s : σ) : List (Verdict E) :=
  roundsLog apply (q.entries.length + 1) q s

end Verdicts

/-! ## Tickets -/

/-- An envelope with the number of its admission. -/
structure Ticketed (E : Type) where
  ticket : ℕ
  envelope : E

/-- Entries by their tickets. -/
def tickets (entries : List (PendingEntry (Ticketed E))) : List ℕ := entries.map fun e => e.envelope.ticket

/-- The tickets of the applied commands. -/
def appliedTickets (log : List (Verdict (Ticketed E))) : List ℕ :=
  tickets ((log.filter fun v => v.2 = .applied).map Prod.fst)

/-- A callback that does not see tickets. -/
def unticketed (apply : E → Hash → Bytes → σ → ApplyOutcome × σ) :
    Ticketed E → Hash → Bytes → σ → ApplyOutcome × σ :=
  fun e => apply e.envelope

/-- The tickets `T` are each in one place: in the queue, about to be tried, applied in `log`,
among the dead letters, or among the dropped ones. -/
structure Accounted (T : List ℕ) (q : PendingQueue (Ticketed E))
    (rest : List (PendingEntry (Ticketed E))) (log : List (Verdict (Ticketed E)))
    (dropped : List ℕ) : Prop where
  places : (tickets q.entries ++ tickets rest ++ appliedTickets log ++ tickets q.dead ++
    dropped).Perm T
  flushed : (appliedTickets log).length = q.flushedTotal
  dropped : dropped.length = q.deadDropped

variable {T dropped : List ℕ} {q : PendingQueue (Ticketed E)} {log : List (Verdict (Ticketed E))}
  {entry : PendingEntry (Ticketed E)} {rest : List (PendingEntry (Ticketed E))} {s : σ}
  {outcome : ApplyOutcome}

@[simp] theorem tickets_nil : tickets ([] : List (PendingEntry (Ticketed E))) = [] := rfl

@[simp] theorem tickets_cons : tickets (entry :: rest) = entry.envelope.ticket :: tickets rest :=
  rfl

@[simp] theorem tickets_append (l l' : List (PendingEntry (Ticketed E))) :
    tickets (l ++ l') = tickets l ++ tickets l' := List.map_append

@[simp] theorem appliedTickets_append (l l' : List (Verdict (Ticketed E))) :
    appliedTickets (l ++ l') = appliedTickets l ++ appliedTickets l' := by
  simp [appliedTickets]

theorem appliedTickets_applied : appliedTickets [(entry, .applied)] = [entry.envelope.ticket] := rfl

theorem appliedTickets_of_ne (h : outcome ≠ .applied) : appliedTickets [(entry, outcome)] = [] := by
  simp [appliedTickets, h]

/-- An entry that is buried is a dead letter or is counted. -/
theorem Accounted.deadLetter {e : PendingEntry (Ticketed E)} (he : e.envelope = entry.envelope)
    (ho : outcome ≠ .applied) (h : Accounted T q (entry :: rest) log dropped) :
    ∃ dropped, Accounted T (q.deadLetter e) rest (log ++ [(entry, outcome)]) dropped := by
  have hplaces := List.perm_iff_count.mp h.places
  simp only [tickets_cons, List.count_append, List.count_cons] at hplaces
  unfold PendingQueue.deadLetter
  split
  · refine ⟨dropped ++ [entry.envelope.ticket], ?_, ?_, ?_⟩
    · refine List.perm_iff_count.mpr fun k => ?_
      have hk := hplaces k
      simp only [appliedTickets_append, appliedTickets_of_ne ho, List.append_nil,
        List.count_append, List.count_singleton]
      omega
    · rw [appliedTickets_append, appliedTickets_of_ne ho, List.append_nil]
      exact h.flushed
    · simp [h.dropped]
  · refine ⟨dropped, ?_, ?_, h.dropped⟩
    · refine List.perm_iff_count.mpr fun k => ?_
      have hk := hplaces k
      simp only [appliedTickets_append, appliedTickets_of_ne ho, List.append_nil,
        List.count_append, tickets_append, tickets_cons, tickets_nil, he, List.count_singleton]
      omega
    · rw [appliedTickets_append, appliedTickets_of_ne ho, List.append_nil]
      exact h.flushed

theorem reject_ne_applied {e : PokerL1Error} : ApplyOutcome.reject e ≠ .applied := by simp

theorem hold_ne_applied : ApplyOutcome.hold ≠ .applied := by simp

/-- A try moves its entry to one place. -/
theorem Accounted.settle (outcome : ApplyOutcome) (h : Accounted T q (entry :: rest) log dropped) :
    ∃ dropped, Accounted T (q.settle entry outcome) rest (log ++ [(entry, outcome)]) dropped := by
  have hplaces := List.perm_iff_count.mp h.places
  simp only [tickets_cons, List.count_append, List.count_cons] at hplaces
  cases outcome with
  | applied =>
    refine ⟨dropped, ?_, ?_, h.dropped⟩
    · refine List.perm_iff_count.mpr fun k => ?_
      have hk := hplaces k
      simp only [PendingQueue.settle, appliedTickets_append, appliedTickets_applied,
        List.count_append, List.count_singleton]
      omega
    · simp [PendingQueue.settle, appliedTickets_applied, h.flushed]
  | reject e => exact h.deadLetter rfl reject_ne_applied
  | hold =>
    simp only [PendingQueue.settle]
    split
    · exact h.deadLetter rfl hold_ne_applied
    · refine ⟨dropped, ?_, ?_, h.dropped⟩
      · refine List.perm_iff_count.mpr fun k => ?_
        have hk := hplaces k
        simp only [appliedTickets_append, appliedTickets_of_ne hold_ne_applied,
          List.append_nil, List.count_append, tickets_append, tickets_cons, tickets_nil,
          List.count_singleton]
        omega
      · rw [appliedTickets_append, appliedTickets_of_ne hold_ne_applied, List.append_nil]
        exact h.flushed

variable {apply : Ticketed E → Hash → Bytes → σ → ApplyOutcome × σ} {p : Pass (Ticketed E) σ}
  {rounds : ℕ}

theorem Accounted.flushEntries (h : Accounted T p.queue rest log dropped) :
    ∃ dropped, Accounted T (flushEntries apply rest p).queue []
      (log ++ passLog apply rest p.state) dropped := by
  induction rest generalizing p log dropped with
  | nil =>
    rw [passLog, List.append_nil]
    exact ⟨dropped, h⟩
  | cons entry rest ih =>
    obtain ⟨dropped, hnext⟩ := h.settle (tryEntry apply entry p.state).1
    obtain ⟨dropped, hrest⟩ := ih (p := tryNext apply p entry) hnext
    rw [List.append_assoc] at hrest
    exact ⟨dropped, hrest⟩

variable (apply s) in
theorem Accounted.flushPass (h : Accounted T q [] log dropped) :
    ∃ dropped, Accounted T (flushPass apply q s).queue [] (log ++ passLog apply q.entries s)
      dropped := by
  have hstart : Accounted T { q with entries := [] } q.entries log dropped :=
    ⟨by simpa using h.places, h.flushed, h.dropped⟩
  exact hstart.flushEntries (p := ⟨{ q with entries := [] }, s, 0⟩)

variable (apply rounds s) in
theorem Accounted.flushRounds (h : Accounted T q [] log dropped) :
    ∃ dropped, Accounted T (flushRounds apply rounds q s).queue []
      (log ++ roundsLog apply rounds q s) dropped := by
  induction rounds generalizing q s log dropped with
  | zero =>
    rw [roundsLog, List.append_nil]
    exact ⟨dropped, h⟩
  | succ rounds ih =>
    obtain ⟨dropped, hpass⟩ := h.flushPass s apply
    simp only [PendingQueue.flushRounds, roundsLog]
    split
    · exact ⟨dropped, hpass⟩
    · obtain ⟨dropped, hrest⟩ := ih (PendingQueue.flushPass apply q s).state hpass
      rw [List.append_assoc] at hrest
      exact ⟨dropped, hrest⟩

/-! ## Order and commands -/

theorem settle_entries (outcome : ApplyOutcome) :
    (tickets (q.settle entry outcome).entries).Sublist
      (tickets q.entries ++ [entry.envelope.ticket]) := by
  cases outcome with
  | hold =>
    simp only [PendingQueue.settle]
    split
    · simp
    · simp
  | _ => simp [PendingQueue.settle]

/-- What stays keeps its order. -/
theorem flushEntries_order (rest : List (PendingEntry (Ticketed E)))
    (p : Pass (Ticketed E) σ) : (tickets (flushEntries apply rest p).queue.entries).Sublist
      (tickets p.queue.entries ++ tickets rest) := by
  induction rest generalizing p with
  | nil => simp [flushEntries]
  | cons entry rest ih =>
    refine (ih (tryNext apply p entry)).trans ?_
    rw [tickets_cons, List.append_cons]
    exact (settle_entries _).append_right _

theorem flushPass_order (q : PendingQueue (Ticketed E)) (s : σ) :
    (tickets (flushPass apply q s).queue.entries).Sublist (tickets q.entries) :=
  flushEntries_order q.entries ⟨{ q with entries := [] }, s, 0⟩

theorem flushRounds_order : (tickets (flushRounds apply rounds q s).queue.entries).Sublist
    (tickets q.entries) := by
  induction rounds generalizing q s with
  | zero => exact .refl _
  | succ rounds ih =>
    simp only [flushRounds]
    split
    · exact flushPass_order q s
    · exact ih.trans (flushPass_order q s)

/-- The ticket and the command of an entry. -/
def admission (entry : PendingEntry (Ticketed E)) : ℕ × E × Hash × Bytes :=
  (entry.envelope.ticket, entry.envelope.envelope, entry.selector, entry.args)

/-- All admissions of a queue and of the verdicts on it satisfy `P`. -/
structure Admits (P : ℕ × E × Hash × Bytes → Prop) (q : PendingQueue (Ticketed E))
    (log : List (Verdict (Ticketed E))) : Prop where
  live : ∀ entry ∈ q.entries, P (admission entry)
  dead : ∀ entry ∈ q.dead, P (admission entry)
  tried : ∀ v ∈ log, P (admission v.1)

variable {P : ℕ × E × Hash × Bytes → Prop}

theorem Admits.settle (outcome : ApplyOutcome) (h : Admits P q log) (he : P (admission entry)) :
    Admits P (q.settle entry outcome) (log ++ [(entry, outcome)]) := by
  have htried : ∀ v ∈ log ++ [(entry, outcome)], P (admission v.1) := by
    intro v hv
    rcases List.mem_append.mp hv with hv | hv
    · exact h.tried v hv
    · rw [List.mem_singleton.mp hv]
      exact he
  have hbury {e : PendingEntry (Ticketed E)} (hae : admission e = admission entry) :
      Admits P (q.deadLetter e) (log ++ [(entry, outcome)]) := by
    refine ⟨?_, fun d hd => ?_, htried⟩
    · rw [deadLetter_entries]
      exact h.live
    · rcases mem_dead_deadLetter hd with hd | rfl
      · exact h.dead d hd
      · rw [hae]
        exact he
  cases outcome with
  | applied => exact ⟨h.live, h.dead, htried⟩
  | reject e => exact hbury rfl
  | hold =>
    simp only [PendingQueue.settle]
    split
    · exact hbury rfl
    · refine ⟨fun e hmem => ?_, h.dead, htried⟩
      rcases List.mem_append.mp hmem with hmem | hmem
      · exact h.live e hmem
      · rw [List.mem_singleton.mp hmem]
        exact he

theorem Admits.flushEntries (hrest : ∀ entry ∈ rest, P (admission entry))
    (h : Admits P p.queue log) :
    Admits P (flushEntries apply rest p).queue (log ++ passLog apply rest p.state) := by
  induction rest generalizing p log with
  | nil =>
    rw [passLog, List.append_nil]
    exact h
  | cons entry rest ih =>
    rw [List.forall_mem_cons] at hrest
    have hnext := ih hrest.2 (p := tryNext apply p entry) (h.settle _ hrest.1)
    rw [List.append_assoc] at hnext
    exact hnext

variable (apply s) in
theorem Admits.flushPass (h : Admits P q log) :
    Admits P (flushPass apply q s).queue (log ++ passLog apply q.entries s) :=
  .flushEntries (p := ⟨{ q with entries := [] }, s, 0⟩) h.live ⟨nofun, h.dead, h.tried⟩

theorem Admits.flushRounds (h : Admits P q log) :
    Admits P (flushRounds apply rounds q s).queue (log ++ roundsLog apply rounds q s) := by
  induction rounds generalizing q s log with
  | zero =>
    rw [roundsLog, List.append_nil]
    exact h
  | succ rounds ih =>
    simp only [PendingQueue.flushRounds, roundsLog]
    split
    · exact h.flushPass s apply
    · have hrest := ih (s := (PendingQueue.flushPass apply q s).state)
        (h.flushPass s apply)
      rw [List.append_assoc] at hrest
      exact hrest

/-! ## Last verdicts -/

/-- The last verdict on `k` is a hold, and nothing was applied after it. -/
def LastHeld (log : List (Verdict (Ticketed E))) (k : ℕ) : Prop :=
  ∃ before entry after, log = before ++ (entry, .hold) :: after ∧ entry.envelope.ticket = k ∧
    ∀ v ∈ after, v.1.envelope.ticket ≠ k ∧ v.2 ≠ .applied

theorem LastHeld.prepend {k : ℕ} (earlier : List (Verdict (Ticketed E))) (h : LastHeld log k) :
    LastHeld (earlier ++ log) k := by
  obtain ⟨before, entry, after, rfl, hk, hafter⟩ := h
  exact ⟨earlier ++ before, entry, after, (List.append_assoc _ _ _).symm, hk, hafter⟩

theorem ticket_mem_of_passLog {v : Verdict (Ticketed E)} (h : v ∈ passLog apply rest s) :
    v.1.envelope.ticket ∈ tickets rest := by
  induction rest generalizing s with
  | nil => cases h
  | cons entry rest ih =>
    rcases List.mem_cons.mp h with rfl | h
    · exact List.mem_cons_self
    · exact List.mem_cons_of_mem _ (ih h)

variable (apply) in
theorem flushed_flushEntries (rest : List (PendingEntry (Ticketed E)))
    (p : Pass (Ticketed E) σ) : (flushEntries apply rest p).flushed =
      p.flushed + (passLog apply rest p.state).countP fun v => v.2 = .applied := by
  induction rest generalizing p with
  | nil => rfl
  | cons entry rest ih =>
    have hrest := ih (tryNext apply p entry)
    change (flushEntries apply rest (tryNext apply p entry)).flushed = _
    rw [hrest, passLog, List.countP_cons]
    simp only [tryNext, decide_eq_true_eq]
    split <;> omega

theorem unapplied_of_flushPass (h : (flushPass apply q s).flushed = 0) :
    ∀ v ∈ passLog apply q.entries s, v.2 ≠ .applied := by
  have hcount := flushed_flushEntries apply q.entries ⟨{ q with entries := [] }, s, 0⟩
  rw [show (flushEntries apply q.entries ⟨{ q with entries := [] }, s, 0⟩).flushed = 0 from h,
    Nat.zero_add] at hcount
  simpa using List.countP_eq_zero.mp hcount.symm

theorem ticket_of_settle {k : ℕ} (h : k ∈ tickets (q.settle entry outcome).entries) :
    k ∈ tickets q.entries ∨ k = entry.envelope.ticket ∧ outcome = .hold := by
  cases outcome with
  | hold =>
    simp only [PendingQueue.settle] at h
    split at h
    · rw [deadLetter_entries] at h
      exact .inl h
    · rw [tickets_append, List.mem_append] at h
      refine h.imp_right fun h => ⟨?_, rfl⟩
      simpa using h
  | _ =>
    left
    simpa [PendingQueue.settle] using h

/-- An entry that stays through a pass without applications was held last. -/
theorem lastHeld_of_flushEntries {k : ℕ} (hnodup : (tickets rest).Nodup)
    (hlog : ∀ v ∈ passLog apply rest p.state, v.2 ≠ .applied)
    (hk : k ∈ tickets (flushEntries apply rest p).queue.entries) :
    k ∈ tickets p.queue.entries ∨ LastHeld (passLog apply rest p.state) k := by
  induction rest generalizing p with
  | nil => exact .inl hk
  | cons entry rest ih =>
    rw [tickets_cons, List.nodup_cons] at hnodup
    rw [passLog, List.forall_mem_cons] at hlog
    rcases ih (p := tryNext apply p entry) hnodup.2 hlog.2 hk with hold | hlast
    · rcases ticket_of_settle hold with hold | ⟨rfl, houtcome⟩
      · exact .inl hold
      · refine .inr ⟨[], entry, passLog apply rest (tryEntry apply entry p.state).2, ?_, rfl,
          fun v hv => ⟨?_, hlog.2 v hv⟩⟩
        · rw [passLog, houtcome]
          rfl
        · intro heq
          exact hnodup.1 (heq ▸ ticket_mem_of_passLog hv)
    · exact .inr (hlast.prepend [_])

theorem lastHeld_of_flushRounds {k : ℕ} (hrounds : q.entries.length < rounds)
    (hnodup : (tickets q.entries).Nodup)
    (hk : k ∈ tickets (flushRounds apply rounds q s).queue.entries) :
    LastHeld (roundsLog apply rounds q s) k := by
  induction rounds generalizing q s with
  | zero => omega
  | succ rounds ih =>
    simp only [flushRounds, roundsLog] at hk ⊢
    split at hk
    · rename_i hstop
      rw [if_pos hstop]
      exact (lastHeld_of_flushEntries hnodup (unapplied_of_flushPass hstop) hk).resolve_left (by simp)
    · rename_i hgo
      rw [if_neg hgo]
      have hlen : (flushPass apply q s).queue.entries.length + _ ≤ _ := flushPass_length q s
      exact (ih (by omega) (hnodup.sublist (flushPass_order q s)) hk).prepend _

/-! ## Forgetting tickets -/

def mapEntry (f : E → F) (entry : PendingEntry E) : PendingEntry F :=
  ⟨f entry.envelope, entry.selector, entry.args, entry.holdCount, entry.lastReject⟩

/-- The same queue under other envelopes. -/
def mapEnvelopes (f : E → F) (q : PendingQueue E) : PendingQueue F where
  entries := q.entries.map (mapEntry f)
  dead := q.dead.map (mapEntry f)
  maxEntries := q.maxEntries
  heldTotal := q.heldTotal
  flushedTotal := q.flushedTotal
  deadDropped := q.deadDropped

def Pass.map (f : E → F) (p : Pass E σ) : Pass F σ := ⟨p.queue.mapEnvelopes f, p.state, p.flushed⟩

section Forgetting

variable {f : E → F} {apply : F → Hash → Bytes → σ → ApplyOutcome × σ} {q : PendingQueue E}
  {entry : PendingEntry E} {s : σ}

theorem deadLetter_map (entry : PendingEntry E) :
    (q.mapEnvelopes f).deadLetter (mapEntry f entry) = (q.deadLetter entry).mapEnvelopes f := by
  simp only [deadLetter, mapEnvelopes, List.length_map]
  split
  · rfl
  · simp

theorem settle_map (outcome : ApplyOutcome) :
    (q.mapEnvelopes f).settle (mapEntry f entry) outcome =
      (q.settle entry outcome).mapEnvelopes f := by
  cases outcome with
  | applied => rfl
  | reject e => exact deadLetter_map { entry with lastReject := some e.text }
  | hold =>
    simp only [settle]
    split
    · rename_i h
      rw [if_pos (show maxHolds ≤ entry.holdCount + 1 from h)]
      exact deadLetter_map { entry with holdCount := entry.holdCount + 1 }
    · rename_i h
      rw [if_neg (show ¬ maxHolds ≤ entry.holdCount + 1 from h)]
      simp [mapEnvelopes, mapEntry]

theorem flushEntries_map (rest : List (PendingEntry E)) (p : Pass E σ) :
    flushEntries apply (rest.map (mapEntry f)) (p.map f) =
      (flushEntries (fun e => apply (f e)) rest p).map f := by
  induction rest generalizing p with
  | nil => rfl
  | cons entry rest ih =>
    have hnext : tryNext apply (p.map f) (mapEntry f entry) =
        (tryNext (fun e => apply (f e)) p entry).map f := by
      simp only [tryNext, Pass.map, settle_map]
      rfl
    rw [List.map_cons]
    change flushEntries apply (rest.map (mapEntry f)) (tryNext apply (p.map f) (mapEntry f entry)) = _
    rw [hnext, ih]
    rfl

theorem flushPass_map (q : PendingQueue E) (s : σ) : flushPass apply (q.mapEnvelopes f) s =
    (flushPass (fun e => apply (f e)) q s).map f :=
  flushEntries_map q.entries ⟨{ q with entries := [] }, s, 0⟩

theorem flushRounds_map (rounds : ℕ) (q : PendingQueue E) (s : σ) :
    flushRounds apply rounds (q.mapEnvelopes f) s =
      (flushRounds (fun e => apply (f e)) rounds q s).map f := by
  induction rounds generalizing q s with
  | zero => rfl
  | succ rounds ih =>
    simp only [flushRounds, flushPass_map]
    by_cases h : (flushPass (fun e => apply (f e)) q s).flushed = 0
    · rw [if_pos h, if_pos (show ((flushPass _ q s).map f).flushed = 0 from h)]
    · rw [if_neg h, if_neg (show ((flushPass _ q s).map f).flushed ≠ 0 from h)]
      have hrest := ih (flushPass (fun e => apply (f e)) q s).queue
        (flushPass (fun e => apply (f e)) q s).state
      simp only [Pass.map] at hrest ⊢
      rw [hrest]

theorem flush_map (q : PendingQueue E) (s : σ) :
    flush apply (q.mapEnvelopes f) s = (flush (fun e => apply (f e)) q s).map f := by
  have hlen : (q.mapEnvelopes f).entries.length = q.entries.length := List.length_map _
  rw [flush, flush, hlen, flushRounds_map]

variable (f apply) in
theorem submit_map (q : PendingQueue E) (envelope : E) (selector : Hash) (args : Bytes) (s : σ) :
    submit apply (q.mapEnvelopes f) (f envelope) selector args s =
      ((submit (fun e => apply (f e)) q envelope selector args s).1,
        (submit (fun e => apply (f e)) q envelope selector args s).2.1.mapEnvelopes f,
        (submit (fun e => apply (f e)) q envelope selector args s).2.2) := by
  have hlen : (q.mapEnvelopes f).entries.length = q.entries.length := List.length_map _
  have hmax : (q.mapEnvelopes f).maxEntries = q.maxEntries := rfl
  simp only [submit, hlen, hmax]
  generalize apply (f envelope) selector args s = r
  obtain ⟨outcome, s'⟩ := r
  cases outcome with
  | hold =>
    dsimp only
    split
    · rfl
    · simp only [mapEnvelopes, List.map_append]
      rfl
  | _ => rfl

end Forgetting

/-! ## Runs -/

/-- A call of the queue with its callback. -/
inductive Op (E σ : Type) where
  | submit (envelope : E) (selector : Hash) (args : Bytes)
      (apply : E → Hash → Bytes → σ → ApplyOutcome × σ)
  | flush (apply : E → Hash → Bytes → σ → ApplyOutcome × σ)

/-- The queue and the callbacks' state after a call. -/
def runOp (r : PendingQueue E × σ) : Op E σ → PendingQueue E × σ
  | .submit envelope selector args apply => (r.1.submit apply envelope selector args r.2).2
  | .flush apply => ((r.1.flush apply r.2).queue, (r.1.flush apply r.2).state)

/-- A run whose envelopes carry tickets, with the commands whose submission was answered with a
hold and all verdicts of its flushes. The ticket is the command's place among these. -/
structure Trace (E σ : Type) where
  queue : PendingQueue (Ticketed E)
  state : σ
  accepted : List (E × Hash × Bytes)
  log : List (Verdict (Ticketed E))

namespace Trace

def start (maxEntries : ℕ) (s : σ) : Trace E σ := ⟨.new maxEntries, s, [], []⟩

def step (r : Trace E σ) : Op E σ → Trace E σ
  | .submit envelope selector args apply =>
    let verdict := (apply envelope selector args r.state).1
    let out := r.queue.submit (unticketed apply) ⟨r.accepted.length, envelope⟩ selector args r.state
    -- accepted is what the caller of `submit` is told: held, and no backpressure
    let accepted := if verdict = .hold ∧ out.1.isOk then r.accepted ++ [(envelope, selector, args)]
      else r.accepted
    ⟨out.2.1, out.2.2, accepted, r.log⟩
  | .flush apply =>
    let p := r.queue.flush (unticketed apply) r.state
    ⟨p.queue, p.state, r.accepted, r.log ++ flushLog (unticketed apply) r.queue r.state⟩

/-- The same run without tickets. -/
def forget (r : Trace E σ) : PendingQueue E × σ := (r.queue.mapEnvelopes Ticketed.envelope, r.state)

theorem forget_step (r : Trace E σ) (op : Op E σ) : (r.step op).forget = runOp r.forget op := by
  cases op with
  | submit envelope selector args apply =>
    have hmap := submit_map Ticketed.envelope apply r.queue
      ⟨r.accepted.length, envelope⟩ selector args r.state
    simp only [runOp, forget]
    rw [hmap]
    rfl
  | flush apply =>
    simp only [runOp, forget, flush_map]
    rfl

theorem forget_run (maxEntries : ℕ) (s : σ) (ops : List (Op E σ)) :
    (ops.foldl step (start maxEntries s)).forget = ops.foldl runOp (new maxEntries, s) := by
  induction ops using List.reverseRecOn with
  | nil => rfl
  | append_singleton ops op ih => simp only [List.foldl_append, List.foldl_cons, List.foldl_nil,
      forget_step, ih]

/-- What every call keeps. -/
structure Sound (maxEntries : ℕ) (r : Trace E σ) : Prop where
  accounted : ∃ dropped, Accounted (List.range r.queue.heldTotal) r.queue [] r.log dropped
  order : (tickets r.queue.entries).Sublist (List.range r.queue.heldTotal)
  admitted : Admits (fun a => r.accepted[a.1]? = some a.2) r.queue r.log
  length : r.accepted.length = r.queue.heldTotal
  limit : r.queue.maxEntries = maxEntries
  bounded : r.queue.entries.length ≤ maxEntries

variable {maxEntries : ℕ} {r : Trace E σ}

theorem sound_start (maxEntries : ℕ) (s : σ) : (start maxEntries s : Trace E σ).Sound maxEntries where
  accounted := ⟨[], .refl _, rfl, rfl⟩
  order := .slnil
  admitted := ⟨nofun, nofun, nofun⟩
  length := rfl
  limit := rfl
  bounded := Nat.zero_le _

/-- A held command takes the next ticket. -/
theorem Sound.hold {envelope : E} {selector : Hash} {args : Bytes} (state : σ) (h : r.Sound maxEntries)
    (hroom : r.queue.entries.length < maxEntries) :
    Sound maxEntries ⟨{ r.queue with
        entries := r.queue.entries ++ [⟨⟨r.accepted.length, envelope⟩, selector, args, 0, none⟩]
        heldTotal := r.queue.heldTotal + 1 }, state,
      r.accepted ++ [(envelope, selector, args)], r.log⟩ := by
  obtain ⟨dropped, hacc⟩ := h.accounted
  have hold {a : ℕ × E × Hash × Bytes} (ha : r.accepted[a.1]? = some a.2) :
      (r.accepted ++ [(envelope, selector, args)])[a.1]? = some a.2 := by
    rw [List.getElem?_append_left (List.getElem?_eq_some_iff.mp ha).1, ha]
  refine ⟨⟨dropped, ?_, hacc.flushed, hacc.dropped⟩, ?_, ⟨fun e he => ?_, fun e he => ?_,
    fun v hv => ?_⟩, ?_, h.limit, ?_⟩
  · have hplaces := List.perm_iff_count.mp hacc.places
    refine List.perm_iff_count.mpr fun k => ?_
    have hk := hplaces k
    simp only [h.length, tickets_nil, tickets_append, tickets_cons, List.range_succ,
      List.count_append, List.count_singleton, List.count_nil] at hk ⊢
    omega
  · simp only [h.length, tickets_append, tickets_cons, tickets_nil, List.range_succ]
    exact h.order.append_right _
  · rcases List.mem_append.mp he with he | he
    · exact hold (h.admitted.live e he)
    · obtain rfl := List.mem_singleton.mp he
      simp [admission]
  · exact hold (h.admitted.dead e he)
  · exact hold (h.admitted.tried v hv)
  · simp [h.length]
  · rw [List.length_append, List.length_singleton]
    exact hroom

theorem limit_flush (apply : Ticketed E → Hash → Bytes → σ → ApplyOutcome × σ)
    (q : PendingQueue (Ticketed E)) (s : σ) :
    (q.flush apply s).queue.maxEntries = q.maxEntries ∧
      (q.flush apply s).queue.heldTotal = q.heldTotal := by
  have hbury (q : PendingQueue (Ticketed E)) (e : PendingEntry (Ticketed E)) :
      (q.deadLetter e).maxEntries = q.maxEntries ∧ (q.deadLetter e).heldTotal = q.heldTotal := by
    unfold deadLetter
    split <;> exact ⟨rfl, rfl⟩
  have hsettle (q : PendingQueue (Ticketed E)) (e : PendingEntry (Ticketed E))
      (outcome : ApplyOutcome) : (q.settle e outcome).maxEntries = q.maxEntries ∧
        (q.settle e outcome).heldTotal = q.heldTotal := by
    cases outcome with
    | applied => exact ⟨rfl, rfl⟩
    | reject e => exact hbury _ _
    | hold =>
      simp only [settle]
      split
      · exact hbury _ _
      · exact ⟨rfl, rfl⟩
  have hpass (rest : List (PendingEntry (Ticketed E))) (p : Pass (Ticketed E) σ) :
      (flushEntries apply rest p).queue.maxEntries = p.queue.maxEntries ∧
        (flushEntries apply rest p).queue.heldTotal = p.queue.heldTotal := by
    induction rest generalizing p with
    | nil => exact ⟨rfl, rfl⟩
    | cons e rest ih =>
      obtain ⟨hmax, hheld⟩ := ih (tryNext apply p e)
      obtain ⟨hmax', hheld'⟩ := hsettle p.queue e (tryEntry apply e p.state).1
      exact ⟨hmax.trans hmax', hheld.trans hheld'⟩
  have hrounds (rounds : ℕ) (q : PendingQueue (Ticketed E)) (s : σ) :
      (flushRounds apply rounds q s).queue.maxEntries = q.maxEntries ∧
        (flushRounds apply rounds q s).queue.heldTotal = q.heldTotal := by
    induction rounds generalizing q s with
    | zero => exact ⟨rfl, rfl⟩
    | succ rounds ih =>
      simp only [flushRounds]
      split
      · exact hpass _ _
      · obtain ⟨hmax, hheld⟩ := ih (flushPass apply q s).queue (flushPass apply q s).state
        obtain ⟨hmax', hheld'⟩ := hpass q.entries ⟨{ q with entries := [] }, s, 0⟩
        exact ⟨hmax.trans hmax', hheld.trans hheld'⟩
  exact hrounds _ q s

/-- A submission holds its command and says so, or leaves the queue alone. -/
theorem submit_cases (apply : E → Hash → Bytes → σ → ApplyOutcome × σ) (q : PendingQueue E)
    (envelope : E) (selector : Hash) (args : Bytes) (s : σ) :
    ((apply envelope selector args s).1 = .hold ∧ q.entries.length < q.maxEntries ∧
      q.submit apply envelope selector args s = (.ok (), { q with
        entries := q.entries ++ [⟨envelope, selector, args, 0, none⟩]
        heldTotal := q.heldTotal + 1 }, (apply envelope selector args s).2)) ∨
    ((q.submit apply envelope selector args s).2 = (q, (apply envelope selector args s).2) ∧
      ¬ ((apply envelope selector args s).1 = .hold ∧
        (q.submit apply envelope selector args s).1.isOk)) := by
  unfold PendingQueue.submit
  generalize apply envelope selector args s = u
  obtain ⟨outcome, s'⟩ := u
  cases outcome with
  | applied => exact .inr ⟨rfl, by rintro ⟨⟨⟩, -⟩⟩
  | reject e => exact .inr ⟨rfl, by rintro ⟨⟨⟩, -⟩⟩
  | hold =>
    by_cases hfull : q.maxEntries ≤ q.entries.length
    · refine .inr ⟨by simp only [if_pos hfull], ?_⟩
      rintro ⟨-, hok⟩
      simp only [if_pos hfull] at hok
      cases hok
    · exact .inl ⟨rfl, not_le.mp hfull, by simp only [if_neg hfull]⟩

theorem Sound.step (op : Op E σ) (h : r.Sound maxEntries) : (r.step op).Sound maxEntries := by
  cases op with
  | submit envelope selector args apply =>
    have hcases := submit_cases (unticketed apply) r.queue
      ⟨r.accepted.length, envelope⟩ selector args r.state
    rcases hcases with ⟨hverdict, hroom, hout⟩ | ⟨hout, hsilent⟩
    · have hverdict : (apply envelope selector args r.state).1 = .hold := hverdict
      have hok : (Except.ok () : PokerL1Result Unit).isOk = true := rfl
      simp only [Trace.step, hout, hverdict, hok, and_self, if_true]
      exact h.hold _ (h.limit ▸ hroom)
    · have hsilent : ¬ ((apply envelope selector args r.state).1 = .hold ∧ _) := hsilent
      simp only [Trace.step, hout, if_neg hsilent]
      exact ⟨h.accounted, h.order, h.admitted, h.length, h.limit, h.bounded⟩
  | flush apply =>
    obtain ⟨dropped, hacc⟩ := h.accounted
    obtain ⟨hmax, hheld⟩ := limit_flush (unticketed apply) r.queue r.state
    obtain ⟨dropped, hacc⟩ := hacc.flushRounds r.state (unticketed apply)
      (r.queue.entries.length + 1)
    have horder : (tickets (r.queue.flush (unticketed apply) r.state).queue.entries).Sublist
        (tickets r.queue.entries) := flushRounds_order
    refine ⟨⟨dropped, ?_⟩, ?_, h.admitted.flushRounds, ?_, hmax.trans h.limit, ?_⟩
    · rw [show (r.step (.flush apply)).queue.heldTotal = _ from hheld]
      exact hacc
    · rw [show (r.step (.flush apply)).queue.heldTotal = _ from hheld]
      exact horder.trans h.order
    · exact h.length.trans hheld.symm
    · have hlen := horder.length_le
      simp only [tickets, List.length_map] at hlen
      exact hlen.trans h.bounded

theorem sound_run (maxEntries : ℕ) (s : σ) (ops : List (Op E σ)) :
    (ops.foldl step (start maxEntries s)).Sound maxEntries := by
  induction ops using List.reverseRecOn with
  | nil => exact sound_start maxEntries s
  | append_singleton ops op ih =>
    rw [List.foldl_append]
    exact ih.step op

end Trace

/-- In every run the commands whose submission was answered with a hold are split between the live
entries, the applied ones, the dead letters and the dropped ones; live entries keep their order and
their limit; every flush ends, and what it leaves was held after its last application. -/
theorem run_accounts (maxEntries : ℕ) (s : σ) (ops : List (Op E σ)) :
    let r := ops.foldl Trace.step (Trace.start maxEntries s)
    r.forget = ops.foldl runOp (new maxEntries, s) ∧
    (∃ dropped : List ℕ, (tickets r.queue.entries ++ appliedTickets r.log ++
        tickets r.queue.dead ++ dropped).Perm (List.range r.accepted.length) ∧
      (appliedTickets r.log).length = r.queue.flushedTotal ∧
      dropped.length = r.queue.deadDropped) ∧
    r.queue.heldTotal = r.queue.entries.length + r.queue.flushedTotal + r.queue.dead.length +
      r.queue.deadDropped ∧
    r.accepted.length = r.queue.heldTotal ∧
    (∀ entry ∈ r.queue.entries ++ r.queue.dead ++ r.log.map Prod.fst,
      r.accepted[(admission entry).1]? = some (admission entry).2) ∧
    (tickets r.queue.entries).Pairwise (· < ·) ∧ r.queue.entries.length ≤ maxEntries ∧
    ∀ apply, FlushLoop apply r.forget.1 r.forget.2 (r.forget.1.flush apply r.forget.2) ∧
      ∀ k ∈ tickets (r.step (.flush apply)).queue.entries,
        LastHeld (flushLog (unticketed apply) r.queue r.state) k := by
  intro r
  have hr : r.Sound maxEntries := Trace.sound_run maxEntries s ops
  obtain ⟨dropped, hacc⟩ := hr.accounted
  have hplaces : (tickets r.queue.entries ++ appliedTickets r.log ++ tickets r.queue.dead ++
      dropped).Perm (List.range r.queue.heldTotal) := by
    simpa using hacc.places
  refine ⟨Trace.forget_run maxEntries s ops,
    ⟨dropped, hr.length.symm ▸ hplaces, hacc.flushed, hacc.dropped⟩, ?_, hr.length, fun entry hentry => ?_, List.pairwise_lt_range.sublist hr.order, hr.bounded,
    fun apply => ⟨flushLoop_flush _ _, fun k hk => ?_⟩⟩
  · have hlen := hplaces.length_eq
    simp only [List.length_append, List.length_range, tickets, List.length_map] at hlen
    rw [← hlen, hacc.dropped, hacc.flushed]
  · simp only [List.mem_append, List.mem_map] at hentry
    rcases hentry with (hlive | hdead) | ⟨v, hv, rfl⟩
    · exact hr.admitted.live entry hlive
    · exact hr.admitted.dead entry hdead
    · exact hr.admitted.tried v hv
  · exact lastHeld_of_flushRounds (Nat.lt_succ_self _)
      (List.nodup_range.sublist hr.order) hk

/-- The judgement of a window that is closed. -/
def windowClosed (_ : ℕ) (_ : Hash) (_ : Bytes) (s : ℕ) : ApplyOutcome × ℕ := (.hold, s)

/-- The judgement of a window that is open for the first command only. -/
def windowOfFirst (e : ℕ) (_ : Hash) (_ : Bytes) (s : ℕ) : ApplyOutcome × ℕ :=
  if e = 1 then (.applied, s + 1) else (.hold, s)

/-- Two commands fill the queue and a third is turned away. One of the two is applied, and the other
one is held until it is buried. -/
def appliedAndEvicted : List (Op ℕ ℕ) :=
  [.submit 1 0 [] windowClosed, .submit 2 0 [] windowClosed, .submit 3 0 [] windowClosed,
    .flush windowOfFirst] ++ List.replicate maxHolds (.flush windowClosed)

theorem appliedAndEvicted_accounts :
    let r := appliedAndEvicted.foldl Trace.step (Trace.start 2 0)
    r.accepted = [(1, 0, []), (2, 0, [])] ∧ appliedTickets r.log = [0] ∧
      tickets r.queue.dead = [1] ∧
      r.queue.heldTotal = r.queue.entries.length + r.queue.flushedTotal + r.queue.dead.length +
        r.queue.deadDropped :=
  ⟨by decide, by decide, by decide, (run_accounts 2 0 appliedAndEvicted).2.2.1⟩

end PendingQueue

end TexasPoker
