import TexasPoker.Runtime.Atomicity
import TexasPoker.Spec.Beats
import TexasPoker.Spec.Events
import TexasPoker.Spec.Schema
import TexasPoker.Vault.Custody

/-! # Counters

The hand counter of a table counts the hands its events announce. A call that starts a hand
also changes the table, so the counter misses none.
-/

namespace TexasPoker

variable {G : Type}

namespace Exec

open TexasPokerTable

variable {s m n s' : Exec G}

/-- The hands that the events announce. -/
def hands (s : Exec G) : ℕ := s.events.countP TexasPokerEvent.isHandStarted

theorem Appends.hands (h : Appends s s') : s'.hands = s.hands := by
  obtain ⟨es, he, hes⟩ := h
  have hnone : es.countP TexasPokerEvent.isHandStarted = 0 :=
    List.countP_eq_zero.mpr fun e hmem => by rw [hes e hmem]; decide
  rw [Exec.hands, he, List.countP_append, hnone, Nat.add_zero, Exec.hands]

variable [AddCommGroup G] [Protocol G] [DecidableEq G]

omit [DecidableEq G] in
theorem startHand_hands (h : s.startHand = .ok s') : s'.hands = s.hands + 1 := by
  simp only [startHand, Fallible.bind_eq_ok] at h
  obtain ⟨_, -, _, -, t, -, h⟩ := h
  rw [(advanceShuffle_grows _ h).hands, Exec.hands, Exec.hands, emit, withTable_events,
    List.countP_append]
  rfl

omit [AddCommGroup G] [Protocol G] [DecidableEq G] in
theorem getActiveSeatMask_ne_zero {t : TexasPokerTable G} (h : 0 < t.countActiveOccupied) :
    t.getActiveSeatMask ≠ 0 := by
  obtain ⟨i, -, hi⟩ := List.countP_pos_iff.mp h
  intro hz
  have hmem : Mask.mem t.getActiveSeatMask i = true := by
    rw [getActiveSeatMask, mem_maskOf]
    exact hi
  rw [hz, Mask.mem_zero] at hmem
  cases hmem

omit [AddCommGroup G] [Protocol G] [DecidableEq G] in
/-- Letting players in changes slots only. -/
theorem seated_rest (t : TexasPokerTable G) :
    seated t = { t.moveButton with seats := (seated t).seats } := by
  have hbig (u : TexasPokerTable G) : u.promoteBigBlind = { u with seats := u.promoteBigBlind.seats } := by
    unfold promoteBigBlind
    split <;> rfl
  have hfold (u : TexasPokerTable G) (l : List ℕ) (acc : TexasPokerTable G × ℕ)
      (hacc : acc.1 = { u with seats := acc.1.seats }) :
      (l.foldl promoteMissing acc).1 =
        { u with seats := (l.foldl promoteMissing acc).1.seats } := by
    induction l generalizing acc with
    | nil => exact hacc
    | cons i l ih =>
      refine ih _ ?_
      unfold promoteMissing
      split
      · rw [hacc]
        rfl
      · exact hacc
  change t.moveButton.promoteWaitingForBigBlind =
    { t.moveButton with seats := t.moveButton.promoteWaitingForBigBlind.seats }
  generalize t.moveButton = u
  unfold promoteWaitingForBigBlind
  split
  · rfl
  · exact hfold u _ _ (hbig u)

omit [DecidableEq G] in
/-- A started hand moves the button and waits for its first shuffler. -/
theorem startHand_blocked (h : s.startHand = .ok s') :
    s'.table.button = (s.table.button + 1) % s.table.rules.maxPlayers ∧
      s'.table.rules = s.table.rules ∧ s'.table.nextNormalizationStep = .ok none := by
  obtain ⟨-, hcount, m, ht, -, h⟩ := startHand_eq_ok h
  have hseated := seated_rest s.table
  have hphase : m.table.handPhase =
      .shuffling (.initial ⟨(seated s.table).getActiveSeatMask, 0⟩ 0) := by rw [ht]
  have hpending : m.table.shuffleState.pendingMask ≠ 0 := by
    rw [shuffleState, hphase]
    exact getActiveSeatMask_ne_zero (Nat.zero_lt_of_lt hcount)
  have hretimed : m.table.Retimed s'.table := by
    cases h with
    | idle hnone _ =>
      rw [shufflePhase, hphase] at hnone
      cases hnone
    | next _ _ hr _ => exact hr
    | deal _ hz _ _ => exact absurd hz hpending
    | restart _ hz _ _ => exact absurd hz hpending
  refine ⟨?_, ?_, ?_⟩
  · rw [hretimed.rest, ht]
    change (seated s.table).button = _
    rw [hseated]
    rfl
  · rw [hretimed.rest, ht]
    change (seated s.table).rules = _
    rw [hseated]
    rfl
  · rw [nextNormalizationStep_retimed hretimed]
    unfold nextNormalizationStep
    rw [if_neg (by rw [reconstructPhase, hphase]; exact not_not.mpr rfl),
      if_pos (by rw [shufflePhase, hphase]; exact .inr rfl), if_neg hpending]
    rfl

/-- A blocked table is normalized by its clock alone. -/
theorem normalizeUntilBlocked_blocked {nowMs : ℕ} {report : List NormalizationStep}
    (hnext : s.table.nextNormalizationStep = .ok none)
    (h : s.normalizeUntilBlocked nowMs = .ok (s', report)) :
    s.table.Retimed s'.table ∧ s'.table.validateStateSchema = .ok () := by
  simp only [normalizeUntilBlocked, Fallible.bind_eq_ok] at h
  obtain ⟨t, ht, _, hschema, h⟩ := h
  have hretimed := armActiveDeadlineIfNeeded_retimed ht
  rw [maxNormalizationSteps, normalizeLoop, withTable_table,
    nextNormalizationStep_retimed hretimed, hnext] at h
  cases h
  exact ⟨hretimed, hschema⟩

/-- A call that starts a hand changes the table. -/
theorem startHand_changes {context : DispatchContext} {report : List NormalizationStep}
    {u : TexasPokerTable G} {pre : TexasPokerTable G}
    (hs : (⟨pre, []⟩ : Exec G).startHand = .ok m)
    (hn : m.normalizeUntilBlocked context.blockTimestamp = .ok (n, report))
    (hu : rearmBettingDeadline context n.table = .ok u) : u ≠ pre := by
  obtain ⟨hbutton, hrules, hnext⟩ := startHand_blocked hs
  obtain ⟨hretimed, hschema⟩ := normalizeUntilBlocked_blocked hnext hn
  have hsame := hretimed.trans (rearmBettingDeadline_retimed hu)
  have hcanonical := (validateStateSchema_eq_ok.mp hschema).rules
  rw [hretimed.rules, hrules] at hcanonical
  simp only [TableRules.validateCanonical, Fallible.bind_eq_ok, Fallible.ensure_eq_ok] at hcanonical
  obtain ⟨_, hmax, -⟩ := hcanonical
  rintro rfl
  have hfixed : u.button = (u.button + 1) % u.rules.maxPlayers := by
    have hkept := congrArg TexasPokerTable.button hsame.rest
    exact hkept.trans hbutton
  rcases Nat.lt_or_ge (u.button + 1) u.rules.maxPlayers with hlt | hge
  · rw [Nat.mod_eq_of_lt hlt] at hfixed
    omega
  · have hpos : 0 < u.rules.maxPlayers := by omega
    have := Nat.mod_lt (u.button + 1) hpos
    have hlast : u.button + 1 = u.rules.maxPlayers := by omega
    rw [hlast, Nat.mod_self] at hfixed
    omega

/-- A call announces a hand exactly when it starts one, and then it changes the table. -/
theorem call_hands {c : Call} {command : CanonicalCommand} (h : s.call c = .ok s')
    (hc : CanonicalCommand.fromSelector G c.selector = some command) :
    s'.hands = s.hands + (if command = .startHand then 1 else 0) ∧
      (s'.table = s.table ∧ command ≠ .startHand ∨
        s'.table.callSeq = s.table.callSeq + 1 ∧
          s'.table.handId = s.table.handId + (if command = .startHand then 1 else 0)) := by
  obtain ⟨r, hd, he⟩ := call_dispatches h
  obtain ⟨command', m, n, report, u, hc', hm, hn, hu, ht, hevents⟩ := dispatch_eq_ok hd
  obtain rfl : command' = command := Option.some.inj (hc'.symm.trans hc)
  rw [hevents] at he
  have hhands : s'.hands = s.hands + n.hands := by
    rw [Exec.hands, he, List.countP_append]
    rfl
  have hnormal : n.hands = m.hands := (normalizeUntilBlocked_grows _ _ hn).hands
  have hstart : n.hands = (if command' = .startHand then 1 else 0) ∧
      (command' = .startHand → u ≠ s.table) := by
    by_cases hcmd : command' = .startHand
    · subst hcmd
      simp only [runCommand, dispatchStartHand, Fallible.bind_eq_ok] at hm
      obtain ⟨_, -, _, -, hm⟩ := hm
      exact ⟨hnormal.trans (startHand_hands hm), fun _ => startHand_changes hm hn hu⟩
    · rw [if_neg hcmd]
      exact ⟨hnormal.trans (runCommand_grows hcmd _ hm).hands, fun he => absurd he hcmd⟩
  refine ⟨hhands.trans (by rw [hstart.1]), ?_⟩
  rcases advanceCounters_eq_ok ht with ⟨hsame, ht⟩ | ⟨-, -, ht⟩
  · exact .inl ⟨ht, fun hcmd => hstart.2 hcmd hsame⟩
  · refine .inr ⟨by rw [ht]; rfl, ?_⟩
    have hany : n.events.any TexasPokerEvent.isHandStarted = true ↔ 0 < n.hands := by
      rw [Exec.hands, List.countP_pos_iff, List.any_eq_true]
    rw [ht, counted, ← hstart.1]
    dsimp only
    have hle : n.hands ≤ 1 := by
      rw [hstart.1]
      split <;> decide
    split
    · have := hany.mp ‹_›
      omega
    · have := mt hany.mpr ‹_›
      omega

/-- The counters never fall. -/
theorem call_counts {c : Call} (h : s.call c = .ok s') :
    s'.table.handId + s.hands = s.table.handId + s'.hands ∧ s.hands ≤ s'.hands ∧
      s'.table.handId + s.table.callSeq ≤ s.table.handId + s'.table.callSeq := by
  obtain ⟨command, _, _, _, hc, -⟩ := call_ran h
  obtain ⟨hhands, hwhere⟩ := call_hands h hc
  by_cases hcmd : command = .startHand
  · obtain ⟨hseq, hid⟩ := hwhere.resolve_left fun h => h.2 hcmd
    rw [if_pos hcmd] at hhands hid
    omega
  · rw [if_neg hcmd] at hhands hwhere
    rcases hwhere with ⟨hsame, -⟩ | ⟨hseq, hid⟩
    · rw [hsame]
      omega
    · omega

/-- The hand counter counts the hands that the events announce, and no hand starts without a
call that is counted. -/
theorem counters_isInvariant : (session G).IsInvariant fun s =>
    s.table.handId = s.hands ∧ s.table.handId ≤ s.table.callSeq where
  init s hi := by
    obtain ⟨_, _, _, -, rfl⟩ := hi
    exact ⟨rfl, le_rfl⟩
  next s c s' _ hs h := by
    have := call_counts h
    omega

end Exec

end TexasPoker
