import TexasPoker.Invariants.Forward

/-! # Normalization comes to an end

Every stage of a normalization takes the hand to a later phase, so no table needs as many
stages as a normalization may run.
-/

namespace TexasPoker

variable {G : Type}

namespace HandPhase

/-- The phases of a hand in order; a table at rest is past them all. -/
def rank : HandPhase G → ℕ
  | .shuffling (.initial ..) => 0
  | .reconstructing street .. => 4 * (street - roundPreflop) + 1
  | .shuffling (.reconstruct street ..) => 4 * (street - roundPreflop) + 2
  | .revealing street .. => 4 * (street - roundPreflop) + 3
  | .betting street .. => 4 * (street - roundPreflop) + 4
  | .showdownDisplay _ => 21
  | .waiting => 22

theorem rank_undated (p : HandPhase G) : p.undated.rank = p.rank := by
  cases p with
  | shuffling phase => cases phase <;> rfl
  | _ => rfl

theorem rank_withTurn (p : HandPhase G) (turn : ℕ) : (p.withTurn turn).rank = p.rank := by
  cases p <;> rfl

end HandPhase

namespace TexasPokerTable

variable {t t' : TexasPokerTable G}

abbrev rank (t : TexasPokerTable G) : ℕ := t.handPhase.rank

theorem Retimed.rank (h : Retimed t t') : t'.rank = t.rank := by
  rw [TexasPokerTable.rank, ← HandPhase.rank_undated, h.phase, HandPhase.rank_undated]

theorem rank_le_of_hand (h : t.roundState ≤ roundShowdown) (hw : t.handPhase ≠ .waiting) :
    t.rank ≤ 21 := by
  unfold roundState at h
  unfold rank HandPhase.rank
  simp only [roundShowdown, roundPreflop, roundWaiting] at h ⊢
  cases hp : t.handPhase with
  | waiting => exact absurd hp hw
  | shuffling phase =>
    cases phase <;> simp only [hp, ShufflingPhase.street] at h ⊢ <;> omega
  | _ =>
    simp only [hp] at h ⊢
    omega

theorem rank_le (h : t.roundState ≤ roundShowdown) : t.rank ≤ 22 := by
  by_cases hw : t.handPhase = .waiting
  · rw [rank, hw]
    exact le_rfl
  · exact (rank_le_of_hand h hw).trans (by decide)

theorem rank_waiting (h : t.handPhase = .waiting) : t.rank = 22 := by
  rw [rank, h]
  rfl

theorem rank_of_shufflePhase :
    (t.shufflePhase = shufflePhaseBeforePreflop → t.rank = 0) ∧
      (t.shufflePhase = shufflePhaseReconstruct →
        t.rank = 4 * (t.roundState - roundPreflop) + 2) := by
  unfold shufflePhase rank roundState
  cases hp : t.handPhase with
  | shuffling phase =>
    cases phase <;> refine ⟨fun h => ?_, fun h => ?_⟩ <;> first | rfl | cases h
  | _ => refine ⟨fun h => ?_, fun h => ?_⟩ <;> cases h

theorem rank_betting (h : t.bettingRound.isSome = true) :
    t.rank = 4 * (t.roundState - roundPreflop) + 4 := by
  unfold bettingRound at h
  unfold rank roundState
  cases hp : t.handPhase with
  | betting _ _ _ _ => rfl
  | _ =>
    rw [hp] at h
    cases h

end TexasPokerTable

namespace Exec

open TexasPokerTable

variable {s m s' : Exec G}

theorem OpensNext.rank (h : OpensNext s s') (hround : s.table.bettingRound.isSome = true) :
    s.table.rank < s'.table.rank := by
  rw [rank_betting hround]
  cases h with
  | board hdeal ho ht _ =>
    obtain ⟨-, -, hopen, -⟩ := startCommunityRevealPhase_eq_ok ho
    rw [ht, hopen]
    simp only [streetDeals, List.mem_cons, Prod.mk.injEq, List.not_mem_nil, or_false] at hdeal
    change _ < 4 * (_ - roundPreflop) + 3
    rcases hdeal with ⟨h, -, rfl⟩ | ⟨h, -, rfl⟩ | ⟨h, -, rfl⟩ <;> rw [h] <;> decide
  | showdown hriver ho ht _ =>
    obtain ⟨_, -, hopen, -⟩ := startShowdownRevealPhase_eq_ok ho
    rw [ht, hopen, hriver]
    change _ < 4 * (roundShowdown - roundPreflop) + 3
    decide

/-- A shuffle that goes on keeps its phase, and one that is over opens a reveal. -/
theorem PassesShuffle.rank [AddCommGroup G] [Protocol G] [DecidableEq G] (h : PassesShuffle s s') :
    s.table.rank < s'.table.rank ∨ s'.table.rank = s.table.rank ∧
      (s'.table = s.table ∨ s.table.shuffleState.pendingMask ≠ 0) := by
  cases h with
  | idle _ he => exact .inr ⟨by rw [he], .inl (by rw [he])⟩
  | next _ hpending ht _ => exact .inr ⟨ht.rank, .inr hpending⟩
  | deal hp _ _ h =>
    rw [rank_of_shufflePhase.1 hp, (startPreflopRevealPhase_eq_ok h).1]
    exact .inl (Nat.succ_pos _)
  | restart hphase _ _ h =>
    have hopened {street d : ℕ} {reveal : RevealTokenState G} (hr : s.table.roundState = street)
        (hp : s'.table.handPhase = .revealing street reveal d) : s.table.rank < s'.table.rank := by
      rw [rank_of_shufflePhase.2 hphase, hr, TexasPokerTable.rank, hp]
      exact Nat.lt_succ_self _
    cases h with
    | hole hr h => exact .inl (hopened hr (by rw [(startPreflopRevealPhase_eq_ok h).1]; rfl))
    | board hr _ _ h =>
      exact .inl (hopened hr (by rw [(startCommunityRevealPhase_eq_ok h).2.2.1]; rfl))
    | showdown hr h =>
      obtain ⟨_, -, ht, -⟩ := startShowdownRevealPhase_eq_ok h
      exact .inl (hopened hr (by rw [ht]; rfl))
    | idle he => exact .inr ⟨by rw [he]; rfl, .inl (by rw [he]; rfl)⟩

variable [AddCommGroup G] [Protocol G] [DecidableEq G]

theorem endWithoutShowdown_rank (hb : s.table.bettingRound.isSome = true)
    (hl : s.table.roundState ≤ roundShowdown) (h : s.endWithoutShowdown = .ok s') :
    s.table.rank < s'.table.rank := by
  rw [rank_waiting (endWithoutShowdown_loses h).2.phase]
  exact (rank_le_of_hand hl (not_waiting_of_betting hb)).trans_lt (by decide)

theorem advanceRound_rank (hround : s.table.bettingRound.isSome = true)
    (hl : s.table.roundState ≤ roundShowdown) (h : s.advanceRound = .ok s') :
    s.table.rank ≤ s'.table.rank ∧
      (isBettingStreet s.table.roundState = true → s.table.rank < s'.table.rank) := by
  rcases advanceRound_eq_ok h with ⟨-, h⟩ | ⟨-, m, hm, h⟩
  · have hlt := endWithoutShowdown_rank hround hl h
    exact ⟨hlt.le, fun _ => hlt⟩
  have hphase : m.table.handPhase = s.table.handPhase := by
    rcases maybeTriggerRunItTwice_eq_ok hm with rfl | ⟨-, -, _, -, ht, -⟩
    · rfl
    · rw [ht]
  have hrank : m.table.rank = s.table.rank := congrArg HandPhase.rank hphase
  rcases h with ⟨hover, rfl⟩ | h
  · refine ⟨hrank.ge, fun hstreet => ?_⟩
    rw [roundState, hphase, ← roundState, hstreet] at hover
    cases hover
  · have hlt := h.rank (by rw [bettingRound, hphase]; exact hround)
    rw [hrank] at hlt
    exact ⟨hlt.le, fun _ => hlt⟩

/-- Collecting the bets leaves the round open. -/
theorem closes_rank (hround : s.table.bettingRound.isSome = true)
    (hl : s.table.roundState ≤ roundShowdown) (h : s.collectBetsToPot = .ok m)
    (hr : m.advanceRound = .ok s') : s.table.rank ≤ s'.table.rank ∧
      (isBettingStreet s.table.roundState = true → s.table.rank < s'.table.rank) := by
  have hm : m.table.handPhase = s.table.handPhase := by
    rw [(collectBetsToPot_eq_ok h).1]
    rfl
  have hrank : m.table.rank = s.table.rank := congrArg HandPhase.rank hm
  have hstate : m.table.roundState = s.table.roundState := by rw [roundState, hm, roundState]
  rw [← hrank, ← hstate]
  exact advanceRound_rank (by rw [bettingRound, hm]; exact hround) (hstate ▸ hl) hr

/-- A betting round opens, and one without contested action closes. -/
theorem startBettingRound_rank {isPreflop : Bool} {bbSeat : Option ℕ}
    (hl : s.table.roundState ≤ roundShowdown) (h : s.startBettingRound isPreflop bbSeat = .ok s') :
    4 * (s.table.roundState - roundPreflop) + 4 ≤ s'.table.rank := by
  simp only [startBettingRound] at h
  rw [Fallible.bind_eq_ok] at h
  obtain ⟨t, ht, h⟩ := h
  obtain rfl := enterBetting_eq_ok ht
  rw [Fallible.bind_eq_ok] at h
  obtain ⟨m, hm, h⟩ := h
  obtain ⟨-, -, hmt, -⟩ := setCurrentTurn_eq_ok hm
  have hopened : m.table.bettingRound.isSome = true ∧ m.table.roundState = s.table.roundState := by
    rw [hmt]
    cases isPreflop <;> exact ⟨rfl, rfl⟩
  have hrank : m.table.rank = 4 * (s.table.roundState - roundPreflop) + 4 := by
    rw [rank_betting hopened.1, hopened.2]
  split at h
  · simp only [Fallible.bind_eq_ok] at h
    obtain ⟨n, hn, c, hc, h⟩ := h
    obtain ⟨-, hround, hnt, -⟩ := setCurrentTurn_eq_ok hn
    have hnrank : n.table.rank = m.table.rank := by
      rw [hnt]
      exact HandPhase.rank_withTurn _ _
    have hnstate : n.table.roundState = m.table.roundState := by
      rw [hnt]
      exact roundState_of_stage (HandPhase.stage_withTurn _ _)
    have := (closes_rank (by rwa [hnt, bettingRound_withTurn])
      (by rw [hnstate, hopened.2]; exact hl) hc h).1
    omega
  · cases h
    exact hrank.ge

theorem checkRevealPhaseComplete_rank {street d : ℕ} {state : RevealTokenState G}
    (hs : s.table.Composed) (hp : s.table.handPhase = .revealing street state d)
    (h : s.checkRevealPhaseComplete = .ok s') (hne : s'.table ≠ s.table) :
    s.table.rank < s'.table.rank := by
  have hstate : s.table.roundState = street := by rw [roundState, hp]
  have hrank : s.table.rank = 4 * (s.table.roundState - roundPreflop) + 3 := by
    rw [rank, hp, hstate]
    rfl
  have hreveal : s.table.revealTokenState = some state := by
    rw [TexasPokerTable.revealTokenState, hp]
  rw [checkRevealPhaseComplete, hreveal] at h
  simp only [Fallible.orErr_some, Fallible.ok_bind] at h
  split at h
  · cases h
    exact absurd rfl hne
  rw [hrank]
  split at h
  · rename_i hpurpose
    simp only [Fallible.bind_eq_ok] at h
    obtain ⟨⟨b, bbSeat⟩, hb, a, ha, h⟩ := h
    have hpreflop : s.table.roundState = roundPreflop := by
      have hfits := hs.dealt _ hreveal
      rwa [hpurpose] at hfits
    have hstage : s.table.stage = .dealing roundPreflop := by
      rw [dealing_of_reveal hreveal, hpreflop]
    have hsame := roundState_of_stage (opening_onward (s := s.emit _) hs hstage hb ha).2
    have := startBettingRound_rank (hsame ▸ hs.last) h
    rw [hsame] at this
    exact this
  · exact startBettingRound_rank (s := s.emit _) hs.last h
  · cases h
    have := hs.last
    change _ < 21
    simp only [roundPreflop, roundShowdown] at *
    omega

theorem onCompleteReconstruct_rank {street epochMs d : ℕ} {state : ReconstructState}
    {reveal : RevealTokenState G}
    (hp : s.table.handPhase = .reconstructing street state reveal epochMs d)
    (h : s.onCompleteReconstruct = .ok s') : s.table.rank < s'.table.rank := by
  obtain ⟨m, _, _, -, -, ht, -, h⟩ := onCompleteReconstruct_eq_ok h
  have hrank : s.table.rank < m.table.rank := by
    rw [rank, hp, ht]
    change 4 * (street - roundPreflop) + 1 < 4 * (s.table.roundState - roundPreflop) + 2
    rw [roundState, hp]
    exact Nat.lt_succ_self _
  rcases h.rank with hlt | ⟨hsame, -⟩ <;> omega

/-- A stage of a normalization that changes the table takes it to a later phase. -/
theorem runNormalizationStep_rank {step : NormalizationStep} (hs : s.table.Composed)
    (hnext : s.table.nextNormalizationStep = .ok (some step))
    (h : s.runNormalizationStep step = .ok s') (hne : s'.table ≠ s.table) :
    s.table.rank < s'.table.rank := by
  have hready := nextNormalizationStep_eq_some hnext
  cases step with
  | completeReconstruct =>
    have hphase := hready.1
    cases hp : s.table.handPhase with
    | reconstructing _ _ _ _ _ => exact onCompleteReconstruct_rank hp h
    | _ =>
      rw [reconstructPhase, hp] at hphase
      exact absurd rfl hphase
  | advanceShuffle =>
    obtain ⟨-, hpending⟩ := hready
    rcases (advanceShuffle_eq_ok h).rank with hlt | ⟨-, hsame | hne'⟩
    · exact hlt
    · exact absurd hsame hne
    · exact absurd hpending hne'
  | completeReveal =>
    obtain ⟨_, _, _, hp, -⟩ := hready
    exact checkRevealPhaseComplete_rank hs hp h hne
  | endWithoutShowdown =>
    exact endWithoutShowdown_rank (Bool.and_eq_true_iff.mp hready.1).1 hs.last h
  | advanceBettingRound =>
    obtain ⟨hround, hstreet⟩ := Bool.and_eq_true_iff.mp hready.1
    simp only [runNormalizationStep, Fallible.bind_eq_ok] at h
    obtain ⟨c, hc, h⟩ := h
    exact (closes_rank hround hs.last hc h).2 hstreet

theorem normalizeOnce_rank {nowMs : ℕ} {step : NormalizationStep} (hs : s.table.Composed)
    (hnext : s.table.nextNormalizationStep = .ok (some step))
    (h : normalizeOnce nowMs s step = .ok s') :
    s'.table.Composed ∧ s.table.rank < s'.table.rank := by
  simp only [normalizeOnce, Fallible.bind_eq_ok, Fallible.ensure_eq_ok] at h
  obtain ⟨n, hn, _, hne, t, ht, _, -, _, -, h⟩ := h
  cases h
  have hretimed := armActiveDeadlineIfNeeded_retimed ht
  refine ⟨hretimed.sameTurns.composed ?_, ?_⟩
  · exact ((runNormalizationStep_beats hnext hn).goes hs).composed
  · rw [withTable_table, hretimed.rank]
    exact runNormalizationStep_rank hs hnext hn hne

/-- More fuel than a table has phases ahead changes nothing. -/
theorem normalizeLoop_stable {nowMs fuel : ℕ} {report : List NormalizationStep}
    (hs : s.table.Composed) (hfuel : 23 ≤ s.table.rank + fuel) (k : ℕ) :
    normalizeLoop nowMs (fuel + k) s report = normalizeLoop nowMs fuel s report := by
  induction fuel generalizing s report with
  | zero =>
    have := rank_le hs.last
    omega
  | succ fuel ih =>
    rw [Nat.succ_add, normalizeLoop, normalizeLoop]
    cases hnext : s.table.nextNormalizationStep with
    | error e => rfl
    | ok next =>
      cases next with
      | none => rfl
      | some step =>
        cases honce : normalizeOnce nowMs s step with
        | error e =>
          simp only [Fallible.ok_bind, honce]
          rfl
        | ok m =>
          obtain ⟨hm, hlt⟩ := normalizeOnce_rank hs hnext honce
          simp only [Fallible.ok_bind, honce]
          exact ih hm (by omega)

theorem normalizeLoop_length {nowMs fuel : ℕ} {report report' : List NormalizationStep}
    (hs : s.table.Composed) (h : normalizeLoop nowMs fuel s report = .ok (s', report')) :
    report'.length + s.table.rank ≤ report.length + s'.table.rank := by
  induction fuel generalizing s report with
  | zero => cases h
  | succ fuel ih =>
    rw [normalizeLoop, Fallible.bind_eq_ok] at h
    obtain ⟨next, hnext, h⟩ := h
    cases next with
    | none =>
      cases h
      exact le_rfl
    | some step =>
      obtain ⟨m, hm, h⟩ := Fallible.bind_eq_ok.mp h
      obtain ⟨hcomposed, hlt⟩ := normalizeOnce_rank hs hnext hm
      have := ih hcomposed h
      rw [List.length_append, List.length_singleton] at this
      omega

/-- A normalization of the table comes to an end by itself: with fuel for 22 stages it ends as
with any more, and an accepted one has run at most 22. -/
structure Settles (s : Exec G) : Prop where
  stable : ∀ nowMs t fuel, s.table.armActiveDeadlineIfNeeded nowMs = .ok t → 23 ≤ fuel →
    normalizeLoop nowMs fuel (s.withTable t) [] = normalizeLoop nowMs 23 (s.withTable t) []
  short : ∀ nowMs s' report, s.normalizeUntilBlocked nowMs = .ok (s', report) → report.length ≤ 22

theorem settles_of_composed (hs : s.table.Composed) : s.Settles where
  stable nowMs t fuel ht hfuel := by
    obtain ⟨k, rfl⟩ := Nat.exists_eq_add_of_le hfuel
    have harmed := (armActiveDeadlineIfNeeded_retimed ht).sameTurns.composed hs
    exact normalizeLoop_stable (s := s.withTable t) harmed (Nat.le_add_left _ _) k
  short nowMs s' report h := by
    have hcomposed := ((normalizeUntilBlocked_beats h).goes hs).composed
    simp only [normalizeUntilBlocked, Fallible.bind_eq_ok] at h
    obtain ⟨t, ht, _, -, h⟩ := h
    have hlen := normalizeLoop_length
      ((armActiveDeadlineIfNeeded_retimed ht).sameTurns.composed hs) h
    have := rank_le hcomposed.last
    rw [List.length_nil] at hlen
    omega

/-- The cap on the stages of a normalization never binds, before a command and after it. -/
theorem settles_isInvariant : (session G).IsInvariant fun s => s.Settles ∧
    ∀ context args command m, runCommand context args ⟨s.table, []⟩ command = .ok m → m.Settles :=
  composed_isInvariant.imp fun _ _ hs => ⟨settles_of_composed hs, fun _ _ _ _ hm =>
    settles_of_composed ((runCommand_ran hm).composed hs)⟩

end Exec

end TexasPoker
