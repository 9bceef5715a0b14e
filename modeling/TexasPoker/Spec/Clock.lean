import TexasPoker.Machine.Queries

/-! # Clocks

Arming, extending and disarming a deadline changes the clock of the active phase and
nothing else.
-/

namespace TexasPoker

variable {G : Type}

/-- A phase with its clock stopped. -/
def HandPhase.undated : HandPhase G → HandPhase G
  | .waiting => .waiting
  | .shuffling phase => .shuffling (phase.withDeadline 0)
  | .revealing street state _ => .revealing street state 0
  | .reconstructing street state reveal _ _ => .reconstructing street state reveal 0 0
  | .betting street round turn _ => .betting street round turn 0
  | .showdownDisplay _ => .showdownDisplay 0

namespace TexasPokerTable

/-- `t'` is `t` with another clock. -/
structure Retimed (t t' : TexasPokerTable G) : Prop where
  phase : t'.handPhase.undated = t.handPhase.undated
  rest : t' = { t with handPhase := t'.handPhase }

variable {t t' t'' : TexasPokerTable G}

theorem Retimed.refl (t : TexasPokerTable G) : Retimed t t := ⟨rfl, rfl⟩

theorem Retimed.trans (h : Retimed t t') (h' : Retimed t' t'') : Retimed t t'' :=
  ⟨h'.phase.trans h.phase, by rw [h'.rest, h.rest]⟩

theorem Retimed.of_phase {p : HandPhase G} (h : p.undated = t.handPhase.undated) :
    Retimed t { t with handPhase := p } := ⟨h, rfl⟩

theorem armActiveDeadlineIfNeeded_retimed {nowMs : ℕ}
    (h : t.armActiveDeadlineIfNeeded nowMs = .ok t') : Retimed t t' := by
  rw [armActiveDeadlineIfNeeded, Fallible.bind_eq_ok] at h
  obtain ⟨_, -, h⟩ := h
  split at h
  · rename_i phase hp
    split at h
    · obtain ⟨_, -, h⟩ := Fallible.bind_eq_ok.mp h
      cases h
      refine .of_phase ?_
      rw [hp]
      cases phase <;> rfl
    · cases h
      exact .refl t
  · rename_i hp
    obtain ⟨_, -, h⟩ := Fallible.bind_eq_ok.mp h
    cases h
    exact .of_phase (by rw [hp]; rfl)
  · rename_i hp
    obtain ⟨_, -, h⟩ := Fallible.bind_eq_ok.mp h
    cases h
    exact .of_phase (by rw [hp]; rfl)
  · obtain ⟨_, -, h⟩ := Fallible.bind_eq_ok.mp h
    cases h
    exact .refl t
  · rename_i hp
    obtain ⟨_, -, h⟩ := Fallible.bind_eq_ok.mp h
    cases h
    exact .of_phase (by rw [hp]; rfl)
  · rename_i hp
    obtain ⟨_, -, h⟩ := Fallible.bind_eq_ok.mp h
    cases h
    exact .of_phase (by rw [hp]; rfl)
  · cases h
    exact .refl t

theorem armBettingDeadline_retimed {nowMs : ℕ} (h : t.armBettingDeadline nowMs = .ok t') :
    Retimed t t' := by
  rw [armBettingDeadline, Fallible.bind_eq_ok] at h
  obtain ⟨_, -, h⟩ := h
  split at h
  · rename_i hp
    cases h
    exact .of_phase (by rw [hp]; rfl)
  · cases h

theorem extendBettingDeadline_retimed {extensionMs deadlineMs : ℕ}
    (h : t.extendBettingDeadline extensionMs = .ok (t', deadlineMs)) : Retimed t t' := by
  unfold extendBettingDeadline at h
  split at h
  · rename_i hp
    simp only [Fallible.bind_eq_ok] at h
    obtain ⟨_, -, _, -, h⟩ := h
    cases h
    exact .of_phase (by rw [hp]; rfl)
  · cases h

theorem disarmShuffleDeadline_retimed (h : t.disarmShuffleDeadline = .ok t') : Retimed t t' := by
  unfold disarmShuffleDeadline at h
  split at h
  · rename_i phase hp
    cases h
    refine .of_phase ?_
    rw [hp]
    cases phase <;> rfl
  · cases h

namespace Retimed

variable (h : Retimed t t')
include h

theorem seats : t'.seats = t.seats := by rw [h.rest]

theorem rules : t'.rules = t.rules := by rw [h.rest]

theorem pot : t'.pot = t.pot := by rw [h.rest]

theorem chipPool : t'.chipPool = t.chipPool := by rw [h.rest]

theorem deckState : t'.deckState = t.deckState := by rw [h.rest]

theorem shuffling {phase : ShufflingPhase G} (hp : t.handPhase = .shuffling phase) :
    ∃ d, t'.handPhase = .shuffling (phase.withDeadline d) := by
  have hu := h.phase
  rw [hp] at hu
  cases hp' : t'.handPhase with
  | shuffling phase' =>
    rw [hp'] at hu
    cases phase <;> cases phase' <;> simp_all [HandPhase.undated, ShufflingPhase.withDeadline]
  | _ => simp [hp', HandPhase.undated] at hu

theorem revealing {street d : ℕ} {state : RevealTokenState G}
    (hp : t.handPhase = .revealing street state d) :
    ∃ d, t'.handPhase = .revealing street state d := by
  have hu := h.phase
  rw [hp] at hu
  cases hp' : t'.handPhase <;> simp_all [HandPhase.undated]

theorem reconstructing {street epochMs d : ℕ} {state : ReconstructState}
    {reveal : RevealTokenState G} (hp : t.handPhase = .reconstructing street state reveal epochMs d) :
    ∃ epochMs d, t'.handPhase = .reconstructing street state reveal epochMs d := by
  have hu := h.phase
  rw [hp] at hu
  cases hp' : t'.handPhase <;> simp_all [HandPhase.undated]

theorem betting {street turn d : ℕ} {round : BettingRound}
    (hp : t.handPhase = .betting street round turn d) :
    ∃ d, t'.handPhase = .betting street round turn d := by
  have hu := h.phase
  rw [hp] at hu
  cases hp' : t'.handPhase <;> simp_all [HandPhase.undated]

theorem showdownDisplay {d : ℕ} (hp : t.handPhase = .showdownDisplay d) :
    ∃ d, t'.handPhase = .showdownDisplay d := by
  have hu := h.phase
  rw [hp] at hu
  cases hp' : t'.handPhase <;> simp_all [HandPhase.undated]

theorem waiting (hp : t.handPhase = .waiting) : t'.handPhase = .waiting := by
  have hu := h.phase
  rw [hp] at hu
  cases hp' : t'.handPhase <;> simp_all [HandPhase.undated]

end Retimed

end TexasPokerTable

end TexasPoker
