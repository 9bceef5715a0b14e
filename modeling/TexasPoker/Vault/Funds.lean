import Mathlib.Algebra.BigOperators.Fin
import Mathlib.Algebra.Order.BigOperators.Group.Finset
import TexasPoker.Spec.Clock

/-! # Funds

The chips of a table, the payments its events record, and flows: what a transition moves
between the seats, the pot, the chip pool and the world outside.
-/

namespace TexasPoker

variable {G : Type}

/-- The chips in custody of a seat: its stack, its addon and its live bet. -/
def Seat.chips (s : Seat G) : ℕ := s.stack + s.pendingAddon + s.bet

namespace TexasPokerTable

variable {t t' : TexasPokerTable G} {g : Seat G → ℕ}

/-- Sum of a quantity over the seats. -/
def seatSum (t : TexasPokerTable G) (g : Seat G → ℕ) : ℕ := ∑ i, g (t.seats i)

theorem sumStacks_eq : t.sumStacks = t.seatSum Seat.stack := List.sum_ofFn

theorem sumPendingAddons_eq : t.sumPendingAddons = t.seatSum Seat.pendingAddon := List.sum_ofFn

theorem sumBets_eq : t.sumBets = t.seatSum Seat.bet := List.sum_ofFn

theorem sumTotalBets_eq : t.sumTotalBets = t.seatSum Seat.totalBet := List.sum_ofFn

theorem seatSum_congr (h : ∀ i, g (t'.seats i) = g (t.seats i)) : t'.seatSum g = t.seatSum g :=
  Finset.sum_congr rfl fun i _ => h i

theorem seatSum_eq_zero_iff : t.seatSum g = 0 ↔ ∀ i, g (t.seats i) = 0 := by
  simp [seatSum]

theorem le_seatSum (i : Fin maxSeats) : g (t.seats i) ≤ t.seatSum g :=
  Finset.single_le_sum (f := fun i => g (t.seats i)) (fun _ _ => Nat.zero_le _) (Finset.mem_univ i)

theorem seatSum_chips :
    t.seatSum Seat.chips = t.seatSum Seat.stack + t.seatSum Seat.pendingAddon + t.seatSum Seat.bet := by
  simp only [seatSum, Seat.chips, Finset.sum_add_distrib]

@[simp] theorem seats_setSeat_self (i : Fin maxSeats) (s : Seat G) : (t.setSeat i s).seats i = s := by
  simp [setSeat]

theorem seats_setSeat_of_ne {i : ℕ} {j : Fin maxSeats} (h : j.1 ≠ i) (s : Seat G) :
    (t.setSeat i s).seats j = t.seats j := if_neg h

/-- Overwriting a slot exchanges its share of a sum. -/
theorem seatSum_setSeat (i : Fin maxSeats) (s : Seat G) :
    (t.setSeat i s).seatSum g + g (t.seats i) = t.seatSum g + g s := by
  have hrest : ∑ j ∈ Finset.univ.erase i, g ((t.setSeat i s).seats j) =
      ∑ j ∈ Finset.univ.erase i, g (t.seats j) := by
    refine Finset.sum_congr rfl fun j hj => ?_
    rw [seats_setSeat_of_ne]
    exact fun h => (Finset.mem_erase.mp hj).1 (Fin.ext h)
  have h₁ := Finset.add_sum_erase Finset.univ (fun j => g ((t.setSeat i s).seats j))
    (Finset.mem_univ i)
  have h₂ := Finset.add_sum_erase Finset.univ (fun j => g (t.seats j)) (Finset.mem_univ i)
  simp only [seats_setSeat_self] at h₁
  unfold seatSum
  omega

theorem seatSum_setSeat_of_eq {i : Fin maxSeats} {s : Seat G} (h : g s = g (t.seats i)) :
    (t.setSeat i s).seatSum g = t.seatSum g := by
  have := seatSum_setSeat (t := t) (g := g) i s
  omega

/-- Every chip the table holds. -/
def held (t : TexasPokerTable G) : ℕ :=
  t.sumStacks + t.sumPendingAddons + t.pot + t.sumBets

theorem held_eq : t.held = t.pot + t.seatSum Seat.chips := by
  rw [held, sumStacks_eq, sumPendingAddons_eq, sumBets_eq, seatSum_chips]
  omega

/-- The chips in play: the pot and the live bets. -/
def wagers (t : TexasPokerTable G) : ℕ := t.pot + t.sumBets

/-- The chips in play are what the seats contributed. -/
def WagersMatch (t : TexasPokerTable G) : Prop := t.wagers = t.sumTotalBets

/-- The hand is over: nothing is in play. -/
structure Settled (t : TexasPokerTable G) : Prop where
  phase : t.handPhase = .waiting
  wagers : t.wagers = 0

/-- The vault equations of the source's reconciliation. -/
structure VaultBalanced (t : TexasPokerTable G) : Prop where
  custody : t.held = t.chipPool
  wagers : t.WagersMatch

end TexasPokerTable

/-! ## Payments -/

namespace TexasPokerEvent

/-- Chips paid out to a departing player. -/
def refund : TexasPokerEvent → ℕ
  | .playerRefund _ _ _ amount refundType => if refundType = refundTypeStackOnly then amount else 0
  | _ => 0

/-- Chips brought to the table. -/
def deposit : TexasPokerEvent → ℕ
  | .playerJoined _ _ _ buyIn _ _ => buyIn
  | .addonRequested _ _ _ amount _ => amount
  | .rebuyProcessed _ _ _ amount _ => amount
  | _ => 0

/-- Chips a settlement takes for the house. -/
def rake : TexasPokerEvent → ℕ
  | .settlementPlanCommitted _ _ _ _ rake _ => rake
  | _ => 0

/-- The event records no payment. -/
def Quiet (e : TexasPokerEvent) : Prop := e.refund = 0 ∧ e.deposit = 0 ∧ e.rake = 0

end TexasPokerEvent

namespace Exec

variable {s s' s'' : Exec G} {d r l d' r' l' : ℕ}

def refunded (s : Exec G) : ℕ := (s.events.map TexasPokerEvent.refund).sum

def deposited (s : Exec G) : ℕ := (s.events.map TexasPokerEvent.deposit).sum

def raked (s : Exec G) : ℕ := (s.events.map TexasPokerEvent.rake).sum

@[simp] theorem refunded_emit (e : TexasPokerEvent) :
    (s.emit e).refunded = s.refunded + e.refund := by
  simp [refunded, emit]

@[simp] theorem deposited_emit (e : TexasPokerEvent) :
    (s.emit e).deposited = s.deposited + e.deposit := by
  simp [deposited, emit]

@[simp] theorem raked_emit (e : TexasPokerEvent) : (s.emit e).raked = s.raked + e.rake := by
  simp [raked, emit]

@[simp] theorem refunded_withTable (t : TexasPokerTable G) :
    (s.withTable t).refunded = s.refunded := rfl

@[simp] theorem deposited_withTable (t : TexasPokerTable G) :
    (s.withTable t).deposited = s.deposited := rfl

@[simp] theorem raked_withTable (t : TexasPokerTable G) : (s.withTable t).raked = s.raked := rfl

/-- The payments recorded are the same. -/
structure SamePayments (s s' : Exec G) : Prop where
  refunded : s'.refunded = s.refunded
  deposited : s'.deposited = s.deposited
  raked : s'.raked = s.raked

theorem SamePayments.refl (s : Exec G) : SamePayments s s := ⟨rfl, rfl, rfl⟩

theorem SamePayments.trans (h : SamePayments s s') (h' : SamePayments s' s'') :
    SamePayments s s'' :=
  ⟨h'.refunded.trans h.refunded, h'.deposited.trans h.deposited, h'.raked.trans h.raked⟩

theorem SamePayments.of_events {es : List TexasPokerEvent} (he : s'.events = s.events ++ es)
    (hq : ∀ e ∈ es, e.Quiet) : SamePayments s s' := by
  have hz (f : TexasPokerEvent → ℕ) (hf : ∀ e ∈ es, f e = 0) :
      (s'.events.map f).sum = (s.events.map f).sum := by
    rw [he, List.map_append, List.sum_append, List.sum_eq_zero (l := es.map f), Nat.add_zero]
    simpa using hf
  exact ⟨hz _ fun e h => (hq e h).1, hz _ fun e h => (hq e h).2.1, hz _ fun e h => (hq e h).2.2⟩

theorem SamePayments.of_event {e : TexasPokerEvent} (he : s'.events = s.events ++ [e])
    (hq : e.Quiet) : SamePayments s s' :=
  .of_events he (by simpa using hq)

theorem SamePayments.emit {e : TexasPokerEvent} (h : SamePayments s s') (hq : e.Quiet) :
    SamePayments s (s'.emit e) :=
  h.trans (.of_event rfl hq)

/-- What a transition moves: `deposit` in, `rake` out, `lost` to nobody. -/
structure Flow (s s' : Exec G) (deposit rake lost : ℕ) : Prop where
  pool : s'.table.chipPool + s'.refunded + rake = s.table.chipPool + s.refunded + deposit
  held : s'.table.held + s'.refunded + rake + lost = s.table.held + s.refunded + deposit
  deposited : s'.deposited = s.deposited + deposit
  raked : s'.raked = s.raked + rake

theorem Flow.refl (s : Exec G) : Flow s s 0 0 0 := ⟨rfl, rfl, rfl, rfl⟩

theorem Flow.trans (h : Flow s s' d r l) (h' : Flow s' s'' d' r' l') :
    Flow s s'' (d + d') (r + r') (l + l') := by
  obtain ⟨hp, hh, hd, hr⟩ := h
  obtain ⟨hp', hh', hd', hr'⟩ := h'
  constructor <;> omega

/-- A flow after a transition that moves no chips. -/
theorem Flow.after (h' : Flow s' s'' d r l) (h : Flow s s' 0 0 0) : Flow s s'' d r l := by
  simpa using h.trans h'

theorem Flow.emit {e : TexasPokerEvent} (h : Flow s s' d r l) (hq : e.Quiet) :
    Flow s (s'.emit e) d r l := by
  obtain ⟨hr, hd, hk⟩ := (SamePayments.refl s').emit hq
  obtain ⟨h₁, h₂, h₃, h₄⟩ := h
  refine ⟨?_, ?_, ?_, ?_⟩
  · rwa [hr]
  · rwa [hr]
  · rwa [hd]
  · rwa [hk]

/-- A transition inside the table: `lost` chips go to nobody, and the chips in play still are
what the seats contributed. -/
structure Loses (s s' : Exec G) (lost : ℕ) : Prop where
  flow : Flow s s' 0 0 lost
  wagers : s.table.WagersMatch → s'.table.WagersMatch

theorem Loses.trans (h : Loses s s' l) (h' : Loses s' s'' l') : Loses s s'' (l + l') :=
  ⟨h.flow.trans h'.flow, fun hw => h'.wagers (h.wagers hw)⟩

theorem Loses.after (h' : Loses s' s'' l) (h : Loses s s' 0) : Loses s s'' l := by
  simpa using h.trans h'

theorem Loses.then (h : Loses s s' l) (h' : Loses s' s'' 0) : Loses s s'' l := h.trans h'

theorem Loses.emit {e : TexasPokerEvent} (h : Loses s s' l) (hq : e.Quiet) :
    Loses s (s'.emit e) l :=
  ⟨h.flow.emit hq, h.wagers⟩

/-- No chip moves. -/
structure Still (s s' : Exec G) : Prop where
  seats : s'.table.seats = s.table.seats
  pot : s'.table.pot = s.table.pot
  chipPool : s'.table.chipPool = s.table.chipPool
  rules : s'.table.rules = s.table.rules
  payments : SamePayments s s'

theorem Still.refl (s : Exec G) : Still s s := ⟨rfl, rfl, rfl, rfl, .refl s⟩

theorem Still.trans (h : Still s s') (h' : Still s' s'') : Still s s'' :=
  ⟨h'.seats.trans h.seats, h'.pot.trans h.pot, h'.chipPool.trans h.chipPool,
    h'.rules.trans h.rules, h.payments.trans h'.payments⟩

theorem Still.emit {e : TexasPokerEvent} (h : Still s s') (hq : e.Quiet) : Still s (s'.emit e) :=
  ⟨h.seats, h.pot, h.chipPool, h.rules, h.payments.emit hq⟩

theorem Still.of_retimed {t : TexasPokerTable G} (h : s.table.Retimed t) :
    Still s (s.withTable t) :=
  ⟨h.seats, h.pot, h.chipPool, h.rules, ⟨rfl, rfl, rfl⟩⟩

theorem Still.seatSum (h : Still s s') (g : Seat G → ℕ) :
    s'.table.seatSum g = s.table.seatSum g := by
  rw [TexasPokerTable.seatSum, h.seats]
  rfl

theorem Still.held (h : Still s s') : s'.table.held = s.table.held := by
  rw [TexasPokerTable.held_eq, TexasPokerTable.held_eq, h.pot, h.seatSum]

theorem Still.flow (h : Still s s') : Flow s s' 0 0 0 := by
  obtain ⟨hr, hd, hk⟩ := h.payments
  have := h.held
  have := h.chipPool
  constructor <;> omega

theorem Still.wagers (h : Still s s') : s'.table.wagers = s.table.wagers := by
  rw [TexasPokerTable.wagers, TexasPokerTable.wagers, TexasPokerTable.sumBets_eq,
    TexasPokerTable.sumBets_eq, h.pot, h.seatSum]

theorem Still.sumTotalBets (h : Still s s') : s'.table.sumTotalBets = s.table.sumTotalBets := by
  rw [TexasPokerTable.sumTotalBets_eq, TexasPokerTable.sumTotalBets_eq, h.seatSum]

theorem Still.wagersMatch (h : Still s s') :
    s'.table.WagersMatch ↔ s.table.WagersMatch := by
  rw [TexasPokerTable.WagersMatch, TexasPokerTable.WagersMatch, h.wagers, h.sumTotalBets]

theorem Still.loses (h : Still s s') : Loses s s' 0 := ⟨h.flow, h.wagersMatch.mpr⟩

end Exec

end TexasPoker
