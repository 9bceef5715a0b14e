import TexasPoker.Invariants.Asked

/-! # Onward

What a hand can do to its table. Nothing is taken back: streets only advance, boards and hands
only grow, wagers only rise, a fold is final, and nobody enters or comes back.
-/

namespace TexasPoker

variable {G : Type}

namespace Seat

/-- The hole cards of a slot that are in the open. -/
def cards (s : Seat G) : List Card := (s.hand.map CardSlots.cards).getD []

/-- What a hand can do to a slot; it gets cards only where hands are opened. -/
inductive Onward (opens : Prop) : Seat G → Seat G → Prop where
  | vacant (timeBankMs : ℕ) : Onward opens (.vacant timeBankMs) (.vacant timeBankMs)
  | waits {o o' : OccupiedSeat G} : o'.player = o.player → o'.pk = o.pk →
      Onward opens (.waiting o) (.waiting o')
  | plays {p p' : PlayingSeat G} : p'.occupied.player = p.occupied.player →
      p'.occupied.pk = p.occupied.pk → p.hand.cards <+: p'.hand.cards →
      (opens ∨ p'.hand = p.hand) → p.totalBet ≤ p'.totalBet →
      (p.status ≠ .active → p'.status = p.status) → Onward opens (.playing p) (.playing p')
  | quits {o : OccupiedSeat G} {timeBankMs : ℕ} :
      Onward opens (.waiting o) (.departedThisHand o.player 0 timeBankMs)
  | forfeits {p : PlayingSeat G} {totalBet timeBankMs : ℕ} : p.totalBet ≤ totalBet →
      Onward opens (.playing p) (.departedThisHand p.occupied.player totalBet timeBankMs)
  | gone (player : Address) (totalBet timeBankMs : ℕ) :
      Onward opens (.departedThisHand player totalBet timeBankMs)
        (.departedThisHand player totalBet timeBankMs)

namespace Onward

variable {opens opens' : Prop} {s s' s'' : Seat G} {p p' : PlayingSeat G}

theorem imp (h : Onward opens s s') (hi : opens → opens') : Onward opens' s s' := by
  cases h with
  | vacant _ => exact .vacant _
  | waits hplayer hpk => exact .waits hplayer hpk
  | plays hplayer hpk hhand hopens hbet hstatus =>
    exact .plays hplayer hpk hhand (hopens.imp hi id) hbet hstatus
  | quits => exact .quits
  | forfeits hle => exact .forfeits hle
  | gone _ _ _ => exact .gone _ _ _

/-- Cards come into the open only where hands are opened. -/
theorem cards_nil (h : Onward opens s s') (hn : ¬ opens) (hs : s.cards = []) : s'.cards = [] := by
  cases h with
  | plays _ _ _ hopens _ _ =>
    rw [← hs]
    exact congrArg CardSlots.cards (hopens.resolve_left hn)
  | _ => rfl

theorem refl (s : Seat G) : Onward opens s s := by
  cases s with
  | vacant _ => exact .vacant _
  | waiting _ => exact .waits rfl rfl
  | playing _ => exact .plays rfl rfl List.prefix_rfl (.inr rfl) le_rfl fun _ => rfl
  | departedThisHand _ _ _ => exact .gone _ _ _

theorem trans (h : Onward opens s s') (h' : Onward opens s' s'') : Onward opens s s'' := by
  cases h with
  | vacant _ => exact h'
  | gone _ _ _ => exact h'
  | quits =>
    cases h'
    exact .quits
  | forfeits hle =>
    cases h'
    exact .forfeits hle
  | waits hplayer hpk =>
    cases h' with
    | waits hplayer' hpk' => exact .waits (hplayer'.trans hplayer) (hpk'.trans hpk)
    | quits =>
      rw [hplayer]
      exact .quits
  | plays hplayer hpk hhand hopens hbet hstatus =>
    cases h' with
    | plays hplayer' hpk' hhand' hopens' hbet' hstatus' =>
      refine .plays (hplayer'.trans hplayer) (hpk'.trans hpk) (hhand.trans hhand') ?_
        (hbet.trans hbet') fun hne => ?_
      · rcases hopens' with h | hsame'
        · exact .inl h
        · exact hopens.imp id hsame'.trans
      have hsame := hstatus hne
      rw [← hsame] at hne ⊢
      exact hstatus' hne
    | forfeits hbet' =>
      rw [hplayer]
      exact .forfeits (hbet.trans hbet')

theorem clearBet (s : Seat G) : Onward opens s s.clearBet := by
  cases s with
  | playing _ => exact .plays rfl rfl List.prefix_rfl (.inr rfl) le_rfl fun _ => rfl
  | _ => exact refl _

theorem setTimeBankMs (s : Seat G) (value : ℕ) (h : s.isOccupied = true) :
    Onward opens s (s.setTimeBankMs value) := by
  cases s with
  | waiting _ => exact .waits rfl rfl
  | playing _ => exact .plays rfl rfl List.prefix_rfl (.inr rfl) le_rfl fun _ => rfl
  | _ => cases h

theorem departed (s : Seat G) (h : s.isOccupied = true) : Onward opens s s.departed := by
  cases s with
  | waiting _ => exact .quits
  | playing _ => exact .forfeits le_rfl
  | _ => cases h

/-- A fold is of a player who can act. -/
theorem folded (s : Seat G) (h : s.isActionable = true) : Onward opens s (s.setStatus .folded) := by
  rw [isActionable_iff_status] at h
  cases s with
  | playing p =>
    refine .plays rfl rfl List.prefix_rfl (.inr rfl) le_rfl fun hne => absurd ?_ hne
    cases hp : p.status <;> simp [status, hp] at h
    rfl
  | _ => cases h

theorem wagered {amount bet : ℕ} {allIn : Bool} (h : p.status = .active) :
    Onward opens (.playing p) (.playing (p.wagered amount bet allIn)) :=
  .plays rfl rfl List.prefix_rfl (.inr rfl) (Nat.le_add_right _ _) fun hne => absurd h hne

theorem setPendingAddon {addon : ℕ} (h : s.setPendingAddon addon = .ok s') :
    Onward opens s s' := by
  cases s <;> simp only [Seat.setPendingAddon] at h <;> try split at h
  all_goals cases h
  · exact refl _
  · exact .waits rfl rfl
  · exact .plays rfl rfl List.prefix_rfl (.inr rfl) le_rfl fun _ => rfl
  · exact refl _

theorem setStack {stack : ℕ} (h : s.setStack stack = .ok s') : Onward opens s s' := by
  cases s <;> simp only [Seat.setStack] at h <;> try split at h
  all_goals cases h
  · exact refl _
  · exact .waits rfl rfl
  · exact .plays rfl rfl List.prefix_rfl (.inr rfl) le_rfl fun _ => rfl
  · exact refl _

end Onward

end Seat

/-- Where a hand stands: each street is dealt, then bet. -/
def Stage.order : Stage → ℕ
  | .between => 0
  | .dealing street => 2 * street + 2
  | .betting street => 2 * street + 3

theorem Stage.order_injective : Function.Injective Stage.order := by
  rintro (_ | a | a) (_ | b | b) h <;> simp only [order] at h <;> first | rfl | (congr 1; omega)

namespace TexasPokerTable

variable {t t' t'' : TexasPokerTable G}

/-- The hand has come to its showdown. -/
def Shows (t : TexasPokerTable G) : Prop := (Stage.dealing roundShowdown).order ≤ t.stage.order

/-- What a hand can do to its table. -/
structure Onward (t t' : TexasPokerTable G) : Prop where
  rules : t'.rules = t.rules
  stage : t.stage.order ≤ t'.stage.order
  board : t.communityCards.cards <+: t'.communityCards.cards
  second : t.runItTwiceState.secondBoardSuffix <+: t'.runItTwiceState.secondBoardSuffix
  seats : ∀ i, (t.seats i).Onward t'.Shows (t'.seats i)
  price : t'.stage = t.stage → t.price ≤ t'.price

theorem Onward.refl (t : TexasPokerTable G) : Onward t t :=
  ⟨rfl, le_rfl, List.prefix_rfl, List.prefix_rfl, fun _ => .refl _, fun _ => le_rfl⟩

theorem Onward.trans (h : Onward t t') (h' : Onward t' t'') : Onward t t'' where
  rules := h'.rules.trans h.rules
  stage := h.stage.trans h'.stage
  board := h.board.trans h'.board
  second := h.second.trans h'.second
  seats i := ((h.seats i).imp fun hs => hs.trans h'.stage).trans (h'.seats i)
  price hs := by
    have hle := h'.stage
    rw [hs] at hle
    have hsame : t'.stage = t.stage := Stage.order_injective (le_antisymm hle h.stage)
    exact (h.price hsame).trans (h'.price (hs.trans hsame.symm))

/-- No hole card is in the open before the showdown. -/
def Concealed (t : TexasPokerTable G) : Prop := ¬ t.Shows → ∀ i, (t.seats i).cards = []

theorem Onward.concealed (h : Onward t t') (ht : t.Concealed) : t'.Concealed := fun hn i =>
  (h.seats i).cards_nil hn (ht (fun hs => hn (hs.trans h.stage)) i)

/-- The hand is over and its cards are taken back. -/
structure Cleared (t : TexasPokerTable G) : Prop where
  phase : t.handPhase = .waiting
  cards : ∀ i, (t.seats i).cards = []

theorem Cleared.concealed (h : t.Cleared) : t.Concealed := fun _ => h.cards

theorem not_shows_of_waiting (h : t.handPhase = .waiting) : ¬ t.Shows := by
  rw [Shows, stage, h]
  change ¬ (Stage.dealing roundShowdown).order ≤ Stage.between.order
  decide

theorem Onward.cleared (h : Onward t t') (ht : t.Cleared) (hw : t'.handPhase = .waiting) :
    t'.Cleared :=
  ⟨hw, h.concealed ht.concealed (not_shows_of_waiting hw)⟩

/-- A hand is under way: its hole cards are being dealt, or have been. -/
def InHand (t : TexasPokerTable G) : Prop := t.stage ≠ .between

theorem Onward.inHand (h : Onward t t') (ht : t.InHand) : t'.InHand := by
  intro hbetween
  have hle := h.stage
  rw [hbetween] at hle
  exact ht (Stage.order_injective (Nat.le_zero.mp hle))

theorem price_of_not_betting (h : ∀ street, t.stage ≠ .betting street) : t.price = 0 := by
  unfold price bettingRound
  cases hp : t.handPhase with
  | betting street _ _ _ => exact absurd (by rw [stage, hp]; rfl) (h street)
  | _ => rfl

theorem price_kicked (k : Fin maxSeats) : (t.kicked k).price = t.price := by
  have hround : (t.kicked k).bettingRound = t.bettingRound := by
    have hphase : (t.kicked k).handPhase = t.handPhase.removeSeat k := rfl
    rw [bettingRound, bettingRound, hphase]
    cases t.handPhase with
    | shuffling phase => cases phase <;> rfl
    | _ => rfl
  rw [price, price, hround]

/-- The slots stay, and the hand stays in its stage or goes to a later one. -/
theorem Onward.of_later (hr : t'.rules = t.rules) (hs : t.stage.order < t'.stage.order)
    (hb : t'.communityCards = t.communityCards)
    (htwo : t.runItTwiceState.secondBoardSuffix <+: t'.runItTwiceState.secondBoardSuffix)
    (hseats : ∀ i, (t.seats i).Onward t'.Shows (t'.seats i)) : Onward t t' :=
  ⟨hr, hs.le, hb ▸ List.prefix_rfl, htwo, hseats, fun h => absurd (h ▸ hs) (lt_irrefl _)⟩

theorem Onward.of_stage (hr : t'.rules = t.rules) (hs : t'.stage = t.stage)
    (hb : t'.communityCards = t.communityCards) (htwo : t'.runItTwiceState = t.runItTwiceState)
    (hseats : ∀ i, (t.seats i).Onward t'.Shows (t'.seats i)) (hp : t.price ≤ t'.price) :
    Onward t t' :=
  ⟨hr, hs ▸ le_rfl, hb ▸ List.prefix_rfl, htwo ▸ List.prefix_rfl, hseats, fun _ => hp⟩

theorem onward_setSeat {opens : Prop} {k : Fin maxSeats} {x : Seat G}
    (hs : t'.seats = (t.setSeat k x).seats) (hx : (t.seats k).Onward opens x) (i : Fin maxSeats) :
    (t.seats i).Onward opens (t'.seats i) := by
  rw [hs]
  by_cases hik : i = k
  · rw [hik, seats_setSeat_self]
    exact hx
  · rw [seats_setSeat_of_ne fun he => hik (Fin.ext he)]
    exact .refl _

/-! ## Composed tables -/

/-- The streets on which a reveal serves its purpose. -/
def RevealPurpose.Fits : RevealPurpose → ℕ → Prop
  | .dealHole, street => street = roundPreflop
  | .board, _ => True
  | .showdownOwner, street => street = roundShowdown

/-- The seat to act can act, nobody has folded or is all in before the first bets, and the
streets go from the preflop to the showdown. -/
structure Composed (t : TexasPokerTable G) : Prop where
  size : t.rules.maxPlayers ≤ maxSeats
  held : t.isBettingRound = true → t.currentTurn ≠ noSeat → t.able t.currentTurn = true
  fresh : t.stage.order < (Stage.betting roundPreflop).order →
    ∀ i, (t.seats i).status ≠ .folded ∧ (t.seats i).status ≠ .allIn
  first : t.InHand → roundPreflop ≤ t.roundState
  last : t.roundState ≤ roundShowdown
  dealt : ∀ reveal, t.revealTokenState = some reveal → RevealPurpose.Fits reveal.purpose t.roundState

theorem revealTokenState_undated :
    ({ t with handPhase := t.handPhase.undated } : TexasPokerTable G).revealTokenState =
      t.revealTokenState := by
  unfold revealTokenState
  cases t.handPhase with
  | shuffling phase => cases phase <;> rfl
  | _ => rfl

theorem SameTurns.revealTokenState (h : SameTurns t t') :
    t'.revealTokenState = t.revealTokenState := by
  have ht' := revealTokenState_undated (t := t')
  rw [h.phase] at ht'
  rw [← ht']
  exact revealTokenState_undated (t := t)

theorem SameTurns.stage (h : SameTurns t t') : t'.stage = t.stage := by
  rw [TexasPokerTable.stage, ← HandPhase.stage_undated, h.phase, HandPhase.stage_undated]
  rfl

theorem SameTurns.composed (h : SameTurns t t') (ht : t.Composed) : t'.Composed where
  size := h.rules ▸ ht.size
  held hb hturn := by
    rw [h.currentTurn] at hturn ⊢
    rw [h.able]
    exact ht.held (h.isBettingRound ▸ hb) hturn
  fresh hs i := by
    rw [h.status]
    exact ht.fresh (h.stage ▸ hs) i
  first hin := by
    rw [roundState_of_stage h.stage]
    exact ht.first fun hb => hin (h.stage.trans hb)
  last := by
    rw [roundState_of_stage h.stage]
    exact ht.last
  dealt reveal hr := by
    rw [roundState_of_stage h.stage]
    exact ht.dealt reveal (h.revealTokenState ▸ hr)

theorem SameTurns.onward (h : SameTurns t t') (hb : t'.communityCards = t.communityCards)
    (htwo : t'.runItTwiceState = t.runItTwiceState)
    (hseats : ∀ i, (t.seats i).Onward t'.Shows (t'.seats i)) : Onward t t' :=
  .of_stage h.rules h.stage hb htwo hseats h.price.ge

/-- A reset prepares every slot for the next hand. -/
theorem composed_afterHand [AddCommGroup G] [Protocol G] [DecidableEq G]
    (h : t.rules.maxPlayers ≤ maxSeats) : t.afterHand.Composed where
  size := h
  held hb := by cases hb
  fresh _ i := by
    change (t.nextSeat i).status ≠ _ ∧ (t.nextSeat i).status ≠ _
    unfold nextSeat
    split
    · exact ⟨by rintro ⟨⟩, by rintro ⟨⟩⟩
    split
    · exact ⟨by rintro ⟨⟩, by rintro ⟨⟩⟩
    unfold preparedSeat
    cases t.seats i <;> exact ⟨by rintro ⟨⟩, by rintro ⟨⟩⟩
  first hin := absurd rfl hin
  last := Nat.zero_le _
  dealt reveal hr := by cases hr

/-- A reset takes the cards back. -/
theorem cleared_afterHand [AddCommGroup G] [Protocol G] [DecidableEq G] :
    t.afterHand.Cleared where
  phase := rfl
  cards i := by
    change (t.nextSeat i).cards = []
    unfold nextSeat
    split
    · rfl
    split
    · rfl
    unfold preparedSeat
    cases t.seats i <;> rfl

/-- No betting round is open, and nobody folds or goes all in. -/
theorem Composed.of_quiet (h : t.Composed) (hr : t'.rules = t.rules)
    (hq : t'.isBettingRound = false) (ho : t.stage.order ≤ t'.stage.order)
    (hs : ∀ i, (t'.seats i).status = (t.seats i).status) (hf : roundPreflop ≤ t'.roundState)
    (hl : t'.roundState ≤ roundShowdown) (hd : ∀ reveal, t'.revealTokenState = some reveal →
      RevealPurpose.Fits reveal.purpose t'.roundState) : t'.Composed where
  size := hr ▸ h.size
  held hb := by
    rw [hq] at hb
    cases hb
  fresh hlt i := by
    rw [hs]
    exact h.fresh (ho.trans_lt hlt) i
  first _ := hf
  last := hl
  dealt := hd

end TexasPokerTable

end TexasPoker
