import TexasPoker.Spec.Actions
import TexasPoker.Vault.Exits

/-! # The opening of a hand in closed form

Blinds and antes, the start of a hand, and the fold that leaves the deck: what an accepted
call checks, and what it writes.
-/

namespace TexasPoker

variable {G : Type}

/-- A player after a blind, which is the live bet; a seat left without chips is all in. -/
def PlayingSeat.posted (p : PlayingSeat G) (amount : ℕ) : PlayingSeat G :=
  { p with
    occupied := { p.occupied with stack := p.occupied.stack - amount }
    bet := amount
    totalBet := p.totalBet + amount
    status := if p.occupied.stack - amount = 0 then .allIn else p.status }

/-- A player after an ante, which is no bet. -/
def PlayingSeat.anted (p : PlayingSeat G) (ante : ℕ) : PlayingSeat G :=
  { p with
    occupied := { p.occupied with stack := p.occupied.stack - ante }
    totalBet := p.totalBet + ante
    status := if p.occupied.stack - ante = 0 then .allIn else p.status }

namespace TexasPokerTable

variable {t t' : TexasPokerTable G}

theorem postBlind_eq_ok {i amount : ℕ} {label : String}
    (h : t.postBlind i amount label = .ok t') :
    ∃ (k : Fin maxSeats) (p : PlayingSeat G), k.1 = i ∧ t.seats k = .playing p ∧
      amount ≤ p.occupied.stack ∧ t' = t.setSeat k (.playing (p.posted amount)) := by
  simp only [postBlind, Fallible.bind_eq_ok, Fallible.checkedSub_eq_ok,
    Fallible.checkedAdd_eq_ok] at h
  obtain ⟨p, hp, _, ⟨hle, rfl⟩, _, ⟨-, rfl⟩, h⟩ := h
  obtain ⟨k, rfl, hk⟩ := playing_of_playingMut hp
  cases h
  exact ⟨k, p, rfl, hk, hle, rfl⟩

theorem postAnte_eq_ok {ante : ℕ × ℕ} (h : t.postAnte ante = .ok t') :
    ∃ (k : Fin maxSeats) (p : PlayingSeat G), k.1 = ante.1 ∧ t.seats k = .playing p ∧
      t' = t.setSeat k (.playing (p.anted ante.2)) := by
  simp only [postAnte, Fallible.bind_eq_ok] at h
  obtain ⟨p, hp, h⟩ := h
  obtain ⟨k, hk, hs⟩ := playing_of_playingMut hp
  cases h
  exact ⟨k, p, hk, hs, by rw [hk]; rfl⟩

/-- The blinds of a hand in seat order of their posting; a dead small blind is none. -/
def blinds (t : TexasPokerTable G) : List (ℕ × ℕ × String) :=
  (if t.blindSeats.1 = noSeat then []
    else [(t.blindSeats.1, min t.rules.smallBlind (t.seat t.blindSeats.1).stack, "sb")]) ++
  [(t.blindSeats.2, min t.rules.bigBlind (t.seat t.blindSeats.2).stack, "bb")]

end TexasPokerTable

namespace Exec

variable {s s' : Exec G}

theorem postBlinds_eq_ok {bbSeat : ℕ} (h : s.postBlinds = .ok (s', bbSeat)) :
    bbSeat = s.table.blindSeats.2 ∧ s.SamePayments s' ∧
      s.table.blinds.foldlM (fun t b => t.postBlind b.1 b.2.1 b.2.2)
        { s.table with lastBbSeat := bbSeat } = .ok s'.table := by
  simp only [postBlinds] at h
  generalize hb : s.table.blindSeats = b at h ⊢
  obtain ⟨sb, bb⟩ := b
  have hquiet {u : TexasPokerTable G} {e : TexasPokerEvent} (hq : e.Quiet) :
      s.SamePayments ((s.withTable u).emit e) := .of_event rfl hq
  dsimp only at h
  split at h
  · rename_i hsb
    simp only [Fallible.bind_eq_ok] at h
    obtain ⟨u, hu, v, hv, h⟩ := h
    cases h
    refine ⟨rfl, hquiet ⟨rfl, rfl, rfl⟩, ?_⟩
    simp only [TexasPokerTable.blinds, hb, if_neg hsb, List.cons_append, List.nil_append,
      List.foldlM_cons, List.foldlM_nil, Fallible.bind_eq_ok]
    exact ⟨u, hu, v, hv, rfl⟩
  · rename_i hsb
    rw [not_not] at hsb
    simp only [Fallible.bind_eq_ok] at h
    obtain ⟨u, hu, v, hv, h⟩ := h
    cases h
    cases hu
    refine ⟨rfl, hquiet ⟨rfl, rfl, rfl⟩, ?_⟩
    simp only [TexasPokerTable.blinds, hb, if_pos hsb, List.nil_append, List.foldlM_cons,
      List.foldlM_nil, Fallible.bind_eq_ok]
    exact ⟨v, hv, rfl⟩

theorem foldlM_postAnte {l : List (ℕ × ℕ)} (h : l.foldlM (fun s a => do
      let t ← s.table.postAnte a
      return (s.withTable t).emit (.antePosted t.id a.1 a.2 t.rules.anteMode)) s = .ok s') :
    s.SamePayments s' ∧ l.foldlM (fun t a => t.postAnte a) s.table = .ok s'.table := by
  induction l generalizing s with
  | nil =>
    obtain rfl : s = s' := by simpa using h
    exact ⟨.refl _, rfl⟩
  | cons a l ih =>
    rw [List.foldlM_cons, Fallible.bind_eq_ok] at h ⊢
    obtain ⟨m, hm, h⟩ := h
    obtain ⟨t, ht, hm⟩ := Fallible.bind_eq_ok.mp hm
    cases hm
    obtain ⟨hp, hl⟩ := ih h
    have hm : s.SamePayments ((s.withTable t).emit (.antePosted t.id a.1 a.2 t.rules.anteMode)) :=
      .of_event rfl ⟨rfl, rfl, rfl⟩
    exact ⟨hm.trans hp, t, ht, hl⟩

/-- Antes are paid by seats of the hand, straight into the pot. -/
theorem collectAnte_eq_ok {bbSeat : ℕ} (h : s.collectAnte bbSeat = .ok s') :
    s.SamePayments s' ∧
      ((s.table.rules.anteMode = anteModeNone ∨ s.table.rules.anteAmount = 0) ∧ s' = s ∨
        (s.table.rules.anteMode ≠ anteModeNone ∧ s.table.rules.anteAmount ≠ 0) ∧
          (s.table.antes bbSeat).foldlM (fun t a => t.postAnte a) { s.table with
            pot := s.table.pot + ((s.table.antes bbSeat).map Prod.snd).sum } = .ok s'.table) := by
  simp only [collectAnte] at h
  split at h
  · rename_i hnone
    cases h
    exact ⟨.refl _, .inl ⟨hnone, rfl⟩⟩
  rename_i hante
  simp only [Fallible.bind_eq_ok, Fallible.checkedSum_eq_ok, Fallible.checkedAdd_eq_ok] at h
  obtain ⟨_, ⟨-, rfl⟩, _, ⟨-, rfl⟩, _, -, h⟩ := h
  have hstart : s.SamePayments (s.withTable { s.table with
      pot := s.table.pot + ((s.table.antes bbSeat).map Prod.snd).sum }) := ⟨rfl, rfl, rfl⟩
  obtain ⟨hp, ht⟩ := foldlM_postAnte h
  exact ⟨hstart.trans hp, .inr ⟨not_or.mp hante, ht⟩⟩

variable [AddCommGroup G] [Protocol G] [DecidableEq G]

omit [Protocol G] in
theorem removeDeckContributor_eq_ok {t t' : TexasPokerTable G} {i : ℕ}
    (h : t.removeDeckContributor i = .ok t') :
    t' = { t with deckState := { t.deckState with
      contributorMask := seatMaskRemove t.deckState.contributorMask i } } := by
  simp only [TexasPokerTable.removeDeckContributor, Fallible.bind_eq_ok] at h
  obtain ⟨_, -, h⟩ := h
  cases h
  rfl

omit [Protocol G] in
theorem addDeckContributor_eq_ok {t t' : TexasPokerTable G} {i : ℕ}
    (h : t.addDeckContributor i = .ok t') : i < t.rules.maxPlayers ∧
      t' = { t with deckState := { t.deckState with
        contributorMask := Mask.insert t.deckState.contributorMask i } } := by
  simp only [TexasPokerTable.addDeckContributor, Fallible.bind_eq_ok, Fallible.ensure_eq_ok] at h
  obtain ⟨_, hi, _, -, h⟩ := h
  cases h
  exact ⟨hi, rfl⟩

/-- The table without the key layer of a folding seat. -/
def foldedOut (t : TexasPokerTable G) (i : ℕ) (encrypted : CipherDeck G) : TexasPokerTable G :=
  let contributorMask := seatMaskRemove t.deckState.contributorMask i
  let t := { t with deckState := { t.deckState with encrypted, contributorMask } }
  (t.setSeat i ((t.seat i).setStatus .folded)).acted i

/-- A fold out of the deck is verified against the own key, and closes the turn like any fold. -/
theorem applyFoldWithProof_eq_ok {i : ℕ} {outputCards : List (ElGamalCiphertext G)}
    {proof : Protocol.LeaveProof G} (h : s.applyFoldWithProof i outputCards proof = .ok s') :
    ∃ pk encrypted m, s.table.isBettingRound = true ∧ s.table.currentTurn = i ∧
      i < s.table.rules.maxPlayers ∧ (s.table.seat i).isOccupied = true ∧
      (s.table.seat i).isFolded = false ∧ (s.table.seat i).pk = some pk ∧
      Protocol.verifyLeave proof
        (dropSlots (ownRevealSlots s.table i) s.table.deckState.encrypted.toVec)
        (dropSlots (ownRevealSlots s.table i) outputCards) pk = true ∧
      CipherDeck.tryFrom outputCards = .ok encrypted ∧
      m.table = foldedOut s.table i encrypted ∧ s.SamePayments m ∧
      (m.table.countActivePlayers ≤ 1 ∧ m.endWithoutShowdown = .ok s' ∨
        m.advanceTurn = .ok s') := by
  simp only [applyFoldWithProof, Fallible.bind_eq_ok, Fallible.ensure_eq_ok,
    Fallible.orErr_eq_ok] at h
  obtain ⟨_, hb, _, hturn, _, hi, _, hocc, _, hf, pk, hpk, _, -, _, hverify, t, ht, encrypted,
    henc, u, hu, h⟩ := h
  obtain rfl := removeDeckContributor_eq_ok ht
  obtain ⟨-, rfl⟩ := TexasPokerTable.markActed_eq_ok hu
  let t := foldedOut s.table i encrypted
  refine ⟨pk, encrypted, (s.withTable t).emit (.playerFolded t.id i foldReasonManual t.roundState),
    hb, of_decide_eq_true hturn, hi, hocc,
    by simpa using hf, hpk, hverify, henc, rfl, ?_, ?_⟩
  · exact .of_event rfl ⟨rfl, rfl, rfl⟩
  · split at h
    · rename_i hc
      exact .inl ⟨hc, h⟩
    · exact .inr h

/-- The players of a hand about to start. -/
def seated (t : TexasPokerTable G) : TexasPokerTable G := t.moveButton.promoteWaitingForBigBlind

omit [AddCommGroup G] [Protocol G] [DecidableEq G] in
theorem getPendingSeatMask_zero {t : TexasPokerTable G} :
    t.getPendingSeatMask 0 = t.getActiveSeatMask := by
  simp only [TexasPokerTable.getPendingSeatMask, TexasPokerTable.getActiveSeatMask,
    seatMaskContains_zero, Bool.not_false, Bool.and_true]

omit [DecidableEq G] in
/-- A hand starts with at least two players, all of whom shuffle the fresh deck. -/
theorem startHand_eq_ok (h : s.startHand = .ok s') :
    s.table.roundState = roundWaiting ∧ minPlayersToStart ≤ (seated s.table).countActiveOccupied ∧
      ∃ m, m.table = { (seated s.table).setInitialEncryptedDeck with
          handPhase := .shuffling (.initial ⟨(seated s.table).getActiveSeatMask, 0⟩ 0) } ∧
        s.SamePayments m ∧ PassesShuffle m s' := by
  simp only [startHand] at h
  rw [Fallible.bind_eq_ok] at h
  obtain ⟨_, hround, h⟩ := h
  rw [Fallible.bind_eq_ok] at h
  obtain ⟨_, hcount, h⟩ := h
  rw [Fallible.bind_eq_ok] at h
  obtain ⟨t, ht, h⟩ := h
  obtain rfl := TexasPokerTable.enterInitialShuffling_eq_ok ht
  refine ⟨Fallible.ensure_eq_ok.mp hround, Fallible.ensure_eq_ok.mp hcount, _, ?_,
    .of_event rfl ⟨rfl, rfl, rfl⟩, advanceShuffle_eq_ok h⟩
  rw [getPendingSeatMask_zero]
  rfl

/-! ## Joining and leaving -/

/-- A player joins the first vacant slot as a waiting one with its buy-in and key. -/
theorem applyJoinTable_eq_ok {player : Address} {buyIn : ℕ} {pk : G} {txPk : TaggedPubkey}
    {proof : Bytes} (h : s.applyJoinTable player buyIn pk txPk proof = .ok s') :
    s.table.canJoinState = true ∧ s.table.isPkRegistered pk = false ∧ pk ≠ 0 ∧
      s.table.chipPool + buyIn ≤ maxTotalBet ∧
      ∃ (k : Fin maxSeats) (o : OccupiedSeat G), k.1 < s.table.rules.maxPlayers ∧
        s.table.findEmptySeat = some k.1 ∧
        o.player = player ∧ o.stack = buyIn ∧ o.pk = pk ∧ o.pendingAddon = 0 ∧
        s'.table = { s.table.setSeat k (.waiting o) with
          actedMask := seatMaskRemove s.table.actedMask k
          leaveAfterHandMask := seatMaskRemove s.table.leaveAfterHandMask k
          chipPool := s.table.chipPool + buyIn
          deckState := { s.table.deckState with
            contributorMask := Mask.insert s.table.deckState.contributorMask k } } ∧
        s'.refunded = s.refunded ∧ s'.deposited = s.deposited + buyIn ∧ s'.raked = s.raked := by
  simp only [applyJoinTable, Fallible.bind_eq_ok, Fallible.ensure_eq_ok, Fallible.orErr_eq_ok,
    Fallible.checkedAdd_eq_ok] at h
  obtain ⟨_, hjoin, _, hpk, _, -, _, hreg, _, ⟨-, rfl⟩, _, hle, i, hi, seat, hseat, t, ht, h⟩ := h
  obtain ⟨hlt, rfl⟩ := addDeckContributor_eq_ok ht
  simp only [Seat.newOccupied, Fallible.bind_eq_ok, Fallible.ensure_eq_ok,
    Fallible.orErr_eq_ok] at hseat
  obtain ⟨_, -, _, -, _, -, key, -, hseat⟩ := hseat
  cases hseat
  obtain ⟨k, -, rfl⟩ := Option.map_eq_some_iff.mp hi
  cases h
  refine ⟨hjoin, by simpa using hreg, hpk, hle, k, _, hlt, hi, rfl, rfl, rfl, rfl, rfl, ?_, ?_, ?_⟩
  · simp [TexasPokerEvent.refund]
  · simp [TexasPokerEvent.deposit]
  · simp [TexasPokerEvent.rake]

omit [Protocol G] in
/-- A player leaves with its stack and its addon. -/
theorem applyLeaveTable_eq_ok {i : ℕ} (h : s.applyLeaveTable i = .ok s') :
    s.table.canLeaveState = true ∧ ∃ k : Fin maxSeats, k.1 = i ∧
      (s.table.seats k).isOccupied = true ∧
      (s.table.seats k).stack + (s.table.seats k).pendingAddon ≤ s.table.chipPool ∧
      s'.table = { s.table.setSeat k .empty with
        chipPool := s.table.chipPool - ((s.table.seats k).stack + (s.table.seats k).pendingAddon)
        deckState := { s.table.deckState with
          contributorMask := seatMaskRemove s.table.deckState.contributorMask k } } ∧
      s'.refunded = s.refunded + ((s.table.seats k).stack + (s.table.seats k).pendingAddon) ∧
      s'.deposited = s.deposited ∧ s'.raked = s.raked := by
  simp only [applyLeaveTable] at h
  rw [Fallible.bind_eq_ok] at h
  obtain ⟨_, hleave, h⟩ := h
  rw [Fallible.bind_eq_ok] at h
  obtain ⟨_, hocc, h⟩ := h
  have hocc := Fallible.ensure_eq_ok.mp hocc
  obtain ⟨k, rfl, hk⟩ := isOccupied_seat hocc
  simp only [hk] at h hocc
  simp only [Fallible.bind_eq_ok, Fallible.checkedAdd_eq_ok, Fallible.checkedSub_eq_ok] at h
  obtain ⟨_, ⟨-, rfl⟩, _, ⟨hle, rfl⟩, t, ht, h⟩ := h
  obtain rfl := removeDeckContributor_eq_ok ht
  refine ⟨Fallible.ensure_eq_ok.mp hleave, k, rfl, hocc, hle, ?_⟩
  by_cases hpos : 0 < (s.table.seats k).stack + (s.table.seats k).pendingAddon
  · simp only [if_pos hpos] at h
    cases h
    refine ⟨rfl, ?_, ?_, ?_⟩
    · simp [TexasPokerEvent.refund]
    · simp [TexasPokerEvent.deposit]
    · simp [TexasPokerEvent.rake]
  · have hz : (s.table.seats k).stack + (s.table.seats k).pendingAddon = 0 := by omega
    simp only [if_neg hpos] at h
    cases h
    rw [hz]
    refine ⟨rfl, ?_, ?_, ?_⟩
    · simp [TexasPokerEvent.refund]
    · simp [TexasPokerEvent.deposit]
    · simp [TexasPokerEvent.rake]

end Exec

end TexasPoker
