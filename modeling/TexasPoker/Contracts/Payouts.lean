import TexasPoker.Contracts.Statement
import TexasPoker.Contracts.VaultRuns

/-! # What a settled hand pays

The chips, claims and escrowed tokens that each way of settling moves, in terms of the
statement behind the registered digest.
-/

namespace TexasPoker.Contracts

open Fallible

namespace Custody

variable {c c' c'' : Custody} {tx : Tx} {g g' : ContractAddress → ℤ} {player : ContractAddress}

/-- Every account gains the stated chips, and nothing else about value changes. -/
structure Gains (g : ContractAddress → ℤ) (c c' : Custody) : Prop where
  chips : ∀ a, (c'.vault.chipBalances a : ℤ) = c.vault.chipBalances a + g a
  token : c'.token = c.token
  address : c'.address = c.address
  secrets : c'.vault.payoutCommitments = c.vault.payoutCommitments

theorem Gains.refl (c : Custody) : Gains 0 c c where
  chips _ := (add_zero _).symm
  token := rfl
  address := rfl
  secrets := rfl

theorem Gains.trans (h : Gains g c c') (h' : Gains g' c' c'') : Gains (g + g') c c'' where
  chips a := by rw [h'.chips, h.chips, Pi.add_apply, add_assoc]
  token := h'.token.trans h.token
  address := h'.address.trans h.address
  secrets := h'.secrets.trans h.secrets

theorem payoutCommitments_of_applySettlement {delta : ℤ}
    (h : c.applySettlement tx player delta = .ok c') :
    c'.vault.payoutCommitments = c.vault.payoutCommitments := by
  simp only [applySettlement, bind_eq_ok] at h
  obtain ⟨-, -, h⟩ := h
  split at h
  · simp only [credit, bind_eq_ok, pure_eq_ok] at h
    obtain ⟨-, -, _, ⟨_, -, _, -, rfl⟩, rfl⟩ := h
    rfl
  · split at h
    · simp only [debit, bind_eq_ok, pure_eq_ok] at h
      obtain ⟨-, -, -, -, _, ⟨_, -, _, -, rfl⟩, rfl⟩ := h
      rfl
    · obtain rfl := pure_eq_ok.mp h
      rfl

theorem gains_of_applySettlement {delta : ℤ} (h : c.applySettlement tx player delta = .ok c') :
    Gains (fun a => if player = a then delta else 0) c c' := by
  obtain ⟨hcases, htoken, haddress⟩ := applySettlement_eq_ok h
  refine ⟨fun a => ?_, htoken, haddress, payoutCommitments_of_applySettlement h⟩
  rcases hcases with ⟨hpos, hcr, -⟩ | ⟨hneg, hdeb, -⟩ | ⟨rfl, rfl⟩
  · rw [hcr.balances]
    by_cases ha : player = a
    · subst ha
      rw [Function.update_self, if_pos rfl]
      omega
    · rw [Function.update_of_ne (Ne.symm ha), if_neg ha, add_zero]
  · have henough := hdeb.enough
    rw [hdeb.balances]
    by_cases ha : player = a
    · subst ha
      rw [Function.update_self, if_pos rfl]
      omega
    · rw [Function.update_of_ne (Ne.symm ha), if_neg ha, add_zero]
  · rw [ite_self, add_zero]

end Custody

/-- What an account gains from plain results under `f`. -/
def share (f : ℤ → ℤ) (l : List (ContractAddress × ℤ)) (a : ContractAddress) : ℤ :=
  (l.map fun e => if e.1 = a then f e.2 else 0).sum

theorem share_cons {f : ℤ → ℤ} {e : ContractAddress × ℤ} {l : List (ContractAddress × ℤ)} :
    share f (e :: l) = (fun a => if e.1 = a then f e.2 else 0) + share f l := by
  ext a
  rw [share, List.map_cons, List.sum_cons]
  rfl

/-- The statement of plain results gives every account the same. -/
theorem gain_ofPlaintext {handId : ℕ} {players : List ContractAddress} {deltas : List ℤ}
    {log : Felt} {f : ℤ → ℤ} {a : ContractAddress}
    (h : ∀ e ∈ players.zip deltas, e.2.natAbs < u64Bound) :
    (Statement.ofPlaintext handId players deltas log).gain f a = share f (players.zip deltas) a := by
  rw [Statement.gain, Statement.ofPlaintext, share, List.map_map]
  congr 1
  apply List.map_congr_left
  intro e he
  have hd : (Entry.ofDelta e).delta = e.2 := delta_ofDelta (h e he)
  have ha : (Entry.ofDelta e).player = addressFelt a ↔ e.1 = a := addressFelt_injective.eq_iff
  simp only [Function.comp_apply, hd, ha]

theorem winnings_ofPlaintext {handId : ℕ} {players : List ContractAddress} {deltas : List ℤ}
    {log : Felt} (h : ∀ e ∈ players.zip deltas, e.2.natAbs < u64Bound) :
    (Statement.ofPlaintext handId players deltas log).winnings =
      ((players.zip deltas).map fun e => e.2.toNat).sum := by
  rw [Statement.winnings, Statement.ofPlaintext, List.map_map]
  congr 1
  apply List.map_congr_left
  intro e he
  rw [Function.comp_apply, delta_ofDelta (h e he)]

namespace Chain

variable {P : Primitives} {tx : Tx} {c c' : Chain} {handBinding : Felt} {st : Statement}

theorem callVault_eq_ok {call : Tx → Custody → Revert Custody}
    (h : c.callVault tx call = .ok c') :
    c'.settlement = c.settlement ∧ c'.settlementAddress = c.settlementAddress ∧
      call { tx with caller := c.settlementAddress } c.custody = .ok c'.custody := by
  simp only [callVault, bind_eq_ok, pure_eq_ok] at h
  obtain ⟨custody, hcall, rfl⟩ := h
  exact ⟨rfl, rfl, hcall⟩

/-- The public results move their chips and leave the settlement contract alone. -/
theorem gains_of_applyDeltas {players : List ContractAddress} {deltas : List ℤ}
    (h : c.applyDeltasThroughVault tx players deltas = .ok c') :
    c.custody.Gains (share id (players.zip deltas)) c'.custody ∧ c'.settlement = c.settlement := by
  unfold applyDeltasThroughVault at h
  generalize players.zip deltas = l at h ⊢
  induction l generalizing c with
  | nil =>
    obtain rfl : c = c' := by simpa using h
    exact ⟨.refl _, rfl⟩
  | cons e l ih =>
    rw [List.foldlM_cons, bind_eq_ok] at h
    obtain ⟨c₁, hcall, h⟩ := h
    obtain ⟨hsettlement, -, happly⟩ := callVault_eq_ok hcall
    obtain ⟨hgains, hkeep⟩ := ih h
    rw [share_cons]
    exact ⟨(Custody.gains_of_applySettlement happly).trans hgains, hkeep.trans hsettlement⟩

/-! ## Claims of a private settlement -/

/-- A map after the winners among the results from a seat on were given an entry. -/
def claimed {α : Type} (handBinding : Felt) (value : ContractAddress × ℤ → α)
    (l : List (ContractAddress × ℤ)) (seat : ℕ) (old : Felt × ℕ → α) (key : Felt × ℕ) : α :=
  if key.1 = handBinding ∧ seat ≤ key.2 then
    match l[key.2 - seat]? with
    | some e => if 0 < e.2 then value e else old key
    | none => old key
  else old key

theorem claimed_nil {α : Type} {value : ContractAddress × ℤ → α} {seat : ℕ}
    {old : Felt × ℕ → α} : claimed handBinding value [] seat old = old := by
  ext key
  simp [claimed]

theorem claimed_cons {α : Type} {value : ContractAddress × ℤ → α} {e : ContractAddress × ℤ}
    {l : List (ContractAddress × ℤ)} {seat : ℕ} {old : Felt × ℕ → α} :
    claimed handBinding value (e :: l) seat old = claimed handBinding value l (seat + 1)
      (if 0 < e.2 then Function.update old (handBinding, seat) (value e) else old) := by
  ext ⟨hb, i⟩
  have hold (hne : (hb, i) ≠ (handBinding, seat)) :
      (if 0 < e.2 then Function.update old (handBinding, seat) (value e) else old) (hb, i) =
        old (hb, i) := by
    split
    · exact Function.update_of_ne hne _ _
    · rfl
  unfold claimed
  by_cases hb' : hb = handBinding
  · subst hb'
    rcases lt_trichotomy i seat with hlt | rfl | hlt
    · rw [if_neg (by omega), if_neg (by omega), hold (by simp; omega)]
    · rw [if_pos ⟨rfl, le_rfl⟩, if_neg (by omega), Nat.sub_self]
      simp only [List.getElem?_cons_zero]
      split
      · rw [Function.update_self]
      · rfl
    · rw [if_pos ⟨rfl, hlt.le⟩, if_pos ⟨rfl, hlt⟩, hold (by simp; omega)]
      obtain ⟨k, rfl⟩ := Nat.exists_eq_add_of_lt hlt
      rw [show seat + k + 1 - seat = k + 1 by omega, show seat + k + 1 - (seat + 1) = k by omega,
        List.getElem?_cons_succ]
  · rw [if_neg fun h => hb' h.1, if_neg fun h => hb' h.1, hold fun h => hb' (congrArg Prod.fst h)]

/-- What the results of a list do to the claims and the chips, one after the other. -/
structure Distributes (P : Primitives) (handBinding : Felt) (l : List (ContractAddress × ℤ))
    (seat : ℕ) (s s' : Chain × ℕ) : Prop where
  gains : s.1.custody.Gains (share (min · 0) l) s'.1.custody
  settlement : s'.1.settlement = { s.1.settlement with
    claimCms := claimed handBinding (fun e =>
      claimMessage P (s.1.custody.vault.payoutCommitments e.1) handBinding e.2.natAbs) l seat
        s.1.settlement.claimCms
    claimAmounts := claimed handBinding (fun e => e.2.natAbs) l seat s.1.settlement.claimAmounts
    claimsConsumed := claimed handBinding (fun _ => false) l seat s.1.settlement.claimsConsumed }
  winnings : s'.2 = s.2 + (l.map fun e => e.2.toNat).sum

theorem distributes_cons {e : ContractAddress × ℤ} {l : List (ContractAddress × ℤ)} {seat : ℕ}
    {s s₁ s' : Chain × ℕ} (h₁ : settlePrivately P tx handBinding s (e, seat) = .ok s₁)
    (h : Distributes P handBinding l (seat + 1) s₁ s') :
    Distributes P handBinding (e :: l) seat s s' := by
  simp only [settlePrivately] at h₁
  split at h₁
  · rename_i hpos
    simp only [bind_eq_ok, pure_eq_ok, u256Add_eq_ok] at h₁
    obtain ⟨-, -, -, -, _, ⟨-, rfl⟩, rfl⟩ := h₁
    refine ⟨?_, ?_, ?_⟩
    · have hz : (fun a => if e.1 = a then min e.2 0 else 0) = 0 := by
        ext a
        rw [min_eq_right hpos.le, ite_self]
        rfl
      rw [share_cons, hz, zero_add]
      exact h.gains
    · simp only [claimed_cons, if_pos hpos]
      exact h.settlement
    · rw [h.winnings, List.map_cons, List.sum_cons]
      omega
  · split at h₁
    · rename_i hpos hneg
      simp only [bind_eq_ok, pure_eq_ok] at h₁
      obtain ⟨c₁, hcall, rfl⟩ := h₁
      obtain ⟨hsettlement, -, happly⟩ := callVault_eq_ok hcall
      have hgains := Custody.gains_of_applySettlement happly
      refine ⟨?_, ?_, ?_⟩
      · rw [share_cons, min_eq_left hneg.le]
        exact hgains.trans h.gains
      · simp only [claimed_cons, if_neg hpos, ← hsettlement, ← hgains.secrets]
        exact h.settlement
      · rw [h.winnings, List.map_cons, List.sum_cons]
        omega
    · rename_i hpos hneg
      obtain rfl : s = s₁ := by simpa using h₁
      obtain ⟨player, delta⟩ := e
      obtain rfl : delta = 0 := by omega
      refine ⟨?_, ?_, ?_⟩
      · have hz : (fun a => if player = a then min (0 : ℤ) 0 else 0) = 0 := by
          ext a
          rw [min_self, ite_self]
          rfl
        rw [share_cons, hz, zero_add]
        exact h.gains
      · simp only [claimed_cons, if_neg hpos]
        exact h.settlement
      · rw [h.winnings, List.map_cons, List.sum_cons]
        omega

theorem distributes_of_settlePrivately {l : List (ContractAddress × ℤ)} {seat : ℕ}
    {s s' : Chain × ℕ}
    (h : (l.zipIdx seat).foldlM (settlePrivately P tx handBinding) s = .ok s') :
    Distributes P handBinding l seat s s' := by
  induction l generalizing seat s with
  | nil =>
    obtain rfl : s = s' := by simpa using h
    exact ⟨.refl _, by simp only [claimed_nil], rfl⟩
  | cons e l ih =>
    rw [List.zipIdx_cons, List.foldlM_cons, bind_eq_ok] at h
    obtain ⟨s₁, h₁, h⟩ := h
    exact distributes_cons h₁ (ih h)

/-! ## Every way of settling -/

/-- The vault sends the winners' tokens to the helper. -/
def Escrows (helper : ContractAddress) (amount : ℕ) (c c' : Custody) : Prop :=
  c.token.transfer c.address helper amount = .ok c'.token

theorem escrows_of_settlementFundEscrow {helper : ContractAddress} {amount : ℕ}
    (h : c.callVault tx (fun tx v => v.settlementFundEscrow tx helper handBinding amount) =
      .ok c') :
    Escrows helper amount c.custody c'.custody ∧ c'.custody.vault = c.custody.vault ∧
      c'.settlement = c.settlement := by
  obtain ⟨hsettlement, -, hfund⟩ := callVault_eq_ok h
  simp only [Custody.settlementFundEscrow, Custody.send, bind_eq_ok, pure_eq_ok] at hfund
  obtain ⟨_, -, _, -, _, -, _, ⟨token, htransfer, rfl⟩, hc⟩ := hfund
  rw [← hc]
  exact ⟨htransfer, rfl, hsettlement⟩

/-- A settled hand moves what its statement says: the chips of all players, or the losers' chips
and claims with their amounts for the winners, or claims that hide their amounts. -/
inductive PaysOut (P : Primitives) (handBinding : Felt) (st : Statement) (c c' : Chain) : Prop where
  | publicly
      (chips : ∀ a, (c'.custody.vault.chipBalances a : ℤ) =
        c.custody.vault.chipBalances a + st.gain id a)
      (token : c'.custody.token = c.custody.token)
      (claims : c'.settlement.claimCms = c.settlement.claimCms)
      (amounts : c'.settlement.claimAmounts = c.settlement.claimAmounts)
  | toClaims
      (chips : ∀ a, (c'.custody.vault.chipBalances a : ℤ) =
        c.custody.vault.chipBalances a + st.gain (min · 0) a)
      (escrow : Escrows c.settlement.claimHelper st.winnings c.custody c'.custody)
      (claims : ∀ i e, st.entries[i]? = some e → 0 < e.delta → ∃ a, addressFelt a = e.player ∧
        c'.settlement.claimCms (handBinding, i) =
          claimMessage P (c.custody.vault.payoutCommitments a) handBinding e.delta.toNat)
      (amounts : ∀ i e, st.entries[i]? = some e → 0 < e.delta →
        c'.settlement.claimAmounts (handBinding, i) = e.delta.toNat)
  | hidden
      (chips : c'.custody.vault.chipBalances = c.custody.vault.chipBalances)
      (escrow : Escrows c.settlement.claimHelper st.winnings c.custody c'.custody)
      (claims : ∀ i e, st.entries[i]? = some e → ∃ commitment,
        c'.settlement.claimCms (handBinding, i) =
          if 0 < e.delta then claimMessage P commitment handBinding e.delta.toNat else 0)
      (amounts : c'.settlement.claimAmounts = c.settlement.claimAmounts)

section Plaintext

variable {handIdBytes : List (BitVec 8)} {handId : ℕ} {log : Felt}
  {players : List ContractAddress} {deltas : List ℤ} {pBatch : List Felt}

/-- The prelude ties the arguments to the registered digest. -/
theorem registered_of_dapvPrelude {digest : Felt}
    (h : c.dapvPrelude P handBinding handIdBytes handId log players deltas = .ok digest) :
    c.settlement.settledBindings handBinding = false ∧
      (c.settlement.bindings handBinding).2.2 = 1 ∧ players.length = deltas.length ∧
      (∀ e ∈ players.zip deltas, e.2.natAbs < u64Bound) ∧
      (Statement.ofPlaintext handId players deltas log).digest P =
        (c.settlement.bindings handBinding).1 := by
  simp only [dapvPrelude, assertSettleCommon, readRegisteredDigest, bind_eq_ok, ensure_eq_ok,
    pure_eq_ok] at h
  obtain ⟨_, ⟨-, -, -, hlen, -, -, -, -, hopen⟩, -, -, _, ⟨-, hflag, rfl⟩, computed, hcomputed, -,
    heq, -⟩ := h
  obtain ⟨hall, hdigest⟩ := computeSettlementDigest_eq_ok hcomputed
  exact ⟨hopen, hflag, hlen, hall, hdigest.trans heq⟩

theorem paysOut_of_stark
    (h : c.verifyAndSettleDapvStark P tx handBinding handIdBytes handId log players deltas pBatch =
      .ok c') :
    PaysOut P handBinding (.ofPlaintext handId players deltas log) c c' := by
  simp only [verifyAndSettleDapvStark, bind_eq_ok, pure_eq_ok] at h
  obtain ⟨_, hp, -, -, -, -, -, -, -, -, -, -, -, -, -, -, -, -, c₁, hd, rfl⟩ := h
  obtain ⟨-, -, -, hall, -⟩ := registered_of_dapvPrelude hp
  obtain ⟨hgains, hkeep⟩ := gains_of_applyDeltas hd
  refine .publicly (fun a => ?_) hgains.token ?_ ?_
  · rw [gain_ofPlaintext hall]
    exact hgains.chips a
  · change c₁.settlement.claimCms = _
    rw [hkeep]
  · change c₁.settlement.claimAmounts = _
    rw [hkeep]

theorem claimed_of_getElem {α : Type} {value : ContractAddress × ℤ → α}
    {l : List (ContractAddress × ℤ)} {old : Felt × ℕ → α} {i : ℕ} {e : ContractAddress × ℤ}
    (he : l[i]? = some e) (hpos : 0 < e.2) :
    claimed handBinding value l 0 old (handBinding, i) = value e := by
  rw [claimed, if_pos ⟨rfl, Nat.zero_le i⟩, Nat.sub_zero, he]
  exact if_pos hpos

theorem paysOut_of_private
    (h : c.verifyAndSettleDapvStarkPrivate P tx handBinding handIdBytes handId log players deltas
      pBatch = .ok c') :
    PaysOut P handBinding (.ofPlaintext handId players deltas log) c c' := by
  simp only [verifyAndSettleDapvStarkPrivate, bind_eq_ok, pure_eq_ok] at h
  obtain ⟨_, hp, -, -, -, -, -, -, -, -, -, -, -, -, s, hs, -, -, c₁, hf, rfl⟩ := h
  obtain ⟨-, -, -, hall, -⟩ := registered_of_dapvPrelude hp
  have hd := distributes_of_settlePrivately hs
  obtain ⟨hescrow, hvault, hkeep⟩ := escrows_of_settlementFundEscrow hf
  have hentry {i : ℕ} {e : Entry} (he : (Statement.ofPlaintext handId players deltas log).entries[i]? =
      some e) : ∃ r, (players.zip deltas)[i]? = some r ∧ addressFelt r.1 = e.player ∧
        e.delta = r.2 := by
    simp only [Statement.ofPlaintext, List.getElem?_map, Option.map_eq_some_iff] at he
    obtain ⟨r, hr, rfl⟩ := he
    exact ⟨r, hr, rfl, delta_ofDelta (hall r (List.mem_of_getElem? hr))⟩
  refine .toClaims (fun a => ?_) ?_ ?_ ?_
  · rw [gain_ofPlaintext hall]
    change (c₁.custody.vault.chipBalances a : ℤ) = _
    rw [hvault]
    exact hd.gains.chips a
  · have hwin : (Statement.ofPlaintext handId players deltas log).winnings = s.2 := by
      rw [winnings_ofPlaintext hall, hd.winnings, zero_add]
    rw [hwin]
    unfold Escrows at hescrow ⊢
    rw [hd.gains.token, hd.gains.address] at hescrow
    exact hescrow
  · intro i e he hpos
    obtain ⟨r, hr, haddress, hdelta⟩ := hentry he
    rw [hdelta] at hpos ⊢
    refine ⟨r.1, haddress, ?_⟩
    change c₁.settlement.claimCms _ = _
    rw [hkeep, hd.settlement]
    rw [show r.2.toNat = r.2.natAbs by omega]
    exact claimed_of_getElem hr hpos
  · intro i e he hpos
    obtain ⟨r, hr, -, hdelta⟩ := hentry he
    rw [hdelta] at hpos ⊢
    change c₁.settlement.claimAmounts _ = _
    rw [hkeep, hd.settlement, show r.2.toNat = r.2.natAbs by omega]
    exact claimed_of_getElem hr hpos

end Plaintext

/-! ## From a segment -/

variable {inputs : SettlementInputs} {segment : List Felt} {handId : ℕ}

theorem registered_of_validate {digest : Felt}
    (h : c.validateSettlementSegment handBinding handId segment = .ok digest) :
    (c.settlement.bindings handBinding).2.2 = 1 ∧ slot segment 4 = handBinding ∧
      slot segment 2 = (c.settlement.bindings handBinding).1 := by
  simp only [validateSettlementSegment, readRegisteredDigest, bind_eq_ok, ensure_eq_ok,
    pure_eq_ok] at h
  obtain ⟨-, -, -, -, -, -, -, -, -, hbinding, -, -, -, -, _, ⟨-, hflag, rfl⟩, -, hdigest, -⟩ := h
  exact ⟨hflag, hbinding, hdigest⟩

theorem paysOut_of_segment (hp : Proves P inputs segment) (hb : slot segment 4 = handBinding)
    (h : c.payOutSegment tx handBinding segment = .ok c') :
    PaysOut P handBinding inputs.statement c c' := by
  simp only [payOutSegment, bind_eq_ok, pure_eq_ok] at h
  obtain ⟨-, -, -, -, -, -, c₁, hf, rfl⟩ := h
  obtain ⟨hescrow, hvault, hkeep⟩ := escrows_of_settlementFundEscrow hf
  refine .hidden ?_ ?_ ?_ ?_
  · exact congrArg _ hvault
  · rw [← hp.slot_total]
    exact hescrow
  · intro i e he
    have hi : i < 8 := by
      have hlt := (List.getElem?_eq_some_iff.mp he).1
      rwa [SettlementInputs.statement, inputs.length_entries] at hlt
    have hlen : i < inputs.commitments.length := by
      rw [inputs.length_commitments]
      exact hi
    refine ⟨inputs.commitments[i], ?_⟩
    have hclaim := hp.slot_claim he (List.getElem?_eq_getElem hlen)
    have hbinding : inputs.handBinding = handBinding := by
      rw [← hb, hp.segment]
      rfl
    rw [hbinding] at hclaim
    rw [← hclaim]
    exact if_pos ⟨rfl, hi⟩
  · change c₁.settlement.claimAmounts = _
    rw [hkeep]

end Chain

end TexasPoker.Contracts
