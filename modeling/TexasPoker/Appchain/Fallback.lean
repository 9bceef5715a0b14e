import Mathlib.Logic.Function.Basic
import TexasPoker.Appchain.OneExit

/-! # The fallback to Starknet

A hand goes to the appchain first, and to Starknet when the appchain exit fails. A hand leaves
through one exit exactly when the proof follows every accepted settlement, and no hand is tried
on the appchain again after Starknet has it.
-/

namespace TexasPoker.Appchain

open Effect Hooks

variable {G σ : Type}

/-- What the server was started with. -/
structure ExitConfig (σ : Type) where
  settlementExitAppchain : Bool
  runtime : Option (AppchainRuntime σ)

/-- The attempts and successes of the server, and for the record the hands that it handed to the
Starknet path. -/
structure Exits (σ : Type) where
  world : World σ
  settleOk : Hand → Bool
  settleAttempts : Hand → ℕ
  fallbacks : Hand → Bool

/-- What happens next. The appchain also changes by itself. -/
inductive ExitEvent (G σ : Type) where
  | settleFromLiveMirror (hand : Hand) (reconciled : Bool) (request : SettleRequest G)
  | settledOnStarknet (hand : Hand)
  | appchain (chain : σ)

namespace Exits

variable (cfg : ExitConfig σ) (x : Exits σ)

/-- A server that has settled nothing. -/
def IsFresh : Prop :=
  x.world.accepted = [] ∧ (∀ hand, x.settleOk hand = false) ∧ ∀ hand, x.fallbacks hand = false

def fallBack (hand : Hand) : Exits σ :=
  { x with fallbacks := Function.update x.fallbacks hand true }

def settleOkOnce (hand : Hand) : Exits σ :=
  { x with settleOk := Function.update x.settleOk hand true }

def settleAttemptsBumped (hand : Hand) : Exits σ :=
  { x with settleAttempts := Function.update x.settleAttempts hand (x.settleAttempts hand + 1) }

/-- The appchain exit ended with a receipt, an error or a panic. -/
def exitEnded (hand : Hand) :
    Except Failure AppchainRuntime.AppchainSettleReceipt × World σ → Exits σ
  | (.ok _, world) => { x with world }.settleOkOnce hand
  | (.error _, world) => { x with world }.fallBack hand

/-- Settle a hand once its mirror agrees with the game. -/
def settleFromLiveMirror (hand : Hand) (reconciled : Bool) (request : SettleRequest G) :
    Exits σ :=
  if x.settleOk hand then x
  else
    let x := x.settleAttemptsBumped hand
    if 5 < x.settleAttempts hand then x
    else if !reconciled then x
    else if !(cfg.settlementExitAppchain && cfg.runtime.isSome) then x.fallBack hand
    else x.exitEnded hand ((settleFromMirror cfg.runtime hand request).exec x.world)

def step : ExitEvent G σ → Exits σ
  | .settleFromLiveMirror hand reconciled request =>
    x.settleFromLiveMirror cfg hand reconciled request
  | .settledOnStarknet hand => x.settleOkOnce hand
  | .appchain chain => { x with world := { x.world with chain } }

/-- Starknet settles only the hands it was handed. -/
def Enabled : ExitEvent G σ → Prop
  | .settledOnStarknet hand => x.fallbacks hand = true
  | _ => True

/-- The runs of a server. -/
def system : TransitionSystem (Exits σ) (ExitEvent G σ) where
  init := IsFresh
  next x e x' := x.Enabled e ∧ x' = x.step cfg e

/-! ## One exit -/

/-- No hand that was handed to Starknet is settled on the appchain. -/
def OneExit : Prop := ∀ hand, x.fallbacks hand = true → ¬ x.world.Settled hand

/-- The proof follows a settlement of the hand, which Starknet does not have. -/
def Follows (hand : Hand) (request : SettleRequest G) : Prop :=
  ∀ rt record frame s, Commits cfg.runtime hand request x.world rt record frame s →
    x.fallbacks hand = false ∧ rt.chain.TakesProof (rt.proofJob hand record frame) s

/-- An attempt on the appchain is followed through. -/
def FollowsThrough : ExitEvent G σ → Prop
  | .settleFromLiveMirror hand reconciled request =>
    x.settleOk hand = false → x.settleAttempts hand < 5 → reconciled = true →
      cfg.settlementExitAppchain = true → x.Follows cfg hand request
  | _ => True

/-- The hands of the appchain are known to be settled. -/
structure Sound : Prop where
  oneExit : x.OneExit
  known : ∀ hand, x.world.Settled hand → x.settleOk hand = true

variable {cfg x} {hand h : Hand} {request : SettleRequest G} {reconciled : Bool} {w : World σ}

/-- An attempt for one hand leaves the other hands alone. -/
theorem settled_of_ne {runtime : Option (AppchainRuntime σ)} {w' : World σ}
    {r : Except Failure AppchainRuntime.AppchainSettleReceipt} (hne : h ≠ hand)
    (hexec : (settleFromMirror runtime hand request).exec w = (r, w')) :
    w'.Settled h ↔ w.Settled h := by
  constructor
  · intro hs
    by_contra hw
    refine (settleFromMirror_keeps stable_unsettled fun record w hw hs => ?_).of_exec hw hexec hs
    rcases settled_cons.mp hs with ⟨heq, -⟩ | hs
    · exact hne heq
    · exact hw hs
  · intro hw
    exact (settleFromMirror_keeps stable_settled fun _ _ hs =>
      settled_cons.mpr (.inr hs)).of_exec hw hexec

theorem Sound.not_settled (hs : x.Sound) (hok : x.settleOk hand = false) :
    ¬ x.world.Settled hand := fun hw => by
  rw [hs.known hand hw] at hok
  cases hok

/-- The answer that the settlement driver gets from an attempt. -/
def answer (hand : Hand) :
    Except Failure AppchainRuntime.AppchainSettleReceipt × World σ → Answer
  | (.ok _, _) => .accepted
  | (.error _, w) => if w.Settled hand then .lost else .refused

/-- An answer is lost exactly when the proof of an accepted settlement is not taken. -/
theorem answer_ne_lost_iff {runtime : Option (AppchainRuntime σ)} (hw : ¬ w.Settled hand) :
    answer hand ((settleFromMirror runtime hand request).exec w) ≠ .lost ↔
      ∀ rt record frame s, Commits runtime hand request w rt record frame s →
        rt.chain.TakesProof (rt.proofJob hand record frame) s := by
  rw [← settleFromMirror_cleanAt_iff hw]
  unfold CleanAt
  rcases (settleFromMirror runtime hand request).exec w with ⟨e | receipt, w'⟩
  · simp [answer]
  · simp [answer]

/-- An attempt that fails is decided by what it leaves of its hand. -/
theorem oneExit_fallBack (hs : x.Sound) (hok : x.settleOk hand = false) {e : Failure}
    {w' : World σ} (hexec : (settleFromMirror cfg.runtime hand request).exec x.world =
      (.error e, w')) : (Exits.fallBack { x with world := w' } hand).OneExit ↔
      x.Follows cfg hand request := by
  have hclean : (settleFromMirror cfg.runtime hand request).CleanAt _ x.world ↔ _ :=
    settleFromMirror_cleanAt_iff (hs.not_settled hok)
  constructor
  · intro hone rt record frame s hcommits
    have hleft : ¬ w'.Settled hand := hone hand (Function.update_self ..)
    have hproof := hclean.mp (fun e' w₁ herr => by
      rw [hexec] at herr
      cases herr
      exact hleft) rt record frame s hcommits
    obtain ⟨receipt, hreceipt⟩ :=
      settleFromMirror_succeeds_iff.mpr ⟨rt, record, frame, s, hcommits, hproof⟩
    rw [hexec] at hreceipt
    cases hreceipt
  · intro hfollows h hfall
    by_cases hne : h = hand
    · subst hne
      exact hclean.mpr (fun rt record frame s hc => (hfollows rt record frame s hc).2) e w' hexec
    · rw [show (Exits.fallBack { x with world := w' } hand).fallbacks h = x.fallbacks h from
        Function.update_of_ne hne ..] at hfall
      exact fun hw => hs.oneExit h hfall ((settled_of_ne hne hexec).mp hw)

/-- An attempt that succeeds is fine unless Starknet has the hand. -/
theorem oneExit_settleOkOnce (hs : x.Sound) (hok : x.settleOk hand = false)
    {receipt : AppchainRuntime.AppchainSettleReceipt} {w' : World σ}
    (hexec : (settleFromMirror cfg.runtime hand request).exec x.world = (.ok receipt, w')) :
    (Exits.settleOkOnce { x with world := w' } hand).OneExit ↔ x.Follows cfg hand request := by
  have hclean : (settleFromMirror cfg.runtime hand request).CleanAt _ x.world ↔ _ :=
    settleFromMirror_cleanAt_iff (hs.not_settled hok)
  constructor
  · intro hone rt record frame s hcommits
    refine ⟨?_, hclean.mp (fun e' w₁ herr => ?_) rt record frame s hcommits⟩
    · by_contra hfall
      exact hone hand (eq_true_of_ne_false hfall) (settled_of_settleFromMirror hexec)
    · rw [hexec] at herr
      cases herr
  · intro hfollows h hfall
    by_cases hne : h = hand
    · subst hne
      obtain ⟨rt, record, frame, s, hcommits, -⟩ :=
        settleFromMirror_succeeds_iff.mp ⟨receipt, by rw [hexec]⟩
      have hnot := (hfollows rt record frame s hcommits).1
      rw [show x.fallbacks h = true from hfall] at hnot
      cases hnot
    · exact fun hw => hs.oneExit h hfall ((settled_of_ne hne hexec).mp hw)

/-- The end of an attempt is decided by whether it was followed through. -/
theorem oneExit_exitEnded (hs : x.Sound) (hok : x.settleOk hand = false) :
    (x.exitEnded hand ((settleFromMirror cfg.runtime hand request).exec x.world)).OneExit ↔
      x.Follows cfg hand request := by
  rcases hexec : (settleFromMirror cfg.runtime hand request).exec x.world with ⟨e | receipt, w'⟩
  · exact oneExit_fallBack hs hok hexec
  · exact oneExit_settleOkOnce hs hok hexec

theorem Sound.bumped (hs : x.Sound) : (x.settleAttemptsBumped hand).Sound := ⟨hs.oneExit, hs.known⟩

/-- A hand that is not settled may go to Starknet. -/
theorem Sound.fallBack (hs : x.Sound) (hw : ¬ x.world.Settled hand) : (x.fallBack hand).Sound where
  oneExit h hfall := by
    by_cases hne : h = hand
    · exact hne ▸ hw
    · rw [show (x.fallBack hand).fallbacks h = x.fallbacks h from
        Function.update_of_ne hne ..] at hfall
      exact hs.oneExit h hfall
  known := hs.known

/-- What comes before an attempt on the appchain changes no exit, or goes to Starknet. -/
theorem settleFromLiveMirror_cases (hs : x.Sound) :
    (x.settleFromLiveMirror cfg hand reconciled request).Sound ∧
        x.FollowsThrough cfg (.settleFromLiveMirror hand reconciled request) ∨
      x.settleOk hand = false ∧
      (x.FollowsThrough cfg (.settleFromLiveMirror hand reconciled request) ↔
        (x.settleAttemptsBumped hand).Follows cfg hand request) ∧
      x.settleFromLiveMirror cfg hand reconciled request =
        (x.settleAttemptsBumped hand).exitEnded hand
          ((settleFromMirror cfg.runtime hand request).exec x.world) := by
  unfold settleFromLiveMirror
  split
  · rename_i hok
    exact .inl ⟨hs, fun hno => absurd hok (by rw [hno]; decide)⟩
  rename_i hok
  have hok := eq_false_of_ne_true hok
  dsimp only
  split
  · rename_i hmax
    refine .inl ⟨hs.bumped, fun _ hlt => absurd hmax ?_⟩
    rw [show (x.settleAttemptsBumped hand).settleAttempts hand = x.settleAttempts hand + 1 from
      Function.update_self ..]
    omega
  rename_i hmax
  split
  · rename_i hrec
    exact .inl ⟨hs.bumped, fun _ _ h => absurd h (by simpa using hrec)⟩
  split
  · rename_i hrec hcfg
    refine .inl ⟨hs.bumped.fallBack (hs.not_settled hok), fun _ _ _ hexit rt _ _ _ hc => ?_⟩
    rw [hexit, hc.1] at hcfg
    simp at hcfg
  · rename_i hrec hcfg
    refine .inr ⟨hok, ⟨fun h => h hok ?_ (by simpa using hrec) ?_, fun h _ _ _ _ => h⟩, rfl⟩
    · rw [show (x.settleAttemptsBumped hand).settleAttempts hand = x.settleAttempts hand + 1 from
        Function.update_self ..] at hmax
      omega
    · simp only [Bool.not_eq_true', Bool.not_eq_false, Bool.and_eq_true] at hcfg
      exact hcfg.1

/-- A step keeps the exits apart exactly when it is followed through. -/
theorem oneExit_step_iff (hs : x.Sound) {e : ExitEvent G σ} :
    (x.step cfg e).OneExit ↔ x.FollowsThrough cfg e := by
  cases e with
  | settledOnStarknet hand => exact iff_of_true hs.oneExit trivial
  | appchain chain => exact iff_of_true hs.oneExit trivial
  | settleFromLiveMirror hand reconciled request =>
    rcases settleFromLiveMirror_cases hs with ⟨hsound, hfollows⟩ | ⟨hok, hfollows, heq⟩
    · exact iff_of_true hsound.oneExit hfollows
    · change (x.settleFromLiveMirror cfg hand reconciled request).OneExit ↔ _
      rw [heq, hfollows]
      exact oneExit_exitEnded hs.bumped hok

/-- What an attempt settles on the appchain is known to be settled. -/
theorem Sound.exitEnded (hs : x.Sound) (hok : x.settleOk hand = false)
    (hfollows : x.Follows cfg hand request) :
    (x.exitEnded hand ((settleFromMirror cfg.runtime hand request).exec x.world)).Sound := by
  have hone := (oneExit_exitEnded hs hok).mpr hfollows
  refine ⟨hone, fun h hw => ?_⟩
  rcases hexec : (settleFromMirror cfg.runtime hand request).exec x.world with ⟨e | receipt, w'⟩ <;>
    rw [hexec] at hone hw
  · have hne : h ≠ hand := fun heq => hone h (heq ▸ Function.update_self ..) hw
    exact hs.known h ((settled_of_ne hne hexec).mp hw)
  · by_cases hne : h = hand
    · exact hne ▸ Function.update_self ..
    · exact (Function.update_of_ne hne ..).trans
        (hs.known h ((settled_of_ne hne hexec).mp hw))

theorem Sound.step (hs : x.Sound) {e : ExitEvent G σ} (hfollows : x.FollowsThrough cfg e) :
    (x.step cfg e).Sound := by
  cases e with
  | settledOnStarknet hand =>
    refine ⟨hs.oneExit, fun h hw => ?_⟩
    by_cases hne : h = hand
    · exact hne ▸ Function.update_self ..
    · exact (Function.update_of_ne hne ..).trans (hs.known h hw)
  | appchain chain => exact ⟨hs.oneExit, hs.known⟩
  | settleFromLiveMirror hand reconciled request =>
    rcases settleFromLiveMirror_cases hs with ⟨hsound, -⟩ | ⟨hok, hiff, heq⟩
    · exact hsound
    · change (x.settleFromLiveMirror cfg hand reconciled request).Sound
      rw [heq]
      exact hs.bumped.exitEnded hok (hiff.mp hfollows)

theorem sound_invariant : ((system cfg (G := G)).restrict fun x e =>
    x.FollowsThrough cfg e).IsInvariant Sound where
  init x hx := by
    constructor
    · intro h hfall
      rw [hx.2.2 h] at hfall
      cases hfall
    · rintro h ⟨record, hmem⟩
      rw [hx.1] at hmem
      cases hmem
  next x e x' _ hs hn := by
    obtain ⟨hfollows, -, rfl⟩ := hn
    exact hs.step hfollows

/-- While every attempt is followed through no hand leaves through two exits, and the next step
keeps it so exactly when it is followed through as well. -/
theorem one_exit_iff {cfg : ExitConfig σ} {x : Exits σ}
    (hx : ((system cfg (G := G)).restrict fun x e => x.FollowsThrough cfg e).Reachable x) :
    x.OneExit ∧ ∀ e x', (system cfg (G := G)).next x e x' →
      (x'.OneExit ↔ x.FollowsThrough cfg e) := by
  have hs := sound_invariant.of_reachable hx
  refine ⟨hs.oneExit, ?_⟩
  rintro e _ ⟨-, rfl⟩
  exact oneExit_step_iff hs

/-! ## A hand on two appchains -/

/-- An appchain at its next operation, where both wallets are seated with a hundred. -/
def toyChain (takesProofs : Bool) : Chain ℕ where
  toKeys := toyKeys
  tableOpen _ _ := some true
  notes _ := [⟨⟨.play, 100, 10, none, 1⟩, 1⟩, ⟨⟨.play, 100, 11, none, 2⟩, 2⟩,
    ⟨⟨.play, 100, 10, some 1, 3⟩, 3⟩, ⟨⟨.play, 100, 11, some 1, 4⟩, 4⟩]
  batchCoveredThrough _ := none
  batchRootAt _ _ := none
  submit _ := do
    let frame ← get
    set (frame + 1)
    return frame
  emitSoftConfirm _ := return ()
  markProven _ := return ()
  pipelineSubmit _ := if takesProofs then return () else throw (.err "queue full")
  awaitProven _ := throw (.err "prove wait timeout")

def toyConfig (takesProofs : Bool) : ExitConfig ℕ where
  settlementExitAppchain := true
  runtime := some ⟨⟨.play, 0, 0, 0, 1⟩, toyChain takesProofs⟩

/-- A player who went all in with a hundred. -/
def toySeat (player : Address) (cards : List Card) (h : cards.length ≤ 2) : Seat Unit :=
  .playing ⟨⟨player, 0, (), ⟨List.replicate 32 0, by simp⟩, 0, 0⟩, ⟨cards, h⟩, 0, 100, .allIn⟩

/-- Two players at the showdown. -/
def toyTable : TexasPokerTable Unit :=
  let table := ((TexasPokerTable.new ⟨0, 0⟩ 0 2 50 100).setSeat 0
    (toySeat 1 [⟨0⟩, ⟨1⟩] (by decide))).setSeat 1 (toySeat 2 [⟨2⟩, ⟨3⟩] (by decide))
  { table with pot := 200, communityCards := ⟨[⟨10⟩, ⟨11⟩, ⟨12⟩, ⟨13⟩, ⟨14⟩], by decide⟩ }

def toyRequest : SettleRequest Unit where
  mirror := ⟨toyTable, none, none⟩
  participants := [⟨"0xa", 100⟩, ⟨"0xb", 100⟩]
  rakeCollected := 0
  handProof := none

/-- A fresh server, before the hand ends. -/
def toyExits : Exits ℕ where
  world := ⟨5, []⟩
  settleOk _ := false
  settleAttempts _ := 0
  fallbacks _ := false

def toyEvent : ExitEvent Unit ℕ := .settleFromLiveMirror ⟨1, 7⟩ true toyRequest

theorem isFresh_toyExits : toyExits.IsFresh := ⟨rfl, fun _ => rfl, fun _ => rfl⟩

/-- The pipeline takes the proof, and the hand leaves through the appchain alone, although its
proof is still to come. -/
theorem taken_proof_one_exit : (toyExits.step (toyConfig true) toyEvent).OneExit ∧
    (toyExits.step (toyConfig true) toyEvent).settleOk ⟨1, 7⟩ = true := by
  have hreach : ((system (toyConfig true)).restrict fun x (e : ExitEvent Unit ℕ) =>
      x.FollowsThrough (toyConfig true) e).Reachable toyExits := .init isFresh_toyExits
  have hstep := (one_exit_iff hreach).2 toyEvent _ ⟨trivial, rfl⟩
  refine ⟨hstep.mpr fun _ _ _ _ rt record frame s hcommits => ⟨rfl, ?_⟩, by decide +kernel⟩
  cases hcommits.1
  exact ⟨s, s, rfl, rfl, nofun⟩

/-- The pipeline refuses the proof of an accepted settlement, and Starknet gets the hand too. -/
theorem refused_proof_two_exits :
    ∃ x, (system (toyConfig false) (G := Unit)).Reachable x ∧ ¬ x.OneExit := by
  refine ⟨toyExits.step (toyConfig false) toyEvent,
    .next toyEvent (.init isFresh_toyExits) ⟨trivial, rfl⟩, fun h => ?_⟩
  have hfacts : (toyExits.step (toyConfig false) toyEvent).fallbacks ⟨1, 7⟩ = true ∧
      ∃ e ∈ (toyExits.step (toyConfig false) toyEvent).world.accepted,
        e.1 = ⟨1, 7⟩ ∧ ¬ e.2.Prepares := by
    decide +kernel
  exact h _ hfacts.1 (settled_iff.mpr hfacts.2)

end Exits

end TexasPoker.Appchain
