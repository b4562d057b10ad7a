import ChiaGaming.OnChain.Transition
import ChiaGaming.OnChain.Shares

namespace ChiaGaming

/-- The game that an action plays on. -/
def GameAction.game? : GameAction → Option GameID
  | .move gameId _ _ => some gameId
  | .cheat gameId _ _ => some gameId
  | .acceptSettlement gameId => some gameId
  | _ => none

namespace OnChainPhase

open Act

variable (E : ChannelEnv)

/-! What becomes of the queue on chain. -/

/-- The action has come too late, or too early: its game is gone, or it is not our turn in it. -/
def stale (p : OnChainPhase) (action : GameAction) : Prop :=
  ∃ gameId, action.game? = some gameId ∧ p.myMoveInGame gameId ≠ some true

/-- The first action of the queue is passed over if it is a proposal, a shutdown or for a game that
is gone, and stays in the queue if it is not our turn in its game. -/
def Treated (p : OnChainPhase) : Prop :=
  ∀ action rest, p.gameActionQueue = action :: rest →
    match action.game? with
    | none => action ≠ .sendPotato →
        processQueuedAction E p = processQueuedAction E { p with gameActionQueue := rest }
    | some gameId =>
      match p.myMoveInGame gameId with
      | none => processQueuedAction E p = processQueuedAction E { p with gameActionQueue := rest }
      | some false => p.gameActionQueue.count action ≤
          ((processQueuedAction E).after p).gameActionQueue.count action
      | some true => True

variable {E} {p : OnChainPhase} {action : GameAction} {rest : List GameAction}

theorem processQueuedAction_cons (hqueue : p.gameActionQueue = action :: rest) :
    processQueuedAction E p = (do
      let effects ← doOnChainAction E action
      if effects.isEmpty then processActions E rest else pure effects)
        { p with gameActionQueue := rest } := by
  rw [processQueuedAction, bind_of_ok (get_apply p), hqueue]
  rfl

/-- Whatever the loop does, it only takes actions off the front. -/
theorem processActions_suffix (p : OnChainPhase) (action : GameAction) (rest : List GameAction) :
    ((processActions E (action :: rest)).after p).gameActionQueue <:+ rest := by
  induction rest generalizing p action with
  | nil =>
    have hcons : processActions E [action] p = _ := bind_of_ok (modify_apply _ p) _
    cases hr : doOnChainAction E action { p with gameActionQueue := [] } with
    | error e p₁ =>
      rw [after_of_error (hcons.trans (bind_of_error hr _)),
        (keeps_doOnChainAction_queue action).onError _ _ _ hr]
    | ok effects p₁ =>
      have hp₁ : p₁.gameActionQueue = [] := (keeps_doOnChainAction_queue action).ok hr
      have hx := hcons.trans (bind_of_ok hr _)
      split at hx
      · rw [after_of_ok hx, hp₁]
      · rw [after_of_ok hx, hp₁]
  | cons next rest ih =>
    have hcons : processActions E (action :: next :: rest) p = _ := bind_of_ok (modify_apply _ p) _
    cases hr : doOnChainAction E action { p with gameActionQueue := next :: rest } with
    | error e p₁ =>
      rw [after_of_error (hcons.trans (bind_of_error hr _)),
        (keeps_doOnChainAction_queue action).onError _ _ _ hr]
    | ok effects p₁ =>
      have hp₁ : p₁.gameActionQueue = next :: rest := (keeps_doOnChainAction_queue action).ok hr
      have hx := hcons.trans (bind_of_ok hr _)
      split at hx
      · rw [after, hx, ← after]
        exact (ih p₁ next).trans (List.suffix_cons next rest)
      · rw [after_of_ok hx, hp₁]

theorem processQueuedAction_suffix (hqueue : p.gameActionQueue = action :: rest) :
    ((processQueuedAction E).after p).gameActionQueue <:+ rest := by
  have hloop : processQueuedAction E p = processActions E (action :: rest) p := by
    rw [processQueuedAction, bind_of_ok (get_apply p), hqueue]
  rw [after, hloop, ← after]
  exact processActions_suffix p action rest

theorem myMoveInGame_eq_none {gameId : GameID} :
    p.myMoveInGame gameId = none ↔ p.findCoin gameId = none := Option.map_eq_none_iff

/-- An action on a game that is gone is an error. -/
theorem doOnChainAction_of_gone {gameId : GameID} (hgame : action.game? = some gameId)
    (hgone : p.findCoin gameId = none) : ∃ e, doOnChainAction E action p = .error e p := by
  refine ⟨noCoin gameId, ?_⟩
  cases action with
  | move id readableMove entropy =>
    cases hgame
    rw [doOnChainAction, bind_of_ok (get_apply p), hgone]
    rfl
  | cheat id moverShare entropy =>
    cases hgame
    rw [doOnChainAction, bind_of_ok (get_apply p), hgone]
    rfl
  | acceptSettlement id =>
    cases hgame
    rw [doOnChainAction, bind_of_ok (get_apply p), hgone]
    rfl
  | _ => cases hgame

/-- Proposals and shutdowns have no effect. -/
theorem doOnChainAction_of_none (hgame : action.game? = none) (hpotato : action ≠ .sendPotato) :
    doOnChainAction E action p = .ok [] p := by
  cases action with
  | move _ _ _ => cases hgame
  | cheat _ _ _ => cases hgame
  | acceptSettlement _ => cases hgame
  | sendPotato => exact absurd rfl hpotato
  | _ => rfl

/-- A popped action that has no effect gives way to the next one. -/
theorem processQueuedAction_of_skipped (hqueue : p.gameActionQueue = action :: rest)
    (hskip : doOnChainAction E action { p with gameActionQueue := rest } =
      .ok [] { p with gameActionQueue := rest }) :
    processQueuedAction E p = processQueuedAction E { p with gameActionQueue := rest } := by
  rw [processQueuedAction_cons hqueue, bind_of_ok hskip, processQueuedAction,
    bind_of_ok (get_apply _)]
  rfl

/-- The loop ends with the error of the action that it has popped. -/
theorem processQueuedAction_ne_of_error {e : Error} (hqueue : p.gameActionQueue = action :: rest)
    (herror : doOnChainAction E action { p with gameActionQueue := rest } =
      .error e { p with gameActionQueue := rest }) :
    processQueuedAction E p ≠ processQueuedAction E { p with gameActionQueue := rest } := by
  intro heq
  rw [processQueuedAction_cons hqueue, bind_of_error herror] at heq
  cases rest with
  | nil => cases heq
  | cons next rest =>
    have hsuffix := processQueuedAction_suffix (E := E)
      (p := { p with gameActionQueue := next :: rest }) rfl
    rw [after_of_error heq.symm] at hsuffix
    have := hsuffix.length_le
    simp at this

/-- The queue is treated as it should be exactly where its first action is not stale. -/
theorem treated_iff :
    Treated E p ↔ ∀ action rest, p.gameActionQueue = action :: rest → ¬ p.stale action := by
  refine forall_congr' fun action => forall_congr' fun rest => forall_congr' fun hqueue => ?_
  cases hgame : action.game? with
  | none =>
    refine iff_of_true (fun hpotato => ?_) fun h => ?_
    · exact processQueuedAction_of_skipped hqueue (doOnChainAction_of_none hgame hpotato)
    · obtain ⟨gameId, hid, -⟩ := h
      cases hgame.symm.trans hid
  | some gameId =>
    dsimp only
    have hstale : p.stale action ↔ p.myMoveInGame gameId ≠ some true := by
      rw [stale, hgame]
      simp
    rw [hstale]
    cases hturn : p.myMoveInGame gameId with
    | none =>
      refine iff_of_false ?_ (by simp)
      have hgone : ({ p with gameActionQueue := rest } : OnChainPhase).findCoin gameId = none :=
        myMoveInGame_eq_none.mp hturn
      obtain ⟨e, herror⟩ := doOnChainAction_of_gone (E := E) hgame hgone
      exact processQueuedAction_ne_of_error hqueue herror
    | some ours =>
      cases ours with
      | true => simp
      | false =>
        refine iff_of_false (fun hcount => ?_) (by simp)
        have hsuffix := (processQueuedAction_suffix (E := E) hqueue).sublist.count_le action
        rw [hqueue, List.count_cons_self] at hcount
        omega

end OnChainPhase

namespace SpendChannelCoinPhase.Running

open Act

variable (E : ChannelEnv)

/-! The queue while the phase on chain takes over. -/

def hasChannel (s : Running) : Bool := s.channelState.isSome

/-- The actions that are popped can be carried out, one after the other. -/
def PopsCleanly : List GameAction → OnChainPhase → Prop
  | [], _ => True
  | action :: rest, p => ∃ effects p',
      OnChainPhase.doOnChainAction E action { p with gameActionQueue := rest } = .ok effects p' ∧
        (effects = [] → PopsCleanly rest p')

/-- The claims of all coins can be built, and the actions that are popped can be carried out. -/
def Starts (p : OnChainPhase) : Prop :=
  (∃ effects, p.registerInitialGameCoins E = .ok effects) ∧ PopsCleanly E p.gameActionQueue p

variable {E} {s s' : Running}

theorem keeps_channel {γ : Type} {f : Running → γ} : Keeps f channel :=
  keeps_get.bind fun _ => keeps_lift _

theorem keeps_onChannel_hasChannel {α : Type} (x : Act Error ChannelState α) :
    Keeps hasChannel (onChannel x) := by
  intro s
  rw [after, onChannel]
  cases hch : s.channelState with
  | none => rfl
  | some ch =>
    cases hx : x ch with
    | ok a ch' => simp [hasChannel, hch, hx]
    | error e ch' => simp [hasChannel, hch, hx]

theorem keeps_transitionToTerminal_hasChannel (resolvedClean : Bool) (advisory : Option String) :
    Keeps hasChannel (transitionToTerminal resolvedClean advisory) := by
  intro s
  cases hch : s.channelState with
  | none =>
    rw [after, transitionToTerminal, bind_of_ok (get_apply s), hch]
    rfl
  | some ch =>
    rw [after, transitionToTerminal, bind_of_ok (get_apply s), hch]
    simp [hasChannel, hch]
    rfl

theorem keeps_resolveGames_hasChannel (unrollCoin : CoinString) (conditions : List CoinCondition)
    (onChainState : ℕ) : Keeps hasChannel (resolveGames E unrollCoin conditions onChainState) := by
  refine keeps_channel.bind fun ch => ?_
  refine Keeps.bind (keeps_modify fun _ => rfl) fun _ => ?_
  refine (keeps_onChannel_hasChannel _).bind fun _ => ?_
  exact Keeps.bind (keeps_modify fun _ => rfl) fun _ => keeps_pure _

theorem keepsOnError_handOver_hasChannel (gameMap : Dict CoinString OnChainGameState) :
    KeepsOnError hasChannel (handOver E gameMap) := by
  refine keeps_channel.bind_onError fun ch => (keeps_onChannel_hasChannel _).bind_onError fun redos =>
    keeps_get.bind_onError fun s => ?_
  refine Keeps.bind_onError (keeps_modify fun _ => rfl) fun _ => keeps_get.bind_onError fun _ =>
    (keeps_lift _).bind_onError fun ch => ?_
  intro s₁ s₂ e h
  cases h

/-- Up to the hand-over, an error leaves the channel state where it is. -/
theorem keepsOnError_takeOver_hasChannel (unrollCoin : CoinString)
    (spend : Option (ChainPuzzle × Clvm)) (onChainState : ℕ) :
    KeepsOnError hasChannel (takeOver E unrollCoin spend onChainState) := by
  refine (keeps_lift _).bind_onError fun revealed => keeps_channel.bind_onError fun _ =>
    (keeps_lift _).bind_onError fun conditions =>
      (keeps_resolveGames_hasChannel _ _ _).bind_onError fun games => ?_
  have hdone : ∀ effects : List ChainEffect × Bool, Keeps hasChannel (do
      transitionToCompletedTerminal false
      pure effects) :=
    fun effects => (keeps_transitionToTerminal_hasChannel _ _).bind fun _ => keeps_pure _
  refine keepsOnError_ite (hdone _).onError (keeps_channel.bind_onError fun _ =>
    (keeps_lift _).bind_onError fun found => keepsOnError_ite (hdone _).onError ?_)
  intro s s' e h
  rcases Act.bind_eq_error.mp h with h | ⟨_, _, -, h⟩
  · exact keepsOnError_handOver_hasChannel _ _ _ _ h
  · cases h

/-- The channel state goes to the phase that takes over. -/
theorem handOver_ok {gameMap : Dict CoinString OnChainGameState} {effects : List ChainEffect}
    (h : handOver E gameMap s = .ok effects s') :
    s'.channelState = none ∧ ∃ p, s'.replacement = some p := by
  rw [handOver] at h
  obtain ⟨_, _, -, h₁⟩ := Act.bind_eq_ok.mp h
  obtain ⟨_, _, -, h₂⟩ := Act.bind_eq_ok.mp h₁
  obtain ⟨_, _, -, h₃⟩ := Act.bind_eq_ok.mp h₂
  obtain ⟨_, _, -, h₄⟩ := Act.bind_eq_ok.mp h₃
  obtain ⟨_, _, -, h₅⟩ := Act.bind_eq_ok.mp h₄
  obtain ⟨_, _, -, h₆⟩ := Act.bind_eq_ok.mp h₅
  cases h₆
  exact ⟨rfl, _, rfl⟩

theorem takeOver_ok {unrollCoin : CoinString} {spend : Option (ChainPuzzle × Clvm)}
    {onChainState : ℕ} {effects : List ChainEffect}
    (h : takeOver E unrollCoin spend onChainState s = .ok (effects, true) s') :
    s'.channelState = none ∧ ∃ p, s'.replacement = some p := by
  rw [takeOver] at h
  obtain ⟨_, _, -, h₁⟩ := Act.bind_eq_ok.mp h
  obtain ⟨_, _, -, h₂⟩ := Act.bind_eq_ok.mp h₁
  obtain ⟨_, _, -, h₃⟩ := Act.bind_eq_ok.mp h₂
  obtain ⟨games, _, -, h₄⟩ := Act.bind_eq_ok.mp h₃
  have hdone : ∀ (effects' : List ChainEffect) (s₁ : Running), (do
      transitionToCompletedTerminal false
      pure (effects', false) : Act Error Running (List ChainEffect × Bool)) s₁ ≠
        .ok (effects, true) s' := by
    intro effects' s₁ hok
    obtain ⟨_, _, -, hpure⟩ := Act.bind_eq_ok.mp hok
    cases hpure
  split at h₄
  · exact absurd h₄ (hdone _ _)
  obtain ⟨_, _, -, h₅⟩ := Act.bind_eq_ok.mp h₄
  obtain ⟨found, _, -, h₆⟩ := Act.bind_eq_ok.mp h₅
  split at h₆
  · exact absurd h₆ (hdone _ _)
  obtain ⟨handed, _, hhanded, h₇⟩ := Act.bind_eq_ok.mp h₆
  cases h₇
  exact handOver_ok hhanded

theorem processActions_ok_iff {p : OnChainPhase} {actions : List GameAction} :
    (∃ effects p', OnChainPhase.processActions E actions p = .ok effects p') ↔
      PopsCleanly E actions p := by
  induction actions generalizing p with
  | nil => exact iff_of_true ⟨[], p, rfl⟩ trivial
  | cons action rest ih =>
    have hcons : OnChainPhase.processActions E (action :: rest) p = _ :=
      bind_of_ok (modify_apply _ p) _
    rw [PopsCleanly]
    cases hr : OnChainPhase.doOnChainAction E action { p with gameActionQueue := rest } with
    | error e p₁ =>
      rw [hcons, bind_of_error hr]
      simp
    | ok effects p₁ =>
      rw [hcons, bind_of_ok hr]
      cases effects with
      | nil => simpa using ih (p := p₁)
      | cons effect effects => simp

theorem processQueuedAction_ok_iff {p : OnChainPhase} :
    (∃ effects p', OnChainPhase.processQueuedAction E p = .ok effects p') ↔
      PopsCleanly E p.gameActionQueue p := processActions_ok_iff

theorem startOnChain_ok_iff {p : OnChainPhase} (hp : s.replacement = some p) :
    (∃ effects s', startOnChain E s = .ok effects s') ↔ Starts E p := by
  rw [startOnChain, Starts, ← processQueuedAction_ok_iff, hp]
  dsimp only
  cases p.registerInitialGameCoins E with
  | error e => simp
  | ok registered =>
    cases OnChainPhase.processQueuedAction E p with
    | error e p' => simp
    | ok effects p' => simp

theorem startOnChain_error {e : Error} (h : startOnChain E s = .error e s') :
    s'.channelState = s.channelState := by
  rw [startOnChain] at h
  split at h
  · cases h
  · split at h
    · cases h
      rfl
    · split at h
      · cases h
      · cases h
        rfl

section Fail

variable {reason : String} {x : Act Error Running (List ChainEffect)} {s₁ : Running} {e : Error}

theorem orFail_of_ok {effects : List ChainEffect} (h : x s = .ok effects s') :
    orFail reason x s = .ok effects s' := by
  rw [orFail, h]

/-- An error is made up for as long as the channel state is there. -/
theorem orFail_of_some {ch : ChannelState} (h : x s = .error e s₁) (hch : s₁.channelState = some ch) :
    ∃ effects s', orFail reason x s = .ok effects s' := by
  rw [orFail, h]
  dsimp only
  rw [bind_apply, emitFailureCleanup, bind_of_ok (get_apply s₁), hch]
  exact ⟨_, _, rfl⟩

theorem orFail_of_none (h : x s = .error e s₁) (hch : s₁.channelState = none) :
    ∃ e, orFail reason x s = .error e { s₁ with advisory := some reason } := by
  have hcleanup : emitFailureCleanup s₁ = .ok [] s₁ := by
    rw [emitFailureCleanup, bind_of_ok (get_apply s₁), hch]
    rfl
  refine ⟨.strErr "transition to a terminal phase: channel_state required" [], ?_⟩
  rw [orFail, h]
  dsimp only
  rw [bind_of_ok hcleanup, bind_of_ok (modify_apply _ s₁), transitionToFailedTerminal]
  refine bind_of_error ?_ _
  rw [bind_of_ok (get_apply _), transitionToTerminal, bind_of_ok (get_apply _)]
  dsimp only
  rw [hch]
  rfl

end Fail

/-- The spend of an unroll coin. -/
def Unrolled (s : Running) (coin : CoinString) (onChainState : ℕ) : Prop :=
  s.state = .unrollSpend coin onChainState ∨ s.state = .unrollConditions coin onChainState

theorem coinPuzzleAndSolution_of_unrolled {coin : CoinString} {n : ℕ}
    {spend : Option (ChainPuzzle × Clvm)} (hstate : s.Unrolled coin n) :
    coinPuzzleAndSolution E coin spend s =
      orFail "unroll coin spent with unexpected state" (finishOnChainTransition E coin spend n) s := by
  rw [coinPuzzleAndSolution, bind_of_ok (get_apply s)]
  rcases hstate with hstate | hstate
  · rw [hstate]
    dsimp only
    rw [if_pos rfl]
  · rw [hstate]
    dsimp only
    rw [if_pos rfl]

theorem finishOnChainTransition_of_taken {coin : CoinString} {n : ℕ}
    {spend : Option (ChainPuzzle × Clvm)} {effects : List ChainEffect} {s₁ : Running}
    (h : takeOver E coin spend n s = .ok (effects, true) s₁) :
    finishOnChainTransition E coin spend n s = (do
      let started ← startOnChain E
      pure (effects ++ started)) s₁ := bind_of_ok h _

/-- The spend of an unroll coin is handled without an error if and only if the phase that takes
over starts without one. -/
theorem unroll_handled_iff {coin : CoinString} {n : ℕ} {spend : Option (ChainPuzzle × Clvm)}
    (hstate : s.Unrolled coin n) (hch : s.hasChannel = true) :
    (∃ effects s', coinPuzzleAndSolution E coin spend s = .ok effects s') ↔
      ∀ effects s₁ p, takeOver E coin spend n s = .ok (effects, true) s₁ →
        s₁.replacement = some p → Starts E p := by
  rw [coinPuzzleAndSolution_of_unrolled hstate]
  cases htaken : takeOver E coin spend n s with
  | error e s₁ =>
    have hkept := keepsOnError_takeOver_hasChannel coin spend n s s₁ e htaken
    obtain ⟨ch, hsome⟩ := Option.isSome_iff_exists.mp (hkept.trans hch)
    exact iff_of_true (orFail_of_some (bind_of_error htaken _) hsome) fun _ _ _ h => by cases h
  | ok taken s₁ =>
    obtain ⟨effects, handed⟩ := taken
    cases handed with
    | false =>
      have hfinish : finishOnChainTransition E coin spend n s = .ok (effects ++ []) s₁ :=
        bind_of_ok htaken _
      exact iff_of_true ⟨_, _, orFail_of_ok hfinish⟩ fun _ _ _ h => by cases h
    | true =>
      obtain ⟨hnone, p, hp⟩ := takeOver_ok htaken
      have hfinish := finishOnChainTransition_of_taken htaken
      have hstarts : (∀ effects' s₂ p', EStateM.Result.ok (ε := Error) (effects, true) s₁ =
          .ok (effects', true) s₂ → s₂.replacement = some p' → Starts E p') ↔ Starts E p := by
        constructor
        · exact fun h => h effects s₁ p rfl hp
        · rintro h _ _ p' ⟨⟩ hp'
          cases hp.symm.trans hp'
          exact h
      rw [hstarts, ← startOnChain_ok_iff hp]
      cases hstart : startOnChain E s₁ with
      | ok started s₂ =>
        rw [bind_of_ok hstart] at hfinish
        exact iff_of_true ⟨_, _, orFail_of_ok hfinish⟩ ⟨started, s₂, rfl⟩
      | error e s₂ =>
        rw [bind_of_error hstart] at hfinish
        obtain ⟨e', herror⟩ := @orFail_of_none _ "unroll coin spent with unexpected state" _ _ _
          hfinish ((startOnChain_error hstart).trans hnone)
        refine iff_of_false ?_ ?_
        · rintro ⟨effects', s', hok⟩
          cases herror.symm.trans hok
        · rintro ⟨effects', s', hok⟩
          cases hok

/-- The error comes when the channel state has been given away. -/
theorem unroll_error_lost {coin : CoinString} {n : ℕ} {spend : Option (ChainPuzzle × Clvm)} {e : Error}
    (hstate : s.Unrolled coin n) (h : coinPuzzleAndSolution E coin spend s = .error e s') :
    s'.channelState = none := by
  rw [coinPuzzleAndSolution_of_unrolled hstate] at h
  cases hfinish : finishOnChainTransition E coin spend n s with
  | ok effects s₁ => cases (orFail_of_ok hfinish).symm.trans h
  | error e₁ s₁ =>
    cases hch : s₁.channelState with
    | some ch =>
      obtain ⟨effects, s₂, hok⟩ := @orFail_of_some _ "unroll coin spent with unexpected state" _ _ _ _
        hfinish hch
      cases hok.symm.trans h
    | none =>
      obtain ⟨e₂, herror⟩ := @orFail_of_none _ "unroll coin spent with unexpected state" _ _ _
        hfinish hch
      cases herror.symm.trans h
      exact hch

end SpendChannelCoinPhase.Running

namespace Steady

/-- A digest of thirty-two bytes. -/
def digest (b : Bytes) : Bytes :=
  (List.range 32).map fun i => UInt8.ofNat (natOfBytes (1 :: b) % (2 ^ 256 - 189) / 256 ^ i)

def digestEnv : ChannelEnv := { channelEnv with sha256 := digest }

def unrollCoin : CoinString := ⟨[8], [5], 20⟩

/-- The unroll has the coin of the game. -/
def unrollConditions : Clvm :=
  .list [createCoin (evenGame digestEnv.toEnv (walletParties otherHash)).lastRefereePuzzleHash 2]

def unrollSpend : Option (ChainPuzzle × Clvm) :=
  some (.unroll ⟨[], [], shatree digest unrollConditions⟩, unrollConditions)

def unrolled (queue : List GameAction) : SpendChannelCoinPhase.Running where
  state := .unrollConditions unrollCoin 0
  channelState := some (evenChannel digestEnv (walletParties otherHash))
  gameActionQueue := queue
  unrollTimeout := 15
  advisory := none
  wasStale := false
  terminalRewardCoin := none
  expectedCleanShutdownSolution := none
  lastChannelCoinSpendInfo := none
  replacement := none

end Steady

end ChiaGaming
