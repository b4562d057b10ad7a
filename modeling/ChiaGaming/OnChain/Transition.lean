import ChiaGaming.OnChain.Coins

namespace ChiaGaming

inductive SpendChannelCoinState where
  | channelSpend (channelCoin : CoinString)
  | channelConditions (channelCoin : CoinString)
  | unrollTimeoutOrSpend (unrollCoin : CoinString) (stateNumber : ℕ)
  | unrollSpend (unrollCoin : CoinString) (stateNumber : ℕ)
  | unrollConditions (unrollCoin : CoinString) (stateNumber : ℕ)
  deriving DecidableEq

/-- The phase that has taken over from play off chain, at work. -/
structure SpendChannelCoinPhase.Running where
  state : SpendChannelCoinState
  channelState : Option ChannelState
  gameActionQueue : List GameAction
  unrollTimeout : ℕ
  advisory : Option String
  wasStale : Bool
  terminalRewardCoin : Option CoinString
  expectedCleanShutdownSolution : Option Clvm
  lastChannelCoinSpendInfo : Option ChannelCoinSpendInfo
  replacement : Option OnChainPhase

def SpendChannelCoinPhase.start (s : SpendChannelCoinPhase) (unrollTimeout : ℕ) :
    SpendChannelCoinPhase.Running where
  state :=
    match s.entry with
    | .channelSpend => .channelSpend s.channelCoin
    | .channelConditions => .channelConditions s.channelCoin
  channelState := s.channelState
  gameActionQueue := s.gameActionQueue
  unrollTimeout
  advisory := s.advisory
  wasStale := false
  terminalRewardCoin := none
  expectedCleanShutdownSolution := s.expectedCleanShutdownSolution
  lastChannelCoinSpendInfo := s.lastChannelCoinSpendInfo
  replacement := none

namespace OnChainPhase

/-- The phase without games to follow. -/
def newTerminal (ch : ChannelState) (wasStale resolvedClean : Bool)
    (terminalRewardCoin : Option CoinString) (advisory : Option String) : OnChainPhase where
  havePotato := .present
  gameActionQueue := []
  gameMap := ∅
  pendingMoves := ∅
  rewardPuzzleHash := ch.rewardPuzzleHash
  theirRewardPuzzleHash := ch.theirRewardPuzzleHash
  liveGames := ch.liveGames
  pendingSettlements := ch.pendingSettlements
  stateNumber := ch.stateNumber
  wasStale
  resolvedClean
  terminalRewardCoin
  currentGameCoins := []
  gamePayoutCoins := []
  advisory

/-- The phase that takes the games of an unroll over. -/
def new (ch : ChannelState) (queue : List GameAction) (gameMap : Dict CoinString OnChainGameState)
    (pendingMoves : Dict CoinString PendingMoveSavedState) (wasStale : Bool)
    (terminalRewardCoin : Option CoinString) : OnChainPhase where
  havePotato := .present
  gameActionQueue := queue
  gameMap
  pendingMoves
  rewardPuzzleHash := ch.rewardPuzzleHash
  theirRewardPuzzleHash := ch.theirRewardPuzzleHash
  liveGames := ch.liveGames
  pendingSettlements := ch.pendingSettlements
  stateNumber := ch.stateNumber
  wasStale
  resolvedClean := false
  terminalRewardCoin
  currentGameCoins := gameMap.entries.map fun e => (e.2.gameId, e.1)
  gamePayoutCoins := []
  advisory := none

end OnChainPhase

namespace SpendChannelCoinPhase.Running

open OnChainPhase (endedError onChainTurn rewardCreated)

variable (E : ChannelEnv)

def channel : Act Error Running ChannelState := do
  Act.lift (orError (← get).channelState (.strErr "no channel handler" []))

/-- A method of the channel state, with its mutations kept when it fails. -/
def onChannel {α : Type} (x : Act Error ChannelState α) : Act Error Running α := fun s =>
  match s.channelState with
  | none => .error (.strErr "no channel handler" []) s
  | some ch =>
    match x ch with
    | .ok a ch' => .ok a { s with channelState := some ch' }
    | .error e ch' => .error e { s with channelState := some ch' }

/-! The end of a channel without games. -/

/-- The games go with the phase that takes over. -/
def transitionToTerminal (resolvedClean : Bool) (advisory : Option String) : Act Error Running Unit := do
  let s ← get
  let ch ← Act.lift (orError s.channelState
    (.strErr "transition to a terminal phase: channel_state required" []))
  set { s with
    channelState := some { ch with
      liveGames := []
      pendingSettlements := [] }
    replacement :=
      some (OnChainPhase.newTerminal ch s.wasStale resolvedClean s.terminalRewardCoin advisory) }

def transitionToCompletedTerminal (resolvedClean : Bool) : Act Error Running Unit :=
  transitionToTerminal resolvedClean none

def transitionToFailedTerminal : Act Error Running Unit := do
  transitionToTerminal false (← get).advisory

/-- Every game ends with an error; without a channel state there is none to speak of. -/
def emitFailureCleanup : Act Error Running (List ChainEffect) := do
  match (← get).channelState with
  | none => pure []
  | some ch =>
    modify fun s => { s with channelState := some { ch with proposedGames := [] } }
    pure ((ch.proposedGames.map fun g => .notify (.proposalCancelled g.gameId true)) ++
      ch.allGameIds.map fun id => .notify (endedError id "channel error"))

/-- An error of a coin's handling ends the channel. -/
def orFail (reason : String) (x : Act Error Running (List ChainEffect)) :
    Act Error Running (List ChainEffect) := fun s =>
  match x s with
  | .ok effects s' => .ok effects s'
  | .error _ s' => (do
    let effects ← emitFailureCleanup
    modify fun s => { s with advisory := some reason }
    transitionToFailedTerminal
    pure effects : Act Error Running (List ChainEffect)) s'

/-! The games of an unroll. -/

/-- The coins of an unroll that are not payouts. -/
def gameCoins (ch : ChannelState) : List CoinCondition → List (Hash × ℕ)
  | [] => []
  | .createCoin ph amount :: conditions =>
    if 0 < amount ∧ ph ≠ ch.rewardPuzzleHash ∧ ph ≠ ch.theirRewardPuzzleHash then
      (ph, amount) :: gameCoins ch conditions
    else gameCoins ch conditions
  | .other :: conditions => gameCoins ch conditions

/-- A game of which the unroll has no coin. -/
def missingGame (inFlight : List GameID) (isStale : Bool) (gameId : GameID) : ChainNotification :=
  if gameId ∈ inFlight then .gameStatus gameId .endedCancelled none none none
  else endedError gameId
    (if isStale then "live game absent from stale unroll" else "live game absent from unroll")

/-- What an unroll leaves of the games: their coins, and the settlements that it has resolved. -/
structure UnrollGames where
  gameMap : Dict CoinString OnChainGameState
  rewardCoin : Option CoinString
  effects : List ChainEffect

def settledBy (rewardCoin : Option CoinString) (settled : GameID × ℕ) : ChainEffect :=
  .notify (.gameSettled settled.1 .acceptSettlement settled.2 rewardCoin)

def resolveGames (unrollCoin : CoinString) (conditions : List CoinCondition) (onChainState : ℕ) :
    Act Error Running UnrollGames := do
  let ch ← channel
  let inFlight := ch.pendingProposalAcceptGameIds
  let rewardCoin := (rewardCreated ch.rewardPuzzleHash conditions).map fun amount =>
    (⟨unrollCoin.toCoinId E.sha256, ch.rewardPuzzleHash, amount⟩ : CoinString)
  let isStale := ch.timeoutStateNumber.any fun t => onChainState + 1 < t
  modify fun s => { s with wasStale := s.wasStale || isStale }
  let gameMap := ch.setStateForCoins E unrollCoin (gameCoins ch conditions)
  let survivingIds := gameMap.entries.map fun e => e.2.gameId
  let missing := (ch.liveGameIds ++ inFlight).dedup.filter fun id => id ∉ survivingIds
  let resolved ← onChannel (ChannelState.drainPreemptResolvedAcceptSettlements survivingIds)
  modify fun s => { s with terminalRewardCoin := rewardCoin }
  pure {
    gameMap
    rewardCoin
    effects := (missing.map fun id => .notify (missingGame inFlight isStale id)) ++
      resolved.map (settledBy rewardCoin) }

/-- What becomes of a coin that the unroll has brought. -/
inductive Prospect where
  | worthless
  | missing
  | kept
  deriving DecidableEq

/-- A coin that is armed, or that the opponent is to move, is worth what the local game says; one
that waits for us is dropped if the move to be made again leaves us nothing. -/
def prospect (ch : ChannelState) (state : OnChainGameState) : Except Error Prospect :=
  if state.timeoutClaimArmed ∨ ¬ state.ourTurn then
    match ch.getGameOurCurrentShare state.gameId with
    | .ok share => .ok (if share = 0 then .worthless else .kept)
    | .error _ => .ok .missing
  else do .ok (if ← ch.isRedoZeroReward state.gameId then .worthless else .kept)

def prospects (ch : ChannelState) :
    List (Σ _ : CoinString, OnChainGameState) →
      Except Error (List ((Σ _ : CoinString, OnChainGameState) × Prospect))
  | [] => .ok []
  | e :: es => do .ok ((e, ← prospect ch e.2) :: (← prospects ch es))

def worthlessOutcome (state : OnChainGameState) : SettlementOutcome :=
  if state.timeoutClaimArmed then .forfeitedWeAccepted
  else if state.ourTurn then .forfeitedSkippedReveal
  else .forfeitedOpponentWon

def droppedEffect (entry : (Σ _ : CoinString, OnChainGameState) × Prospect) : Option ChainEffect :=
  match entry.2 with
  | .worthless =>
    some (.notify (.gameSettled entry.1.2.gameId (worthlessOutcome entry.1.2) 0 none))
  | .missing =>
    some (.notify (.gameStatus entry.1.2.gameId .endedError (some entry.1.1)
      (some "game absent from local state at unroll (possible stale unroll)") none))
  | .kept => none

def droppedEffects (found : List ((Σ _ : CoinString, OnChainGameState) × Prospect)) :
    List ChainEffect :=
  (found.filter fun entry => entry.2 = .missing).filterMap droppedEffect ++
    (found.filter fun entry => entry.2 = .worthless).filterMap droppedEffect

/-- The coins that are followed further. -/
def keptCoins (gameMap : Dict CoinString OnChainGameState)
    (found : List ((Σ _ : CoinString, OnChainGameState) × Prospect)) :
    Dict CoinString OnChainGameState :=
  gameMap.retain fun coin _ => found.all fun entry => entry.1.1 ≠ coin ∨ entry.2 = .kept

def unrollStatus (ch : ChannelState) (entry : Σ _ : CoinString, OnChainGameState) : ChainEffect :=
  .notify (.gameStatus entry.2.gameId
    (if entry.2.ourTurn && ch.hasCachedMoveForGame entry.2.gameId then .replaying
      else onChainTurn entry.2.ourTurn) (some entry.1) none none)

/-- The move that was under way is made again on the coin; the game itself stays where it is. -/
def redoMove (coin : CoinString) (gameId : GameID) (expectRedo : Bool) :
    Act Error ChannelState (Option (PendingMoveSavedState × ChainEffect)) := do
  match ← ChannelState.takeCachedMoveForGame gameId with
  | none =>
    if expectRedo then
      throw (.strErr "redo: Replaying status for game but no cached move" [.nat gameId])
    else pure none
  | some cached =>
    let referee ← Act.lift (orError cached.savedPostMoveReferee
      (.strErr "redo: no saved post-move referee" []))
    let lastPh ← Act.lift (orError cached.savedPostMoveLastPh
      (.strErr "redo: no saved post-move last_ph" []))
    let _ ← Act.lift ((← get).getGameById gameId)
    let transaction ← Act.lift
      (referee.getTransactionForMove E.toEnv E.aggSigMeAdditionalData coin)
    pure (some ({
      expectedPh := referee.outcomeRefereePuzzleHash E.toEnv
      gameId
      postMoveReferee := referee
      postMoveLastPh := lastPh }, .spendTransaction transaction))

def redoMoves (replayingIds : List GameID) :
    List (Σ _ : CoinString, OnChainGameState) →
      Act Error ChannelState (List (CoinString × PendingMoveSavedState × ChainEffect))
  | [] => pure []
  | e :: es => do
    if e.2.ourTurn then
      let redo ← redoMove E e.1 e.2.gameId (e.2.gameId ∈ replayingIds)
      let rest ← redoMoves replayingIds es
      pure (redo.toList.map (fun r => (e.1, r.1, r.2)) ++ rest)
    else redoMoves replayingIds es

def pendingMovesOf (redos : List (CoinString × PendingMoveSavedState × ChainEffect)) :
    Dict CoinString PendingMoveSavedState :=
  redos.foldl (fun d r => d.insert r.1 r.2.1) ∅

/-- The phase that takes over, and the effects up to then. -/
def handOver (gameMap : Dict CoinString OnChainGameState) : Act Error Running (List ChainEffect) := do
  let ch ← channel
  let replayingIds := (gameMap.entries.filter fun e =>
    e.2.ourTurn && ch.hasCachedMoveForGame e.2.gameId).map fun e => e.2.gameId
  let statuses := gameMap.entries.map (unrollStatus ch)
  let redos ← onChannel (redoMoves E replayingIds gameMap.entries)
  let queue := (← get).gameActionQueue.filter fun action => action ≠ .cleanShutdown
  modify fun s => { s with gameActionQueue := [] }
  let ch ← Act.lift (orError (← get).channelState (.strErr "no channel handler yet" []))
  modify fun s => { s with
    channelState := none
    replacement :=
      some (OnChainPhase.new ch queue gameMap (pendingMovesOf redos) s.wasStale s.terminalRewardCoin) }
  pure (statuses ++ redos.map fun r => r.2.2)

/-- The phase that has taken over registers its coins and goes on with the queue. -/
def startOnChain : Act Error Running (List ChainEffect) := fun s =>
  match s.replacement with
  | none => .ok [] s
  | some p =>
    match p.registerInitialGameCoins E with
    | .error e => .error e s
    | .ok registered =>
      match OnChainPhase.processQueuedAction E p with
      | .ok effects p' => .ok (registered ++ effects) { s with replacement := some p' }
      | .error e p' => .error e { s with replacement := some p' }

/-- The games of the unroll go to the phase that takes over, if there are any; otherwise the channel
is done with. -/
def takeOver (unrollCoin : CoinString) (spend : Option (ChainPuzzle × Clvm)) (onChainState : ℕ) :
    Act Error Running (List ChainEffect × Bool) := do
  let (puzzle, solution) ← Act.lift (orError spend (.strErr "no conditions for unroll coin" []))
  let _ ← channel
  let conditions ← Act.lift (fromPuzzleAndSolution E.toEnv puzzle solution)
  let games ← resolveGames E unrollCoin conditions onChainState
  if games.gameMap.entries.isEmpty then
    transitionToCompletedTerminal false
    pure (games.effects, false)
  else
    let found ← Act.lift (prospects (← channel) games.gameMap.entries)
    let dropped := droppedEffects found
    let gameMap := keptCoins games.gameMap found
    if gameMap.entries.isEmpty then
      transitionToCompletedTerminal false
      pure (games.effects ++ dropped, false)
    else
      let handed ← handOver E gameMap
      pure (games.effects ++ dropped ++ handed, true)

def finishOnChainTransition (unrollCoin : CoinString) (spend : Option (ChainPuzzle × Clvm))
    (onChainState : ℕ) : Act Error Running (List ChainEffect) := do
  let taken ← takeOver E unrollCoin spend onChainState
  let started ← if taken.2 then startOnChain E else pure []
  pure (taken.1 ++ started)

/-! The spend of the channel coin. -/

/-- The timeout spend of an unroll, from the record of its state. -/
def buildUnrollTimeoutSpend (ch : ChannelState) (unrollCoin : CoinString) (onChainState : ℕ) :
    Except Error CoinSpend := do
  let historical ← ch.getHistoricalUnrollForState onChainState
  .ok ⟨unrollCoin, ⟨.unroll (ch.unrollArgs E historical.stateNumber historical.conditionsHash),
    historical.timeoutConditions, 0⟩⟩

/-- What is to be done about an unroll. -/
inductive UnrollOutcome where
  | preempted (spend : CoinSpend)
  | waitForTimeout
  | unrecoverable

def classifyUnroll (ch : ChannelState) (conditions : Clvm) (unrollCoin : CoinString)
    (onChainState : ℕ) : UnrollOutcome :=
  match ch.channelCoinSpent E false conditions with
  | .ok result =>
    if result.timeout then .waitForTimeout else .preempted ⟨unrollCoin, result.transaction⟩
  | .error _ =>
    match ch.getHistoricalUnrollForState onChainState with
    | .ok _ => .waitForTimeout
    | .error _ => .unrecoverable

def fail (reason : String) : Act Error Running (List ChainEffect) := do
  let effects ← emitFailureCleanup
  modify fun s => { s with advisory := some reason }
  transitionToFailedTerminal
  pure effects

def handleUnroll (conditions : Clvm) (unrollCoin : CoinString) : Act Error Running (List ChainEffect) := do
  let ch ← channel
  let (onChainState, _) ← Act.lift (ch.resolveUnrollFromConditions conditions)
  match classifyUnroll E ch conditions unrollCoin onChainState with
  | .preempted spend =>
    modify fun s => { s with state := .unrollSpend unrollCoin onChainState }
    pure [.spendUnroll spend, .registerUnroll unrollCoin (← get).unrollTimeout none]
  | .waitForTimeout =>
    match buildUnrollTimeoutSpend E ch unrollCoin onChainState with
    | .ok spend =>
      modify fun s => { s with state := .unrollTimeoutOrSpend unrollCoin onChainState }
      pure [.registerUnroll unrollCoin (← get).unrollTimeout (some spend)]
    | .error _ => fail "timeout unroll build failed"
  | .unrecoverable => fail "cannot preempt and no stored state for timeout"

/-- The clean shutdown has landed: the settlements under way are final with it. -/
def cleanShutdownLanded (coin : CoinString) (puzzle : ChainPuzzle) (solution : Clvm) :
    Act Error Running (List ChainEffect) := do
  let settled ← onChannel ChannelState.drainCachedAcceptSettlements
  let conditions ← Act.lift (fromPuzzleAndSolution E.toEnv puzzle solution)
  let ch ← channel
  modify fun s => { s with
    terminalRewardCoin := (rewardCreated ch.rewardPuzzleHash conditions).map fun amount =>
      (⟨coin.toCoinId E.sha256, ch.rewardPuzzleHash, amount⟩ : CoinString) }
  transitionToCompletedTerminal true
  pure (settled.map fun s => settledBy none (s.1, s.2.1))

/-- The first created coin that is an unroll on record. -/
def unrollCreated (ch : ChannelState) : List CoinCondition → Option (Hash × ℕ)
  | [] => none
  | .createCoin ph amount :: conditions =>
    if (ch.unrollPuzzleHashMap.lookup ph).isSome then some (ph, amount)
    else unrollCreated ch conditions
  | .other :: conditions => unrollCreated ch conditions

def handleChannelCoinSpent (coin : CoinString) (spend : Option (ChainPuzzle × Clvm)) :
    Act Error Running (List ChainEffect) := do
  let (puzzle, solution) ← Act.lift (orError spend
    (.strErr "Retrieve of puzzle and solution failed for channel coin" []))
  if (← get).expectedCleanShutdownSolution = some solution then
    cleanShutdownLanded E coin puzzle solution
  else
    let raw ← Act.lift (orError (puzzle.run E.toEnv solution) .clvmErr)
    let conditions ← Act.lift (fromPuzzleAndSolution E.toEnv puzzle solution)
    let ch ← channel
    let (ph, amount) ← Act.lift (orError (unrollCreated ch conditions)
      (.strErr "No CREATE_COIN in channel spend matches a known unroll puzzle hash" []))
    let cancelled ← onChannel ChannelState.cancelAllProposals
    let effects ← handleUnroll E raw ⟨coin.toCoinId E.sha256, ph, amount⟩
    pure ((cancelled.map fun id => .notify (.proposalCancelled id false)) ++ effects)

/-! Events. -/

def coinSpent (coin : CoinString) : Act Error Running (List ChainEffect) := do
  match (← get).state with
  | .channelSpend channelCoin =>
    if coin = channelCoin then
      modify fun s => { s with state := .channelConditions channelCoin }
      pure [.requestPuzzleAndSolution coin]
    else pure []
  | .unrollSpend unrollCoin stateNumber =>
    if coin = unrollCoin then
      modify fun s => { s with state := .unrollConditions unrollCoin stateNumber }
      pure [.requestPuzzleAndSolution coin]
    else pure []
  | .unrollTimeoutOrSpend unrollCoin stateNumber =>
    if coin = unrollCoin then
      modify fun s => { s with state := .unrollConditions unrollCoin stateNumber }
      pure [.requestPuzzleAndSolution coin]
    else pure []
  | _ => pure []

def coinPuzzleAndSolution (coin : CoinString) (spend : Option (ChainPuzzle × Clvm)) :
    Act Error Running (List ChainEffect) := do
  match (← get).state with
  | .channelConditions channelCoin =>
    if coin = channelCoin then
      orFail "channel coin spent to non-unroll" (handleChannelCoinSpent E coin spend)
    else pure []
  | .unrollSpend unrollCoin stateNumber =>
    if coin = unrollCoin then
      orFail "unroll coin spent with unexpected state"
        (finishOnChainTransition E coin spend stateNumber)
    else pure []
  | .unrollConditions unrollCoin stateNumber =>
    if coin = unrollCoin then
      orFail "unroll coin spent with unexpected state"
        (finishOnChainTransition E coin spend stateNumber)
    else pure []
  | _ => pure []

end SpendChannelCoinPhase.Running

end ChiaGaming
