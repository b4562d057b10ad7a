import ChiaGaming.OnChain.Actions

namespace ChiaGaming

/-- What the spend of a game coin has led to, and whether queued actions may follow it. -/
structure Observed where
  effects : List ChainEffect
  resync : Option ResyncInfo
  unblock : Bool

/-- Nothing but notifications, and the queue goes on. -/
def Observed.resolved (effects : List ChainEffect) : Observed := ⟨effects, none, true⟩

namespace OnChainPhase

variable (E : ChannelEnv)

/-- The game cannot be followed any longer. -/
def endedError (gameId : GameID) (reason : String) : ChainNotification :=
  .gameStatus gameId .endedError none (some reason) none

def onChainTurn (ourTurn : Bool) : GameStatusKind :=
  if ourTurn then .onChainMyTurn else .onChainTheirTurn

/-- The outcome of a coin that timed out, or that paid us, without a claim of ours being armed. -/
def timeoutOutcome (state : OnChainGameState) : SettlementOutcome :=
  if state.gameFinished then .settledCleanly
  else if state.ourTurn then .timedOutWaitingForOurMove
  else .opponentTimedOut

/-! A coin that a move of ours was submitted for. -/

/-- The move has landed. -/
def moveLanded (pending : PendingMoveSavedState) (state : OnChainGameState) (coin : CoinString) :
    Act Error OnChainPhase Observed := do
  restoreGameState pending.gameId pending.postMoveReferee pending.postMoveLastPh
  let gameOver ← Act.lift ((← get).isGameOver pending.gameId)
  let next := { state with
    puzzleHash := coin.puzzleHash
    ourTurn := false
    gameFinished := gameOver }
  modify fun p => (p.track coin next).rememberCurrentGameCoin pending.gameId coin
  let claim ← Act.lift ((← get).buildTimeoutClaim E pending.gameId coin)
  pure (.resolved [
    .notify (.gameStatus pending.gameId .onChainTheirTurn (some coin) none (some {
      movedByUs := some true
      gameFinished := if gameOver then some true else none })),
    .registerCoin coin state.gameTimeout claim
      (opponentTimeoutClaimSemantic pending.gameId false gameOver)])

/-- The opponent's timeout has come before the move. -/
def moveTooLate (state : OnChainGameState) : Act Error OnChainPhase Observed := do
  let outcome := if state.gameFinished then .settledCleanly else .attemptToMoveFailed
  .resolved <$> tryEmitTerminal (.gameSettled state.gameId outcome 0 none)

/-- Nothing is answered for a coin without a pending move, or if the spend was neither the move nor
the opponent's timeout; the coin then goes on as one that the opponent is to move. -/
def pendingMoveSpent (coin : CoinString) (puzzle : ChainPuzzle) (solution : Clvm) :
    Act Error OnChainPhase (Option Observed) := do
  match (← get).pendingMoves.lookup coin with
  | none => pure none
  | some pending =>
    modify fun p => p.forgetMove coin
    let conditions ← Act.lift (fromPuzzleAndSolution E.toEnv puzzle solution)
    match firstCreated conditions with
    | none => pure none
    | some (createPh, createAmount) =>
      let state ← Act.lift (orError ((← get).gameMap.lookup coin)
        (.strErr "pending move coin not in game_map" []))
      modify fun p => p.released coin
      if createPh = pending.expectedPh then
        some <$> moveLanded E pending state ⟨coin.toCoinId E.sha256, createPh, createAmount⟩
      else if createPh = (← get).theirRewardPuzzleHash then some <$> moveTooLate state
      else
        modify fun p => p.track coin { state with ourTurn := false }
        pure none

/-! A coin that we are slashing. -/

/-- The coin of our own puzzle hash, if the conditions create one that is worth something. -/
def rewardCreated (puzzleHash : Hash) (conditions : List CoinCondition) : Option ℕ :=
  conditions.findSome? fun c =>
    match c with
    | .createCoin ph amount => if ph = puzzleHash ∧ 0 < amount then some amount else none
    | .other => none

/-- A coin for the opponent means that its timeout has come before our slash; what it leaves us is
what was recorded of the cheating move. -/
def slashSpent (coin : CoinString) (state : OnChainGameState) (conditions : List CoinCondition) :
    Act Error OnChainPhase Observed := do
  let p ← get
  let rewardCoin (amount : ℕ) : CoinString := ⟨coin.toCoinId E.sha256, p.rewardPuzzleHash, amount⟩
  let notification : ChainNotification :=
    if (rewardCreated p.theirRewardPuzzleHash conditions).isSome then
      let ourReward := state.cheatingMoveMoverShare.getD 0
      .gameSettled state.gameId .opponentCheated ourReward
        (if ourReward > 0 then some (rewardCoin ourReward) else none)
    else
      match rewardCreated p.rewardPuzzleHash conditions with
      | some amount => .gameSettled state.gameId .slashedOpponent amount (some (rewardCoin amount))
      | none => endedError state.gameId "slash coin spent with no recognizable reward"
  .resolved <$> tryEmitTerminal notification

/-! A coin whose claim is armed. -/

/-- The amount of the first coin of the puzzle hash. -/
def createdFor (puzzleHash : Hash) (conditions : List CoinCondition) : Option ℕ :=
  conditions.findSome? fun c =>
    match c with
    | .createCoin ph amount => if ph = puzzleHash then some amount else none
    | .other => none

def armedOutcome (state : OnChainGameState) : SettlementOutcome :=
  if state.gameFinished then .settledCleanly else .weAccepted

/-- The settlement of a coin, unless it was reported before. -/
def settle (state : OnChainGameState) (outcome : SettlementOutcome) (share : ℕ)
    (coin : Option CoinString) : Act Error OnChainPhase Observed :=
  if state.notificationSent then pure (.resolved [])
  else .resolved <$> tryEmitTerminal (.gameSettled state.gameId outcome share coin)

/-- The coin of a reward, if it is worth something. -/
def paidCoin (coin : CoinString) (puzzleHash : Hash) (amount : ℕ) : Option CoinString :=
  if amount > 0 then some ⟨coin.toCoinId E.sha256, puzzleHash, amount⟩ else none

/-- The next coin is taken for that of the other turn, and stays armed. -/
def armedAdvanced (state : OnChainGameState) (coin : CoinString) : Act Error OnChainPhase Observed := do
  let next := { state with
    puzzleHash := coin.puzzleHash
    ourTurn := !state.ourTurn
    timeoutClaimArmed := true }
  modify fun p => p.advance coin next
  let claim ← Act.lift ((← get).buildTimeoutClaim E state.gameId coin)
  pure (.resolved [
    .notify (.gameStatus state.gameId (onChainTurn (!state.ourTurn)) (some coin) none none),
    .registerCoin coin state.gameTimeout claim
      (opponentTimeoutClaimSemantic state.gameId (!state.ourTurn) state.gameFinished)])

def armedSpent (coin : CoinString) (state : OnChainGameState) (conditions : List CoinCondition) :
    Act Error OnChainPhase Observed := do
  let p ← get
  match createdFor p.rewardPuzzleHash conditions with
  | some amount => settle state (armedOutcome state) amount (paidCoin E coin p.rewardPuzzleHash amount)
  | none =>
    if (createdFor p.theirRewardPuzzleHash conditions).isSome then settle state (armedOutcome state) 0 none
    else
      match firstCreated conditions with
      | some (ph, amount) => armedAdvanced E state ⟨coin.toCoinId E.sha256, ph, amount⟩
      | none => pure (.resolved [])

/-! Any other coin. -/

def gameFinishedFlag (terminal : Bool) : Option Bool := if terminal then some true else none

/-- The move that has brought the game here, where it was not known before. -/
def readableMove (gameId : GameID) (terminal : Bool) (move : Clvm × ℕ) : ChainEffect :=
  .notify (.gameStatus gameId .myTurn none none (some {
    readable := some move.1
    moverShare := some move.2
    gameFinished := gameFinishedFlag terminal }))

/-- The opponent's last move has left us nothing: the game is not followed any further. -/
def emitLoserForfeitTerminal (gameId : GameID) (readable : Option (Clvm × ℕ)) :
    Act Error OnChainPhase (List ChainEffect) := do
  modify fun p => p.dropGame gameId
  pure (readable.toList.map (readableMove gameId true) ++
    [.notify (.gameSettled gameId .forfeitedOpponentWon 0 none)])

def markFinished (p : OnChainPhase) (coin : CoinString) : OnChainPhase :=
  { p with
    gameMap := p.gameMap.update fun c s => if c = coin then { s with gameFinished := true } else s }

def queueSettlement (p : OnChainPhase) (gameId : GameID) : OnChainPhase :=
  { p with gameActionQueue := p.gameActionQueue ++ [.acceptSettlement gameId] }

/-- Whether a game that has ended on our turn leaves us nothing. -/
def zeroReward (gameId : GameID) (ended : Bool) : Act Error OnChainPhase Bool := do
  if ended then
    let share ← Act.lift ((← get).getGameOurCurrentShare gameId)
    pure (share = 0)
  else pure false

/-- The coin is claimed, for the time that it has timed out. -/
def awaitCoin (state : OnChainGameState) (coin : CoinString) (isMyTurn terminal autoSettle : Bool)
    (readable : Option (Clvm × ℕ)) : Act Error OnChainPhase (List ChainEffect) := do
  let gameId := state.gameId
  let claim ← Act.lift ((← get).buildTimeoutClaim E gameId coin)
  modify fun p => if autoSettle then p.queueSettlement gameId else p
  pure (.notify (.gameStatus gameId (onChainTurn isMyTurn) (some coin) none (some {
      gameFinished := gameFinishedFlag terminal })) ::
    readable.toList.map (readableMove gameId terminal) ++
    [.registerCoin coin state.gameTimeout claim
      (opponentTimeoutClaimSemantic gameId isMyTurn terminal)])

/-- A game that has moved on to the next coin. -/
def gameAdvanced (state : OnChainGameState) (coin : CoinString) (isMyTurn : Bool)
    (readable : Option (Clvm × ℕ)) : Act Error OnChainPhase (List ChainEffect) := do
  let gameId := state.gameId
  let gameOver ← Act.lift ((← get).isGameOver gameId)
  let terminal := state.gameFinished || gameOver
  modify fun p => p.advance coin { state with
    puzzleHash := coin.puzzleHash
    ourTurn := isMyTurn
    gameFinished := terminal }
  let autoSettle ← Act.lift ((← get).shouldAutoSettle gameId isMyTurn)
  modify fun p => if autoSettle then p.markFinished coin else p
  if ← zeroReward gameId (!autoSettle && isMyTurn && gameOver) then
    emitLoserForfeitTerminal gameId readable
  else awaitCoin E state coin isMyTurn terminal autoSettle readable

/-- A coin that was timed out, or slashed by the opponent. -/
def coinTimedOut (state : OnChainGameState) (solution : ParsedRefereeSolution)
    (reward : Option CoinString) : Act Error OnChainPhase Observed :=
  match solution, state.ourTurn with
  | .slash, false => settle state .opponentSlashedUs 0 none
  | _, _ => settle state (timeoutOutcome state) (reward.elim 0 CoinString.amount) reward

/-- An illegal move: the coin that it created is slashed. -/
def slashCoin (state : OnChainGameState) (transaction : RefereeSpend) (reward : CoinString)
    (cheatingMoveMoverShare : ℕ) : Act Error OnChainPhase Observed := do
  modify fun p => { p.advance transaction.coin { state with
    pendingSlashAmount := some reward.amount
    cheatingMoveMoverShare := some cheatingMoveMoverShare
    ourTurn := false } with havePotato := .present }
  pure ⟨[.spendTransaction transaction,
    .notify (.gameStatus state.gameId .illegalMoveDetected (some transaction.coin) none (some {
      moverShare := some cheatingMoveMoverShare
      illegalMoveDetected := some true })),
    .registerCoin transaction.coin state.gameTimeout none none], none, false⟩

/-- On our turn nobody but us can have moved. -/
def isExpected : CoinSpentInformation → Bool
  | .theirSpend (.theirs _) => false
  | _ => true

def liveSpent (coin : CoinString) (state : OnChainGameState) (solution : ParsedRefereeSolution) :
    CoinSpentInformation → Act Error OnChainPhase Observed
  | .theirSpend (.expected stateNumber ph amount) => do
    let isMyTurn := !state.ourTurn
    let effects ← gameAdvanced E state ⟨coin.toCoinId E.sha256, ph, amount⟩ isMyTurn none
    pure ⟨effects, some ⟨stateNumber, isMyTurn⟩, true⟩
  | .theirSpend (.timedout reward) => coinTimedOut state solution reward
  | .theirSpend (.theirs (.moved next _ readable moverShare)) => do
    if next.parent ≠ coin.toCoinId E.sha256 then
      throw (.strErr "coin parent mismatch in their spend" [])
    else .resolved <$> gameAdvanced E state next true (some (readable, moverShare))
  | .theirSpend (.theirs (.slash transaction reward share)) => slashCoin state transaction reward share
  | .ourReward ph amount => settle state (timeoutOutcome state) amount (paidCoin E coin ph amount)

/-- The result of `gameCoinSpent`; an error keeps what was done before it. -/
def tryGameCoinSpent (gameId : GameID) (coin : CoinString) (conditions : List CoinCondition)
    (solution : ParsedRefereeSolution) : Act Error OnChainPhase (Option CoinSpentInformation) :=
  fun p => match gameCoinSpent E gameId coin conditions solution p with
    | .ok result p' => .ok (some result) p'
    | .error _ p' => .ok none p'

def trackedSpent (coin : CoinString) (state : OnChainGameState) (puzzle : ChainPuzzle)
    (solution : Clvm) : Act Error OnChainPhase Observed := do
  let conditions ← Act.lift (fromPuzzleAndSolution E.toEnv puzzle solution)
  if state.pendingSlashAmount.isSome then slashSpent E coin state conditions
  else if state.timeoutClaimArmed then armedSpent E coin state conditions
  else if ¬ (← get).hasLiveGame state.gameId then pure (.resolved [])
  else
    let parsed ← Act.lift (ParsedRefereeSolution.parse solution)
    match ← tryGameCoinSpent E state.gameId coin conditions parsed with
    | none =>
      .resolved <$> tryEmitTerminal (endedError state.gameId "game_coin_spent failed")
    | some result =>
      if state.ourTurn && !isExpected result then
        .resolved <$> tryEmitTerminal (endedError state.gameId "our turn coin spent unexpectedly")
      else liveSpent E coin state parsed result

/-- The spend of a coin, up to the actions that have waited for it.  A coin that is not followed is
ignored. -/
def observeGameCoinSpent (coin : CoinString) (puzzle : ChainPuzzle) (solution : Clvm) :
    Act Error OnChainPhase Observed := do
  match ← pendingMoveSpent E coin puzzle solution with
  | some observed => pure observed
  | none =>
    match (← get).gameMap.lookup coin with
    | none => pure ⟨[], none, false⟩
    | some state =>
      modify fun p => p.released coin
      trackedSpent E coin state puzzle solution

def handleGameCoinSpent (coin : CoinString) (puzzle : ChainPuzzle) (solution : Clvm) :
    Act Error OnChainPhase (List ChainEffect × Option ResyncInfo) := do
  let observed ← observeGameCoinSpent E coin puzzle solution
  if observed.unblock then
    let effects ← processQueuedAction E
    pure (observed.effects ++ effects, observed.resync)
  else pure (observed.effects, observed.resync)

/-- A spend of which the host has no puzzle and solution to report. -/
def missingPuzzle (coin : CoinString) : Act Error OnChainPhase Observed := do
  match (← get).gameMap.lookup coin with
  | none => pure ⟨[], none, false⟩
  | some state =>
    modify fun p => p.untrack coin
    pure (.resolved [.notify (endedError state.gameId
      (if state.ourTurn then "our turn coin spent unexpectedly"
        else "opponent made impossible spend"))])

def coinPuzzleAndSolution (coin : CoinString) (spend : Option (ChainPuzzle × Clvm)) :
    Act Error OnChainPhase (List ChainEffect × Option ResyncInfo) :=
  match spend with
  | some (puzzle, solution) => handleGameCoinSpent E coin puzzle solution
  | none => do
    let observed ← missingPuzzle coin
    if observed.unblock then
      let effects ← processQueuedAction E
      pure (observed.effects ++ effects, none)
    else pure (observed.effects, none)

end OnChainPhase

end ChiaGaming
