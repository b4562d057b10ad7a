import ChiaGaming.Channel.Games
import ChiaGaming.OnChain.Types

namespace ChiaGaming

namespace LiveGame

variable (E : Env) (g : LiveGame)

def getGameTimeout : ℕ := g.refereeMaker.fixed.timeout
def currentPuzzleHash : Hash := g.refereeMaker.onChainRefereePuzzleHash E
def outcomePuzzleHash : Hash := g.refereeMaker.outcomeRefereePuzzleHash E

def restoreRefereeState (referee : Referee) (lastPh : Hash) : LiveGame :=
  { g with
    refereeMaker := referee
    lastRefereePuzzleHash := lastPh }

def theirTurnCoinSpent (coin : CoinString) (conditions : List CoinCondition) (currentState : ℕ)
    (solution : ParsedRefereeSolution) : Except Error (LiveGame × CoinSpentResult) := do
  let (next, result) ← g.refereeMaker.theirTurnCoinSpent E coin conditions currentState solution
  let referee := next.getD g.refereeMaker
  let lastPh :=
    match result with
    | .expected _ ph _ => ph
    | _ => referee.onChainRefereePuzzleHash E
  .ok (g.restoreRefereeState referee lastPh, result)

end LiveGame

/-- What a spend of a game coin turns out to be. -/
inductive CoinSpentInformation where
  | ourReward (puzzleHash : Hash) (amount : ℕ)
  | theirSpend (result : CoinSpentResult)

namespace OnChainPhase

variable (E : ChannelEnv) (p : OnChainPhase)

/-! The games. -/

def findLiveGame (gameId : GameID) : Option LiveGame := p.liveGames.find? fun g => g.gameId = gameId

def getGameById (gameId : GameID) : Except Error LiveGame :=
  orError (p.findLiveGame gameId) (.strErr "no live game with the given game id" [])

def hasLiveGame (gameId : GameID) : Bool := (p.findLiveGame gameId).isSome

/-- The game that stands for the identifier, live or being settled. -/
def findGame (gameId : GameID) : Option LiveGame :=
  (p.findLiveGame gameId).orElse fun _ => p.pendingSettlements.find? fun g => g.gameId = gameId

def getGameAmount (gameId : GameID) : Except Error ℕ := do
  .ok (← orError (p.findGame gameId) (.strErr "get_game_amount: game not found"
    [.nat gameId])).getAmount

def getGameOurCurrentShare (gameId : GameID) : Except Error ℕ := do
  (← orError (p.findGame gameId) (.strErr "get_game_our_current_share: game not found"
    [.nat gameId])).getOurCurrentShare

def isGameOver (gameId : GameID) : Except Error Bool := do .ok (← p.getGameById gameId).isGameOver

/-- On our turn a game is settled at once if everything is ours, or if it is over and something is. -/
def shouldAutoSettle (gameId : GameID) (isMyTurn : Bool) : Except Error Bool :=
  if ¬ isMyTurn then .ok false
  else do
    let ourShare ← p.getGameOurCurrentShare gameId
    if ourShare = (← p.getGameAmount gameId) then .ok true
    else
      let gameOver ← p.isGameOver gameId
      .ok (gameOver && 0 < ourShare)

def withGame (game : LiveGame) : OnChainPhase := { p with liveGames := putGame game p.liveGames }

def restoreGameState (gameId : GameID) (referee : Referee) (lastPh : Hash) :
    Act Error OnChainPhase Unit := do
  let game ← Act.lift ((← get).getGameById gameId)
  modify fun p => p.withGame (game.restoreRefereeState referee lastPh)

def enableCheatingForGame (gameId : GameID) (makeMove : Bytes) (moverShare : ℕ) :
    Act Error OnChainPhase Bool := do
  let game ← Act.lift ((← get).getGameById gameId)
  let (game, enabled) := game.enableCheating makeMove moverShare
  modify fun p => p.withGame game
  pure enabled

/-! The coins. -/

/-- The first coin of the game. -/
def findCoin (gameId : GameID) : Option (CoinString × OnChainGameState) :=
  (p.gameMap.entries.find? fun e => e.2.gameId = gameId).map fun e => (e.1, e.2)

def myMoveInGame (gameId : GameID) : Option Bool := (p.findCoin gameId).map fun e => e.2.ourTurn

def track (coin : CoinString) (state : OnChainGameState) : OnChainPhase :=
  { p with gameMap := p.gameMap.insert coin state }

def untrack (coin : CoinString) : OnChainPhase := { p with gameMap := p.gameMap.erase coin }

/-- The coin is not followed any longer, and queued actions may go on. -/
def released (coin : CoinString) : OnChainPhase := { p.untrack coin with havePotato := .present }

/-- The move is not waited for any longer. -/
def forgetMove (coin : CoinString) : OnChainPhase :=
  { p with pendingMoves := p.pendingMoves.erase coin }

/-- Every coin of the game is let go of. -/
def dropGame (gameId : GameID) : OnChainPhase :=
  { p with gameMap := p.gameMap.retain fun _ state => state.gameId ≠ gameId }

def rememberCurrentGameCoin (gameId : GameID) (coin : CoinString) : OnChainPhase :=
  { p with
    currentGameCoins := p.currentGameCoins.filter (fun e => e.1 ≠ gameId) ++ [(gameId, coin)] }

/-- A coin of the game gives way to the next one. -/
def advance (coin : CoinString) (state : OnChainGameState) : OnChainPhase :=
  (p.track coin state).rememberCurrentGameCoin state.gameId coin

def tryEmitTerminal (n : ChainNotification) : Act Error OnChainPhase (List ChainEffect) := do
  match n with
  | .gameSettled gameId _ _ (some coin) =>
    if coin.amount > 0 then
      modify fun p => { p with
        gamePayoutCoins := p.gamePayoutCoins.filter (fun e => e.1 ≠ gameId) ++ [(gameId, coin)] }
  | _ => pure ()
  pure [.notify n]

/-! Claims. -/

/-- The claim that is submitted once the coin has timed out, if it pays us. -/
def buildTimeoutClaim (gameId : GameID) (coin : CoinString) : Except Error (Option RefereeSpend) := do
  let game ← orError (p.findGame gameId)
    (.strErr "build_timeout_claim: no live or pending game" [.nat gameId])
  match ← game.refereeMaker.getTransactionForTimeout E.toEnv coin with
  | none => .ok none
  | some tx =>
    let conditions ← fromPuzzleAndSolution E.toEnv (.referee (tx.puzzle.coin E.toEnv)) tx.solution
    .ok (if conditions.any fun c =>
        match c with
        | .createCoin ph amount => ph = p.rewardPuzzleHash ∧ 0 < amount
        | .other => false
      then some tx else none)

def opponentTimeoutClaimSemantic (gameId : GameID) (ourTurn gameFinished : Bool) : Option GameID :=
  if ourTurn || gameFinished then none else some gameId

def registerGameCoin (coin : CoinString) (state : OnChainGameState) :
    Except Error ChainEffect := do
  let claim ← p.buildTimeoutClaim E state.gameId coin
  .ok (.registerCoin coin state.gameTimeout claim
    (opponentTimeoutClaimSemantic state.gameId state.ourTurn state.gameFinished))

def registerGameCoins : List (Σ _ : CoinString, OnChainGameState) → Except Error (List ChainEffect)
  | [] => .ok []
  | e :: es => do .ok ((← p.registerGameCoin E e.1 e.2) :: (← registerGameCoins es))

def registerInitialGameCoins : Except Error (List ChainEffect) :=
  p.registerGameCoins E p.gameMap.entries

/-! Spends. -/

/-- A created coin that our referee knows brings the chain to where it is; so does any, once our
referee takes the game for finished, as long as the coin was not timed out or slashed. -/
def gameCoinSpent (gameId : GameID) (coin : CoinString) (conditions : List CoinCondition)
    (solution : ParsedRefereeSolution) : Act Error OnChainPhase CoinSpentInformation := do
  let p ← get
  let (ph, amount) ← Act.lift (orError (firstCreated conditions) (.strErr "bad coin" []))
  if p.rewardPuzzleHash = ph then pure (.ourReward ph amount)
  else
    let game ← Act.lift (p.getGameById gameId)
    let known : Bool := ph = game.currentPuzzleHash E.toEnv ∨ ph = game.outcomePuzzleHash E.toEnv
    let resolved : Bool :=
      match solution with
      | .move _ => false
      | _ => true
    if known && coin.puzzleHash ≠ ph || game.isGameOver && !resolved then
      set (p.withGame { game with lastRefereePuzzleHash := ph })
      pure (.theirSpend (.expected p.stateNumber ph amount))
    else
      let (game, result) ←
        Act.lift (game.theirTurnCoinSpent E.toEnv coin conditions p.stateNumber solution)
      set (p.withGame game)
      pure (.theirSpend result)

end OnChainPhase

end ChiaGaming
