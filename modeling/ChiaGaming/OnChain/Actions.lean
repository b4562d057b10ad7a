import ChiaGaming.OnChain.Games

namespace ChiaGaming

namespace OnChainPhase

variable (E : ChannelEnv)

/-! Moves and settlements on chain. -/

/-- The move as a spend of the coin; the game has moved on when this succeeds. -/
def onChainOurMove (gameId : GameID) (readableMove : Clvm) (entropy : Hash) (coin : CoinString) :
    Act Error OnChainPhase (Hash × Hash × GameMoveDetails × RefereeSpend) := do
  let p ← get
  let game ← Act.lift (p.getGameById gameId)
  let (moved, result) ←
    Act.lift (game.internalMakeMove E.toEnv readableMove entropy p.stateNumber)
  modify fun p => p.withGame moved
  let tx ← Act.lift
    (moved.refereeMaker.getTransactionForMove E.toEnv E.aggSigMeAdditionalData coin)
  pure (game.lastRefereePuzzleHash, moved.outcomePuzzleHash E.toEnv, result.details, tx)

def hasPendingSlash (p : OnChainPhase) (gameId : GameID) : Bool :=
  p.gameMap.entries.any fun e => e.2.gameId = gameId && e.2.pendingSlashAmount.isSome

/-- A move that would leave everything to the opponent is not made.  Otherwise the move is
submitted, and the game waits for it where it was before. -/
def doOnChainMove (coin : CoinString) (gameId : GameID) (readableMove : Clvm) (entropy : Hash) :
    Act Error OnChainPhase (List ChainEffect) := do
  let p ← get
  match p.myMoveInGame gameId with
  | none => throw (.strErr "do_on_chain_move: Move for game has no turn mapping" [.nat gameId])
  | some false => throw (.strErr "do_on_chain_move: Move for game deferred" [.nat gameId])
  | some true =>
    let gameAmount ← Act.lift (p.getGameAmount gameId)
    let before ← Act.lift (p.getGameById gameId)
    let (oldPh, newPh, details, transaction) ← onChainOurMove E gameId readableMove entropy coin
    if ¬ p.hasPendingSlash gameId ∧ details.basic.moverShare = gameAmount then
      restoreGameState gameId before.refereeMaker before.lastRefereePuzzleHash
      modify fun p => p.dropGame gameId
      pure [.notify (.gameSettled gameId .forfeitedSkippedReveal 0 none)]
    else
      let after ← Act.lift ((← get).getGameById gameId)
      restoreGameState gameId before.refereeMaker before.lastRefereePuzzleHash
      if oldPh ≠ coin.puzzleHash then
        throw (.strErr "do_on_chain_move: pre-move puzzle hash mismatch" [])
      else
        modify fun p => { p with
          pendingMoves := p.pendingMoves.insert coin {
            expectedPh := newPh
            gameId
            postMoveReferee := after.refereeMaker
            postMoveLastPh := after.lastRefereePuzzleHash } }
        pure [.spendTransaction transaction]

def noCoin (gameId : GameID) : Error := .strErr "no matching game" [.nat gameId]

/-- On our turn a settlement that brings us nothing is final at once; otherwise the coin is armed. -/
def doAcceptSettlement (coin : CoinString) (state : OnChainGameState) (gameId : GameID) :
    Act Error OnChainPhase (List ChainEffect) := do
  let p ← get
  if p.myMoveInGame gameId = some true ∧ p.getGameOurCurrentShare gameId = .ok 0 then
    modify fun p => p.untrack coin
    pure [.notify (.gameSettled gameId .forfeitedWeAccepted 0 none)]
  else
    let claim ← Act.lift (p.buildTimeoutClaim E gameId coin)
    modify fun p => { p with
      gameMap := p.gameMap.update fun c s =>
        if c = coin then { s with
          timeoutClaimArmed := true
          gameFinished := true } else s }
    pure (claim.toList.map fun claim => .registerCoin coin state.gameTimeout (some claim) none)

def doOnChainAction : GameAction → Act Error OnChainPhase (List ChainEffect)
  | .move gameId readableMove entropy => do
    let p ← get
    let (coin, _) ← Act.lift (orError (p.findCoin gameId) (noCoin gameId))
    if (p.pendingMoves.lookup coin).isSome then
      throw (.strErr "do_on_chain_action: Move for game blocked by pending_moves" [.nat gameId])
    else doOnChainMove E coin gameId readableMove entropy
  | .cheat gameId moverShare entropy => do
    let p ← get
    let (coin, state) ← Act.lift (orError (p.findCoin gameId) (noCoin gameId))
    if (p.pendingMoves.lookup coin).isSome then throw .panic
    else if ¬ state.ourTurn then throw .panic
    else
      let _ ← enableCheatingForGame gameId [0x80] moverShare
      doOnChainMove E coin gameId .nil entropy
  | .acceptSettlement gameId => do
    let (coin, state) ← Act.lift (orError ((← get).findCoin gameId) (noCoin gameId))
    doAcceptSettlement E coin state gameId
  | .cleanShutdown => pure []
  | .sendPotato =>
    throw (.strErr "SendPotato action is obsolete and must not appear in the queue" [])
  | .queuedProposalGroup _ _ => pure []
  | .queuedAcceptProposal _ => pure []
  | .queuedCancelProposal _ => pure []
  | .queuedCancelProposalSilently _ => pure []

/-- Actions are popped until one of them has an effect. -/
def processActions : List GameAction → Act Error OnChainPhase (List ChainEffect)
  | [] => pure []
  | action :: rest => do
    modify fun p => { p with gameActionQueue := rest }
    let effects ← doOnChainAction E action
    if effects.isEmpty then processActions rest else pure effects

def processQueuedAction : Act Error OnChainPhase (List ChainEffect) := do
  processActions E (← get).gameActionQueue

end OnChainPhase

end ChiaGaming
