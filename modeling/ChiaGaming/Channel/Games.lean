import ChiaGaming.Channel.State

namespace ChiaGaming

/-- The first game of the identifier gives way to the new one. -/
def putGame (game : LiveGame) : List LiveGame → List LiveGame
  | [] => []
  | g :: gs => if g.gameId = game.gameId then game :: gs else g :: putGame game gs

def LiveGame.receiveReadable (E : Env) (g : LiveGame) (message : Bytes) : Except Error Clvm :=
  match g.refereeMaker with
  | .myTurn _ => .error (.channel "receive_readable called on MyTurn referee")
  | .theirTurn t =>
    match t.messageHandler with
    | none => .error (.strErr "no message handler but have a message" [])
    | some handler =>
      orError (E.run handler (.list [.atom message, t.state.currentState, .nat t.fixed.amount]))
        (.strErr "message parser returned error" [])

namespace ChannelState

variable (E : ChannelEnv) (ch : ChannelState)

/-! Proposals. -/

def refereeParties (nonce : ℕ) : RefereeParties where
  refereeCoinPuzzleHash := E.refereeCoinPuzzleHash
  myIdentity := ⟨ch.privateKeys.myRefereePrivateKey⟩
  theirPubkey := ch.theirRefereePubkey
  theirRewardPuzzleHash := ch.theirRewardPuzzleHash
  theirRewardPayoutSignature := ch.theirRewardPayoutSignature
  rewardPuzzleHash := ch.rewardPuzzleHash
  nonce

def newProposedGame (startInfo : GameStartInfo) (groupId : GameID) : Except Error ProposedGame := do
  let (r, ph) ← Referee.new E.toEnv startInfo (ch.refereeParties E startInfo.gameId) ch.stateNumber
  .ok {
    gameId := startInfo.gameId
    groupId
    initialPuzzleHash := ph
    referee := r
    myContribution := startInfo.myContributionThisGame
    theirContribution := startInfo.theirContributionThisGame }

def sendProposeGame (startInfo : GameStartInfo) (groupId : GameID) : Act Error ChannelState Unit := do
  let proposal ← Act.lift ((← get).newProposedGame E startInfo groupId)
  modify fun ch => { ch with proposedGames := ch.proposedGames ++ [proposal] }

def maxNonceGap : ℕ := 1000
def maxProposals : ℕ := 100

/-- The checks on a received proposal. -/
def checkReceivedProposal (startInfo : GameStartInfo) : Except Error Unit :=
  let newGameNonce := startInfo.gameId
  let expectedParity := ch.theirNextNonce % 2
  let mine := startInfo.myContributionThisGame
  let theirs := startInfo.theirContributionThisGame
  if newGameNonce % 2 ≠ expectedParity then
    .error (.strErr "received nonce has wrong parity" [.nat newGameNonce, .nat expectedParity])
  else if newGameNonce < ch.theirNextNonce then
    .error (.strErr "received nonce < minimum expected" [.nat newGameNonce, .nat ch.theirNextNonce])
  else if newGameNonce > ch.theirNextNonce + maxNonceGap then
    .error (.strErr "received nonce too far ahead of expected"
      [.nat newGameNonce, .nat ch.theirNextNonce, .nat maxNonceGap])
  else if 2 ^ 64 ≤ mine + theirs then
    .error (.strErr "proposal contributions overflow" [.nat mine, .nat theirs])
  else if startInfo.amount ≠ mine + theirs then
    .error (.strErr "proposal amount != my_contribution + their_contribution"
      [.nat startInfo.amount, .nat mine, .nat theirs])
  else if startInfo.timeout = 0 then
    .error (.strErr "proposal game_timeout must be positive" [.nat startInfo.timeout])
  else if maxProposals ≤ ch.proposedGames.length then
    .error (.strErr "too many outstanding proposals"
      [.nat ch.proposedGames.length, .nat maxProposals])
  else .ok ()

def applyReceivedProposal (startInfo : GameStartInfo) (groupId : GameID) :
    Act Error ChannelState Unit := do
  let ch ← get
  Act.lift (ch.checkReceivedProposal startInfo)
  let proposal ← Act.lift (ch.newProposedGame E startInfo groupId)
  modify fun ch => { ch with
    theirNextNonce := startInfo.gameId + 2
    proposedGames := ch.proposedGames ++ [proposal] }

def findProposal (gameId : GameID) : Option ProposedGame :=
  ch.proposedGames.find? fun p => p.gameId = gameId

def isGameProposed (gameId : GameID) : Bool := (ch.findProposal gameId).isSome

def withoutProposal (gameId : GameID) : ChannelState :=
  { ch with proposedGames := ch.proposedGames.eraseP fun p => p.gameId = gameId }

/-- A game of an accepted proposal. -/
def ofProposal (proposal : ProposedGame) : LiveGame where
  gameId := proposal.gameId
  lastRefereePuzzleHash := proposal.initialPuzzleHash
  refereeMaker := proposal.referee
  myContribution := proposal.myContribution
  theirContribution := proposal.theirContribution

def acceptProposalInner (gameId : GameID) : Act Error ChannelState Unit := do
  let ch ← get
  match ch.findProposal gameId with
  | none => throw (.strErr "no proposal with id" [.nat gameId])
  | some proposal =>
    if proposal.myContribution > ch.myOutOfGameBalance ∨
        proposal.theirContribution > ch.theirOutOfGameBalance then
      throw (.strErr "insufficient balance to accept proposal" [])
    else
      set { ch.withoutProposal gameId with
        myAllocatedBalance := ch.myAllocatedBalance + proposal.myContribution
        theirAllocatedBalance := ch.theirAllocatedBalance + proposal.theirContribution
        myOutOfGameBalance := ch.myOutOfGameBalance - proposal.myContribution
        theirOutOfGameBalance := ch.theirOutOfGameBalance - proposal.theirContribution
        liveGames := ch.liveGames ++ [ofProposal proposal] }

def pushCachedAction (entry : CachedRedoActions) : Act Error ChannelState Unit :=
  modify fun ch => { ch with cachedRedoActions := ch.cachedRedoActions ++ [entry] }

def sendAcceptProposal (gameId : GameID) : Act Error ChannelState Unit := do
  acceptProposalInner gameId
  pushCachedAction (.proposalAccepted gameId)

def applyReceivedAcceptProposal (gameId : GameID) : Act Error ChannelState Unit := do
  if ¬ (← get).isOurNonceParity gameId then
    throw (.strErr "peer attempted to accept their own proposal" [.nat gameId])
  else acceptProposalInner gameId

/-- A proposal is taken back, by either player. -/
def removeProposal (text : String) (gameId : GameID) : Act Error ChannelState Unit := do
  if ¬ (← get).isGameProposed gameId then throw (.strErr text [.nat gameId])
  else modify fun ch => ch.withoutProposal gameId

def sendCancelProposal : GameID → Act Error ChannelState Unit :=
  removeProposal "no proposal with id"

def receivedCancelProposal : GameID → Act Error ChannelState Unit :=
  removeProposal "cancel for unknown proposal"

def cancelAllProposals : Act Error ChannelState (List GameID) := do
  let ids := (← get).proposedGames.map ProposedGame.gameId
  modify fun ch => { ch with proposedGames := [] }
  pure ids

def groupMemberIds (gameId : GameID) : Except Error (List GameID) :=
  match ch.findProposal gameId with
  | none => .error (.strErr "group_member_ids: no proposal with id" [.nat gameId])
  | some proposal =>
    .ok ((ch.proposedGames.filter fun p => p.groupId = proposal.groupId).map ProposedGame.gameId)

def pendingPeerProposalIds : List GameID :=
  (ch.proposedGames.filter fun p => ¬ ch.isOurNonceParity p.gameId).map ProposedGame.gameId

def allocateMyNonce : Act Error ChannelState GameID := do
  let n := (← get).myNextNonce
  modify fun ch => { ch with myNextNonce := ch.myNextNonce + 2 }
  pure n

/-! Live games. -/

def findLiveGame (gameId : GameID) : Option LiveGame := ch.liveGames.find? fun g => g.gameId = gameId

def getGameById (gameId : GameID) : Except Error LiveGame :=
  orError (ch.findLiveGame gameId) (.strErr "no live game with the given game id" [])

def isGameFinished (gameId : GameID) : Except Error Bool := do
  let game ← ch.getGameById gameId
  .ok (game.isMyTurn && game.isGameOver)

def gameIsMyTurn (gameId : GameID) : Option Bool :=
  match ch.findLiveGame gameId with
  | some g => some g.isMyTurn
  | none => (ch.findProposal gameId).map fun p => p.referee.isMyTurn

def sendMoveNoFinalize (gameId : GameID) (readableMove : Clvm) (newEntropy : Hash) :
    Act Error ChannelState MoveResult := do
  let ch ← get
  let game ← Act.lift (ch.getGameById gameId)
  let (moved, result) ←
    Act.lift (game.internalMakeMove E.toEnv readableMove newEntropy ch.stateNumber)
  set { ch with liveGames := putGame moved ch.liveGames }
  pushCachedAction (.cachedSendMove {
    stateNumber := ch.stateNumber
    gameId
    matchPuzzleHash := result.puzzleHashForUnroll
    puzzleHash := result.puzzleHashForUnroll
    amount := result.details.basic.moverShare
    savedPostMoveReferee := some moved.refereeMaker
    savedPostMoveLastPh := some moved.lastRefereePuzzleHash })
  pure ⟨ch.stateNumber, result.details, moved.isGameOver⟩

def applyReceivedMove (gameId : GameID) (gameMove : GameMoveDetails) :
    Act Error ChannelState ChannelMoveResult := do
  let ch ← get
  let game ← Act.lift (ch.getGameById gameId)
  if gameMove.basic.moverShare > game.getAmount then
    throw (.strErr "received move with mover_share exceeding game amount"
      [.nat gameMove.basic.moverShare, .nat game.getAmount])
  else if gameMove.basic.moveMade.length > game.getMaxMoveSize then
    throw (.strErr "received move exceeds max_move_size"
      [.nat gameMove.basic.moveMade.length, .nat game.getMaxMoveSize])
  else
    let (moved, result) ← Act.lift (game.internalTheirMove E.toEnv gameMove ch.stateNumber)
    set { ch with liveGames := putGame moved ch.liveGames }
    if result.slash.isSome then throw (.strErr "slash when off chain: go on chain" [])
    else pure ⟨ch.stateNumber, result.readableMove, result.message, result.moverShare⟩

def receivedMessage (gameId : GameID) (message : Bytes) : Act Error ChannelState Clvm := do
  let game ← Act.lift ((← get).getGameById gameId)
  Act.lift (game.receiveReadable E.toEnv message)

def enableCheatingForGame (gameId : GameID) (makeMove : Bytes) (moverShare : ℕ) :
    Act Error ChannelState Bool := do
  let ch ← get
  let game ← Act.lift (ch.getGameById gameId)
  let (game, enabled) := game.enableCheating makeMove moverShare
  set { ch with liveGames := putGame game ch.liveGames }
  pure enabled

/-! Settlements. -/

def withoutGame (gameId : GameID) : ChannelState :=
  { ch with liveGames := ch.liveGames.eraseP fun g => g.gameId = gameId }

/-- The mutations before an error are the source's: a subtraction that fails leaves the earlier
ones in place. -/
def sendAcceptSettlementNoFinalize (gameId : GameID) : Act Error ChannelState ℕ := do
  if ¬ (← get).havePotato then
    throw (.strErr "send_accept_settlement_no_finalize: must have potato" [])
  else
    let liveGame ← Act.lift ((← get).getGameById gameId)
    if ¬ liveGame.isMyTurn then
      throw (.strErr "accept_settlement requires it to be our turn" [])
    else
      modify fun ch => ch.withoutGame gameId
      let mine ← Act.lift (amountCheckedSub (← get).myAllocatedBalance liveGame.myContribution)
      modify fun ch => { ch with myAllocatedBalance := mine }
      let theirs ← Act.lift (amountCheckedSub (← get).theirAllocatedBalance liveGame.theirContribution)
      modify fun ch => { ch with theirAllocatedBalance := theirs }
      let amount ← Act.lift liveGame.getOurCurrentShare
      let atStake := liveGame.getAmount
      modify fun ch => { ch with
        pendingSettlements := ch.pendingSettlements ++ [liveGame]
        myOutOfGameBalance := ch.myOutOfGameBalance + amount }
      let rest ← Act.lift (amountCheckedSub atStake amount)
      modify fun ch => { ch with theirOutOfGameBalance := ch.theirOutOfGameBalance + rest }
      pushCachedAction (.cachedAcceptSettlement {
        gameId
        puzzleHash := liveGame.lastRefereePuzzleHash
        liveGame
        atStakeAmount := atStake
        ourShareAmount := amount
        gameFinished := liveGame.isGameOver })
      pure amount

def applyReceivedAcceptSettlement (gameId : GameID) : Act Error ChannelState (ℕ × Bool) := do
  let game ← Act.lift ((← get).getGameById gameId)
  if game.isMyTurn then
    throw (.strErr "received AcceptSettlement for game but it is our turn" [.nat gameId])
  else
    let forMe ← Act.lift game.getOurCurrentShare
    let forThem ← Act.lift (amountCheckedSub game.getAmount forMe)
    let mine ← Act.lift (amountCheckedSub (← get).myAllocatedBalance game.myContribution)
    modify fun ch => { ch with myAllocatedBalance := mine }
    let theirs ← Act.lift (amountCheckedSub (← get).theirAllocatedBalance game.theirContribution)
    modify fun ch => { ch with
      theirAllocatedBalance := theirs
      myOutOfGameBalance := ch.myOutOfGameBalance + forMe
      theirOutOfGameBalance := ch.theirOutOfGameBalance + forThem }
    modify fun ch => { ch.withoutGame gameId with
      pendingSettlements := ch.pendingSettlements ++ [game] }
    pure (forMe, game.isGameOver)

/-- The settlements that the round trip has confirmed, taken out of the cache. -/
def drainCachedAcceptSettlements : Act Error ChannelState (List (GameID × ℕ × Bool)) := do
  let ch ← get
  set { ch with cachedRedoActions := ch.cachedRedoActions.filter fun entry =>
    match entry with
    | .cachedAcceptSettlement _ => false
    | _ => true }
  pure (ch.cachedRedoActions.filterMap fun entry =>
    match entry with
    | .cachedAcceptSettlement a => some (a.gameId, a.ourShareAmount, a.gameFinished)
    | _ => none)

/-- The conditions of a clean shutdown: each balance to its owner. -/
def getConditionsWithChannelState : Clvm :=
  let ours := if ch.getOurCurrentShare ≠ 0 then
    [createCoin ch.rewardPuzzleHash ch.getOurCurrentShare] else []
  let theirs := if ch.getTheirCurrentShare ≠ 0 then
    [createCoin ch.theirRewardPuzzleHash ch.getTheirCurrentShare] else []
  .list (ours ++ theirs)

end ChannelState

end ChiaGaming
