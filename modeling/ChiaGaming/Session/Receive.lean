import ChiaGaming.Lib.Serialize
import ChiaGaming.Session.OffChain

namespace ChiaGaming

namespace OffChainPhase

variable (E : ChannelEnv)

/-! Receiving a batch. -/

/-- An empty batch that only passes the potato on. -/
def passPotato : Act Error OffChainPhase (List Effect) := do
  let signatures ← onChannel (ChannelState.sendEmptyPotato E)
  modify fun p => { p with havePotato := .absent }
  pure [.peerBatch ⟨[], signatures, none⟩]

/-- The drain after a receipt: an error that has an action to its name becomes a notification. -/
def drainAfterReceive : Act Error OffChainPhase (Option (Bool × List Effect) × List Effect) := fun p =>
  match drainQueueIntoBatch E p with
  | .ok result p' => .ok (some result, []) p'
  | .error e p' =>
    match p'.lastFailedQueuedAction with
    | some (gameId, action) =>
      .ok (none, [.notify (.actionFailed (some gameId) (some action) e)])
        { p' with lastFailedQueuedAction := none }
    | none => .error e p'

/-- The settlements that the receipt confirms. -/
def notifySettlements : Act Error OffChainPhase (List Effect) := do
  let settled ← onChannel ChannelState.drainCachedAcceptSettlements
  pure (settled.map fun s => .notify (.gameSettled s.1 s.2.1))

def updateChannelCoinAfterReceive (spend : ChannelCoinSpendInfo) (sendBack : Bool) :
    Act Error OffChainPhase (List Effect) := do
  modify fun p => { p with havePotato := .present, lastChannelCoinSpendInfo := some spend }
  let settled ← notifySettlements
  let ch ← channel
  if sendBack ∧ ch.getTheirCurrentShare = 0 ∧ ¬ ch.hasActiveGames then
    pushAction .cleanShutdown
  let (drained, failed) ← drainAfterReceive E
  match drained with
  | none => pure (settled ++ failed)
  | some (sent, batchEffects) =>
    if sent then pure (settled ++ batchEffects)
    else if (← get).peerWantsPotato then
      modify fun p => { p with peerWantsPotato := false }
      let passed ← passPotato E
      pure (settled ++ batchEffects ++ passed)
    else if sendBack then
      let passed ← passPotato E
      pure (settled ++ batchEffects ++ passed)
    else pure (settled ++ batchEffects)

/-- A group is accepted or cancelled as a whole. -/
def checkGroups (ch : ChannelState) (operation : String) (ids : List GameID) : Except Error Unit :=
  ids.forM fun id => do
    let members ← ch.groupMemberIds id
    if members.length > 1 then
      members.forM fun member =>
        if member ∈ ids then .ok ()
        else .error (.strErr ("partial group " ++ operation ++ " is a protocol violation")
          [.nat id, .nat member])
    else .ok ()

def acceptedIds (actions : List BatchAction) : List GameID :=
  actions.filterMap fun action =>
    match action with
    | .acceptProposal gameId => some gameId
    | _ => none

def cancelledIds (actions : List BatchAction) : List GameID :=
  actions.filterMap fun action =>
    match action with
    | .cancelProposal gameId => some gameId
    | _ => none

def isProposalGroup : GameAction → Bool
  | .queuedProposalGroup _ _ => true
  | _ => false

/-- The groups that an incoming proposal takes the place of, by their first games. -/
def supersededIds (queue : List GameAction) : List GameID :=
  queue.filterMap fun action =>
    match action with
    | .queuedProposalGroup games _ => games.head?.map GameStartInfo.gameId
    | _ => none

/-- An incoming proposal supersedes our own waiting ones, even if its game type is unknown. -/
def applyProposeGroup (wire : WireProposalGroup) : Act Error OffChainPhase (List Effect) := do
  let cancelled := supersededIds (← get).gameActionQueue
  modify fun p => { p with
    gameActionQueue := p.gameActionQueue.filter fun action => !isProposalGroup action }
  let superseded := cancelled.map fun id =>
    Effect.notify (.proposalCancelled id .supersededByIncoming)
  if ((← get).gameTypes.lookup wire.start.gameType).isNone then pure superseded
  else
    let games ← hydrateWireProposalGroup E wire
    let _ ← onChannel (Act.each (fun game => do
      ChannelState.applyReceivedProposal E game wire.groupId
      pure ([] : List Unit)) games)
    match games with
    | [] => throw (.strErr "factory returned empty proposal group" [])
    | first :: _ =>
      pure (superseded ++ [.notify (.proposalMade first.gameId (games.map GameStartInfo.gameId)
        (games.map GameStartInfo.myContributionThisGame).sum
        (games.map GameStartInfo.theirContributionThisGame).sum first.timeout
        first.initialValidationProgram.hash first.initialState wire.start.gameType)])

def applyMove (gameId : GameID) (gameMove : GameMoveDetails) :
    Act Error OffChainPhase (List Effect) := do
  let result ← onChannel (ChannelState.applyReceivedMove E gameId gameMove)
  let finished ← Act.lift ((← channel).isGameFinished gameId)
  if finished then pushAction (.acceptSettlement gameId)
  pure (.notify (.gameStatus gameId true result.readableTheirMove (some result.moverShare) finished)
    :: if result.message ≠ [] then [.peerGameMessage gameId result.message] else [])

def applyBatchAction : BatchAction → Act Error OffChainPhase (List Effect)
  | .proposeGroup wire => applyProposeGroup E wire
  | .acceptProposal gameId => do
    match (← channel).findProposal gameId with
    | none => throw (.strErr "missing accepted proposal" [.nat gameId])
    | some proposal =>
      onChannel (ChannelState.applyReceivedAcceptProposal gameId)
      pure [.notify (.proposalAccepted gameId
        (proposal.myContribution + proposal.theirContribution))]
  | .cancelProposal gameId => do
    onChannel (ChannelState.receivedCancelProposal gameId)
    pure [.notify (.proposalCancelled gameId .cancelledByPeer)]
  | .move gameId gameMove => applyMove E gameId gameMove
  | .acceptSettlement gameId _ => do
    let (ourReward, _) ← onChannel (ChannelState.applyReceivedAcceptSettlement gameId)
    pure [.notify (.gameSettled gameId ourReward)]

def isNewGame : BatchAction → Bool
  | .proposeGroup _ => true
  | .acceptProposal _ => true
  | _ => false

def isAcceptSettlement : BatchAction → Bool
  | .acceptSettlement _ _ => true
  | _ => false

/-- The actions of a batch, applied after the check on groups. -/
def applyActions (actions : List BatchAction) : Act Error OffChainPhase (List Effect) := do
  let ch ← channel
  Act.lift (checkGroups ch "accept" (acceptedIds actions))
  Act.lift (checkGroups ch "cancel" (cancelledIds actions))
  let effects ← Act.each (applyBatchAction E) actions
  if actions.any isNewGame then
    modify fun p => { p with
      gameActionQueue := p.gameActionQueue.filter fun action => action ≠ .cleanShutdown }
  pure effects

/-- The peer's shutdown conditions have to be our own, in any order. -/
def checkShutdownConditions (ch : ChannelState) (conditions : Clvm) : Except Error Unit := do
  let peerConds ← orError conditions.properList
    (.strErr "clean shutdown conditions: peer conditions are not a proper list" [])
  let expectedConds ← orError ch.getConditionsWithChannelState.properList
    (.strErr "clean shutdown conditions: expected conditions are not a proper list" [])
  if peerConds.length ≠ expectedConds.length then
    .error (.strErr "clean shutdown conditions: wrong number of conditions" [])
  else
    let peerSerialized ← orError (nodesToBytes peerConds) .clvmErr
    let expectedSerialized ← orError (nodesToBytes expectedConds) .clvmErr
    if sortBytes peerSerialized ≠ sortBytes expectedSerialized then
      .error (.strErr "clean shutdown conditions don't match expected payout" [])
    else .ok ()

def receiveCleanShutdown (sig : Aggsig) (conditions : Clvm) :
    Act Error OffChainPhase (List Effect) := do
  if (← channel).hasActiveGames then
    throw (.strErr "opponent requested clean shutdown while games are active" [])
  else
    let cancelled ← onChannel ChannelState.cancelAllProposals
    let ch ← channel
    Act.lift (checkShutdownConditions ch conditions)
    let zeroPayout := ch.hasZeroPayout
    let fullSpend ← Act.lift (ch.receivedPotatoCleanShutdown E sig conditions)
    let settled ← notifySettlements
    let coinSpend : CoinSpend := ⟨ch.channelCoin, .standard ch.getAggregateChannelPublicKey,
      fullSpend.solution, fullSpend.signature⟩
    let p ← get
    set { p with
      channelState := none
      gameActionQueue := []
      lastChannelCoinSpendInfo := none
      channelSpendNextPhase := some {
        entry := .channelSpend
        channelCoin := ch.channelCoin
        channelState := p.channelState
        gameActionQueue := p.gameActionQueue
        havePotato := .present
        advisory := none
        channelSpendStartedLocally := none
        expectedCleanShutdownSolution := some fullSpend.solution
        lastChannelCoinSpendInfo := p.lastChannelCoinSpendInfo } }
    pure ((cancelled.map fun id => .notify (.proposalCancelled id .cleanShutdown)) ++ settled ++
      if zeroPayout then [.queueTerminalHandoff coinSpend]
      else [.spendTransaction [coinSpend], .peerCleanShutdownComplete coinSpend])

def processReceivedBatch (b : PeerBatch) : Act Error OffChainPhase (List Effect) := do
  let applied ← applyActions E b.actions
  match b.cleanShutdown with
  | some (sig, conditions) =>
    let shutdown ← receiveCleanShutdown E sig conditions
    pure (applied ++ shutdown)
  | none =>
    let spendInfo ← onChannel (ChannelState.verifyReceivedBatchSignatures E b.signatures)
    let after ← updateChannelCoinAfterReceive E spendInfo
      (b.actions.any isAcceptSettlement)
    pure (applied ++ after)

/-- A batch that fails takes the channel state and the queue back, and nothing else. -/
def passOnBatch (b : PeerBatch) : Act Error OffChainPhase (List Effect) := fun p =>
  match processReceivedBatch E b p with
  | .ok effects p' => .ok effects p'
  | .error e p' =>
    .error e { p' with
      channelState := p.channelState
      gameActionQueue := p.gameActionQueue }

def passOnMessage (gameId : GameID) (data : Bytes) : Act Error OffChainPhase (List Effect) := do
  let decoded ← onChannel (ChannelState.receivedMessage E gameId data)
  match (← channel).gameIsMyTurn gameId with
  | some myTurn => pure [.notify (.gameStatus gameId myTurn decoded none false)]
  | none => throw (.strErr "received_message: no turn mapping for game" [.nat gameId])

def passOnCleanShutdownComplete (coinSpend : CoinSpend) : Act Error OffChainPhase (List Effect) := do
  let p ← get
  match p.pendingCleanShutdown with
  | some (coin, solution) =>
    set { p with
      channelState := none
      gameActionQueue := []
      lastChannelCoinSpendInfo := none
      pendingCleanShutdown := none
      channelSpendNextPhase := some {
        entry := .channelSpend
        channelCoin := coin
        channelState := p.channelState
        gameActionQueue := p.gameActionQueue
        havePotato := p.havePotato
        advisory := none
        channelSpendStartedLocally := none
        expectedCleanShutdownSolution := some solution
        lastChannelCoinSpendInfo := p.lastChannelCoinSpendInfo } }
  | none => pure ()
  if p.channelState.any ChannelState.hasZeroPayout then pure [.completeZeroPayoutShutdown]
  else pure [.spendTransaction [coinSpend]]

def passOnChannelStateMessage : PeerMessage → Act Error OffChainPhase (List Effect)
  | .batch b => passOnBatch E b
  | .message gameId data => passOnMessage E gameId data
  | .cleanShutdownComplete coinSpend => passOnCleanShutdownComplete coinSpend
  | _ => throw (.strErr "unhandled passthrough message" [])

/-- A message that was taken from the queue. -/
def processMessage (msg : PeerMessage) : Act Error OffChainPhase (List Effect) := do
  let p ← get
  if p.pendingCleanShutdown.isSome then
    match msg with
    | .cleanShutdownComplete coinSpend => passOnCleanShutdownComplete coinSpend
    | .requestPotato => pure []
    | _ => throw (.strErr "expected CleanShutdownComplete" [])
  else
    match msg with
    | .handshakeF => pure []
    | .requestPotato =>
      modify fun p => { p with peerWantsPotato := true }
      if p.havePotato = .present then
        let passed ← passPotato E
        modify fun p => { p with peerWantsPotato := false }
        pure passed
      else pure []
    | .batch b =>
      if p.havePotato = .present then
        throw (.strErr "received batch while we hold the potato (double-potato)" [])
      else passOnChannelStateMessage E (.batch b)
    | msg => passOnChannelStateMessage E msg

def processQueuedMessage : Act Error OffChainPhase (List Effect) := do
  match (← get).incomingMessages with
  | [] => pure []
  | msg :: rest =>
    modify fun p => { p with incomingMessages := rest }
    processMessage E msg

/-- A decoded message; an error sends the channel on chain. -/
def receivedMessage (msg : PeerMessage) : Act Error OffChainPhase (List Effect) := fun p =>
  match processQueuedMessage E { p with incomingMessages := p.incomingMessages ++ [msg] } with
  | .ok effects p' => .ok effects p'
  | .error _ p' => .ok [.goOnChainAfterPeerError] p'

def goOnChain (gotError : Bool) : Act Error OffChainPhase (List Effect) := do
  let cancelled ← onChannel ChannelState.cancelAllProposals
  let p ← get
  let saved ← Act.lift (orError p.lastChannelCoinSpendInfo
    (.strErr "go_on_chain: no channel coin spend info cached" []))
  let ch ← channel
  set { p with
    channelState := none
    gameActionQueue := []
    lastChannelCoinSpendInfo := none
    channelSpendNextPhase := some {
      entry := .channelSpend
      channelCoin := ch.channelCoin
      channelState := some ch
      gameActionQueue := p.gameActionQueue
      havePotato := p.havePotato
      advisory := if gotError then some "error receiving peer message" else none
      channelSpendStartedLocally := some true
      expectedCleanShutdownSolution := none
      lastChannelCoinSpendInfo := some saved } }
  pure ((cancelled.map fun id => .notify (.proposalCancelled id .wentOnChain)) ++
    [.spendTransaction [⟨ch.channelCoin, .standard ch.getAggregateChannelPublicKey, saved.solution,
      saved.aggsig⟩]])

/-! What the local player asks for. -/

def proposeGame (start : GameProposal) : Act Error OffChainPhase (List GameID × List Effect) := do
  modify fun p => { p with
    gameActionQueue := p.gameActionQueue.filter fun action => action ≠ .cleanShutdown }
  if (← channel).pendingPeerProposalIds ≠ [] then
    -- the identifier is used up although nothing is proposed
    let cancelledId ← onChannel ChannelState.allocateMyNonce
    pure ([cancelledId], [.notify (.proposalCancelled cancelledId .peerProposalPending)])
  else
    let games ← factoryGames E start
    if games = [] then
      throw (.strErr "propose_games: factory returned empty proposal group" [])
    else
      let ids ← onChannel (Act.each (fun _ => do
        let n ← ChannelState.allocateMyNonce
        pure [n]) games)
      pushAction (.queuedProposalGroup
        ((games.zip ids).map fun pair => pair.1.gameStart pair.2 start.timeout true)
        ⟨start, (games.zip ids).map fun pair => pair.1.wireSpec pair.2, ids.headD 0⟩)
      let effects ← sendPotatoRequestIfNeeded
      pure (ids, effects)

/-- The contributions of the members named, on each side. -/
def requiredBalances (ch : ChannelState) : List GameID → Except Error (ℕ × ℕ)
  | [] => .ok (0, 0)
  | id :: ids => do
    let proposal ← orError (ch.findProposal id) (.strErr "missing proposal group member" [.nat id])
    let (ours, theirs) ← requiredBalances ch ids
    .ok (proposal.myContribution + ours, proposal.theirContribution + theirs)

def acceptedNotifications (ch : ChannelState) (ids : List GameID) : List Effect :=
  ids.filterMap fun id => (ch.findProposal id).map fun proposal =>
    .notify (.proposalAccepted id (proposal.myContribution + proposal.theirContribution))

def acceptProposal (gameId : GameID) : Act Error OffChainPhase (List Effect) := do
  let ch ← channel
  let groupIds ← Act.lift (ch.groupMemberIds gameId)
  let (ours, theirs) ← Act.lift (requiredBalances ch groupIds)
  let ourShort : Bool := ours > ch.myOutOfGameBalance
  let theirShort : Bool := theirs > ch.theirOutOfGameBalance
  if ourShort || theirShort then
    let effects ← Act.each (fun id => doGameAction (.queuedCancelProposalSilently id)) groupIds
    pure (acceptedNotifications ch groupIds ++
      .notify (.insufficientBalance gameId ourShort theirShort) :: effects)
  else Act.each (fun id => doGameAction (.queuedAcceptProposal id)) groupIds

def cancelProposal (gameId : GameID) : Act Error OffChainPhase (List Effect) := do
  let groupIds ← Act.lift ((← channel).groupMemberIds gameId)
  Act.each (fun id => doGameAction (.queuedCancelProposal id)) groupIds

def makeMove (gameId : GameID) (readable : Clvm) (newEntropy : Hash) :
    Act Error OffChainPhase (List Effect) := doGameAction (.move gameId readable newEntropy)

def acceptSettlement (gameId : GameID) : Act Error OffChainPhase (List Effect) :=
  doGameAction (.acceptSettlement gameId)

def shutDown : Act Error OffChainPhase (List Effect) := doGameAction .cleanShutdown

def cheatGame (gameId : GameID) (moverShare : ℕ) (entropy : Hash) :
    Act Error OffChainPhase (List Effect) := doGameAction (.cheat gameId moverShare entropy)

end OffChainPhase

end ChiaGaming
