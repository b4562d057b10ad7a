import ChiaGaming.Session.Types

namespace ChiaGaming

namespace OffChainPhase

variable (E : ChannelEnv)

/-! The channel state is there until the phase hands it over. -/

def channel : Act Error OffChainPhase ChannelState := do
  Act.lift (orError (← get).channelState (.strErr "no channel handler" []))

/-- A method of the channel state, with its mutations kept when it fails. -/
def onChannel {α : Type} (x : Act Error ChannelState α) : Act Error OffChainPhase α := fun p =>
  match p.channelState with
  | none => .error (.strErr "no channel handler" []) p
  | some ch =>
    match x ch with
    | .ok a ch' => .ok a { p with channelState := some ch' }
    | .error e ch' => .error e { p with channelState := some ch' }

def hasPotato (p : OffChainPhase) : Bool := p.havePotato = .present

def pushAction (action : GameAction) : Act Error OffChainPhase Unit :=
  modify fun p => { p with gameActionQueue := p.gameActionQueue ++ [action] }

def sendPotatoRequestIfNeeded : Act Error OffChainPhase (List Effect) := do
  match (← get).havePotato with
  | .absent =>
    modify fun p => { p with havePotato := .requested }
    pure [.peerRequestPotato]
  | _ => pure []

def doGameAction (action : GameAction) : Act Error OffChainPhase (List Effect) := do
  pushAction action
  sendPotatoRequestIfNeeded

/-! Proposal groups. -/

def factoryGames (start : GameProposal) : Act Error OffChainPhase (List FactoryGame) := do
  match (← get).gameTypes.lookup start.gameType with
  | none => throw (.strErr "no such game" [.atom start.gameType])
  | some none => throw (.strErr "GameFactory program missing" [])
  | some (some program) => Act.lift (runFactory E program start.parameters)

/-- The members' identifiers, if there are as many as the factory has games, without repetition and
with the first of them naming the group. -/
def validateWireGroupStructure (wire : WireProposalGroup) (expectedMembers : ℕ) :
    Except Error (List GameID) :=
  let ids := wire.members.map WireGameSpec.gameId
  if wire.members.length ≠ expectedMembers then
    .error (.strErr "proposal group members do not match the factory"
      [.nat wire.members.length, .nat expectedMembers])
  else if wire.members = [] then .error (.strErr "proposal group is empty" [])
  else if ¬ ids.Nodup then .error (.strErr "proposal group contains duplicate game ids" [])
  else if ids.head? ≠ some wire.groupId then
    .error (.strErr "proposal group_id does not match first member" [.nat wire.groupId])
  else .ok ids

/-- Each member says what the factory says. -/
def membersMatch (games : List FactoryGame) (members : List WireGameSpec) : Bool :=
  (games.zip members).all fun pair => pair.2 = pair.1.wireSpec pair.2.gameId

def hydrateWireProposalGroup (wire : WireProposalGroup) :
    Act Error OffChainPhase (List GameStartInfo) := do
  let games ← factoryGames E wire.start
  let ids ← Act.lift (validateWireGroupStructure wire games.length)
  if ¬ membersMatch games wire.members then
    throw (.strErr "proposal group member does not match factory output" [])
  else pure ((games.zip ids).map fun pair => pair.1.gameStart pair.2 wire.start.timeout false)

/-! Draining the queue of local actions into one batch. -/

/-- What a drain has put together so far. -/
structure Drain where
  effects : List Effect
  batchActions : List BatchAction
  cleanShutdownData : Option (Aggsig × Clvm)
  pendingShutdown : Option (CoinString × Clvm)
  deferred : List GameAction

def Drain.empty : Drain := ⟨[], [], none, none, []⟩

def Drain.batch (d : Drain) (action : BatchAction) : Drain :=
  { d with batchActions := d.batchActions ++ [action] }

def Drain.notify (d : Drain) (ns : List GameNotification) : Drain :=
  { d with effects := d.effects ++ ns.map .notify }

def Drain.defer (d : Drain) (action : GameAction) : Drain :=
  { d with deferred := d.deferred ++ [action] }

/-- The action that an error is put down to. -/
def failedAction : GameAction → Option (GameID × FailedGameAction)
  | .move gameId _ _ => some (gameId, .makeMove)
  | .acceptSettlement gameId => some (gameId, .acceptSettlement)
  | _ => none

/-- A move that the handler turned down is reported, and the queue goes on. -/
def drainMove (d : Drain) (gameId : GameID) (readableMove : Clvm) (newEntropy : Hash) :
    Act Error OffChainPhase Drain := do
  if (← channel).gameIsMyTurn gameId ≠ some true then
    pure (d.defer (.move gameId readableMove newEntropy))
  else
    fun p => match onChannel (ChannelState.sendMoveNoFinalize E gameId readableMove newEntropy) p with
      | .ok result p' => .ok (d.batch (.move gameId result.gameMove)) p'
      | .error (.gameMoveRejected tag message) p' =>
        .ok (d.notify [.moveRejected gameId tag message]) p'
      | .error e p' => .error e p'

def drainCheat (d : Drain) (gameId : GameID) (moverShare : ℕ) (entropy : Hash) :
    Act Error OffChainPhase Drain := do
  if (← channel).gameIsMyTurn gameId ≠ some true then
    pure (d.defer (.cheat gameId moverShare entropy))
  else
    let _ ← onChannel (ChannelState.enableCheatingForGame gameId [0x80] moverShare)
    let result ← onChannel (ChannelState.sendMoveNoFinalize E gameId .nil entropy)
    pure (d.batch (.move gameId result.gameMove))

/-- The one action that puts the channel state back when it fails. -/
def drainProposalGroup (d : Drain) (myGames : List GameStartInfo) (theirWire : WireProposalGroup) :
    Act Error OffChainPhase Drain := fun p =>
  match onChannel (Act.each (fun game => do
      ChannelState.sendProposeGame E game theirWire.groupId
      pure ([] : List Unit)) myGames) p with
  | .ok _ p' => .ok (d.batch (.proposeGroup theirWire)) p'
  | .error e p' => .error e { p' with channelState := p.channelState }

def drainAcceptProposal (d : Drain) (gameId : GameID) : Act Error OffChainPhase Drain := do
  let ch ← channel
  match ch.findProposal gameId with
  | none => throw (.strErr "queued accept for missing proposal" [.nat gameId])
  | some proposal =>
    if ch.isOurNonceParity gameId then throw (.strErr "cannot accept own proposal" [])
    else
      let amount := proposal.myContribution + proposal.theirContribution
      let ourShort : Bool := proposal.myContribution > ch.myOutOfGameBalance
      let theirShort : Bool := proposal.theirContribution > ch.theirOutOfGameBalance
      if ourShort || theirShort then
        onChannel (ChannelState.sendCancelProposal gameId)
        pure ((d.notify [.proposalAccepted gameId amount,
          .insufficientBalance gameId ourShort theirShort]).batch (.cancelProposal gameId))
      else
        onChannel (ChannelState.sendAcceptProposal gameId)
        pure ((d.notify [.proposalAccepted gameId amount]).batch (.acceptProposal gameId))

def drainCancelProposal (text : String) (d : Drain) (gameId : GameID)
    (notifications : List GameNotification) : Act Error OffChainPhase Drain := do
  if ¬ (← channel).isGameProposed gameId then throw (.strErr text [.nat gameId])
  else
    onChannel (ChannelState.sendCancelProposal gameId)
    pure ((d.notify notifications).batch (.cancelProposal gameId))

def drainCleanShutdown (d : Drain) : Act Error OffChainPhase Drain := do
  if (← channel).hasActiveGames then
    throw (.strErr "cannot clean shutdown while games are active" [])
  else
    let cancelledIds ← onChannel ChannelState.cancelAllProposals
    let ch ← channel
    let conditions := ch.getConditionsWithChannelState
    let spend ← Act.lift (ch.sendPotatoCleanShutdown E conditions)
    pure { d.notify (cancelledIds.map fun id => .proposalCancelled id .cleanShutdown) with
      cleanShutdownData := some (spend.signature, conditions)
      pendingShutdown := some (ch.channelCoin, spend.solution) }

def drainAction (d : Drain) : GameAction → Act Error OffChainPhase Drain
  | .move gameId readableMove newEntropy => drainMove E d gameId readableMove newEntropy
  | .cheat gameId moverShare entropy => drainCheat E d gameId moverShare entropy
  | .acceptSettlement gameId => do
    let amount ← onChannel (ChannelState.sendAcceptSettlementNoFinalize gameId)
    pure (d.batch (.acceptSettlement gameId amount))
  | .queuedProposalGroup myGames theirWire => drainProposalGroup E d myGames theirWire
  | .queuedAcceptProposal gameId => drainAcceptProposal d gameId
  | .queuedCancelProposal gameId =>
    drainCancelProposal "queued cancel for missing proposal" d gameId
      [.proposalCancelled gameId .cancelledByUs]
  | .queuedCancelProposalSilently gameId =>
    drainCancelProposal "queued silent cancel for missing proposal" d gameId []
  | .cleanShutdown => drainCleanShutdown E d
  | .sendPotato =>
    throw (.strErr "SendPotato action is obsolete and must not appear in the queue" [])

/-- The queue is popped before each action, so an error leaves what comes after it. -/
def drainActions (d : Drain) : List GameAction → Act Error OffChainPhase Drain
  | [] => pure d
  | action :: rest => do
    modify fun p => { p with
      gameActionQueue := rest
      lastFailedQueuedAction := failedAction action }
    let d ← drainAction E d action
    drainActions d rest

/-- The batch of a finished drain leaves with the potato. -/
def packageBatch (d : Drain) : Act Error OffChainPhase (Bool × List Effect) := do
  modify fun p => { p with gameActionQueue := d.deferred }
  if d.batchActions = [] ∧ d.cleanShutdownData = none then
    modify fun p => { p with lastFailedQueuedAction := none }
    pure (false, d.effects)
  else
    let signatures ← onChannel (ChannelState.updateCachedUnrollState E)
    modify fun p => { p with
      havePotato := .absent
      pendingCleanShutdown := d.pendingShutdown.orElse fun _ => p.pendingCleanShutdown
      lastFailedQueuedAction := none }
    pure (true, d.effects ++ [.peerBatch ⟨d.batchActions, signatures, d.cleanShutdownData⟩])

def drainQueueIntoBatch : Act Error OffChainPhase (Bool × List Effect) := do
  if (← get).havePotato ≠ .present then
    throw (.strErr "drain_queue_into_batch: must have potato" [])
  else
    let d ← drainActions E .empty (← get).gameActionQueue
    packageBatch E d

def flushPendingActions : Act Error OffChainPhase (List Effect) := do
  modify fun p => { p with lastFailedQueuedAction := none }
  let p ← get
  if ¬ p.hasPotato ∨ p.gameActionQueue = [] then pure []
  else
    let (_, effects) ← drainQueueIntoBatch E
    pure effects

end OffChainPhase

end ChiaGaming
