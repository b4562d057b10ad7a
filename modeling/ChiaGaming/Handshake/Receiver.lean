import ChiaGaming.Handshake.Types

namespace ChiaGaming

namespace Handshake

inductive ReceiverState (W : Type) where
  | waitingForA
  | sentB (info : HandshakeStepInfo)
  | sentD (info : HandshakeStepInfo)
  | waitingForCompletion (info : HandshakeStepInfo) (aliceBundle : SpendBundle W)
  | finished (step : HandshakeStepWithSpend W)
  | done

structure HandshakeReceiverPhase (W : Type) extends OffChainPhaseInit where
  state : ReceiverState W
  havePotato : PotatoState
  channelState : Option ChannelState
  channelFinishedTransaction : Option (SpendBundle W)
  launcherCoin : Option Common.CoinString
  lastHeight : ℕ
  channelDeadline : Option ℕ
  pendingCoinSpend : Bool
  waitingToStart : Bool
  incomingMessages : List (Message W)
  lastChannelCoinSpendInfo : Option ChannelCoinSpendInfo
  failed : Bool
  failureAdvisory : Option String
  replacement : Option OffChainPhase

namespace HandshakeReceiverPhase

variable {W : Type}

def new (phi : OffChainPhaseInit) : HandshakeReceiverPhase W where
  toOffChainPhaseInit := phi
  state := .waitingForA
  havePotato := .absent
  channelState := none
  channelFinishedTransaction := none
  launcherCoin := none
  lastHeight := 0
  channelDeadline := none
  pendingCoinSpend := false
  waitingToStart := true
  incomingMessages := []
  lastChannelCoinSpendInfo := none
  failed := false
  failureAdvisory := none
  replacement := none

variable (E : HandshakeEnv)

abbrev Method (W α : Type) := Act Error (HandshakeReceiverPhase W) α

def getChannelState (p : HandshakeReceiverPhase W) : Except Error ChannelState :=
  orError p.channelState (.strErr "receiver handshake: no channel handler yet" [])

def getLauncherCoin (p : HandshakeReceiverPhase W) : Except Error Common.CoinString :=
  orError p.launcherCoin (.strErr "launcher_coin not set" [])

def computeNotValidAfterHeight (p : HandshakeReceiverPhase W) : Option ℕ :=
  some (p.lastHeight + p.channelTimeout)

/-! Funding. -/

/-- The wallet is asked to make its spend depend on the channel coin. -/
def buildBobCoinSpendRequest (p : HandshakeReceiverPhase W) : Except Error CoinSpendRequest := do
  let ch ← p.getChannelState
  let launcherCoin ← p.getLauncherCoin
  let annHash := computeCoinAnnouncementHash E (launcherCoinId E launcherCoin) ch.channelCoin.puzzleHash
    ch.channelCoin.amount
  .ok {
    amount := p.myContribution
    conditions := [⟨assertCoinAnnouncement, [annHash]⟩]
    coinId := none
    maxHeight := p.computeNotValidAfterHeight }

def requestCoinSpend : Method W (List (Effect W)) := do
  let coinSpendRequest ← Act.lift ((← get).buildBobCoinSpendRequest E)
  modify fun p => { p with channelDeadline := p.computeNotValidAfterHeight }
  pure [.needCoinSpend coinSpendRequest]

/-- The block height has to be known before the wallet is asked. -/
def requestOrWait : Method W (List (Effect W)) := do
  if 0 < (← get).lastHeight then requestCoinSpend E
  else do
    modify fun p => { p with pendingCoinSpend := true }
    pure []

def verifyAndStoreInitialPeerSignatures (signatures : StateUpdateSignatures) : Method W Unit := fun p =>
  match p.channelState with
  | none => .error (.strErr "receiver handshake: no channel handler yet" []) p
  | some ch =>
    match ch.verifyAndStoreInitialPeerSignatures E.toChannelEnv signatures with
    | .ok spendInfo ch' =>
      .ok () { p with channelState := some ch', lastChannelCoinSpendInfo := some spendInfo }
    | .error _ ch' =>
      .error (.strErr "receiver step E: verify/store initial peer signatures failed" [])
        { p with channelState := some ch' }

/-! The way on. -/

/-- The phase that takes over. -/
def offChainPhase (p : HandshakeReceiverPhase W) (ch : ChannelState) : OffChainPhase where
  initiator := false
  havePotato := p.havePotato
  gameActionQueue := []
  lastFailedQueuedAction := none
  channelState := some ch
  gameTypes := p.gameTypes
  incomingMessages := p.incomingMessages.map Message.kept
  peerWantsPotato := false
  lastChannelCoinSpendInfo := p.lastChannelCoinSpendInfo
  pendingCleanShutdown := none
  channelSpendNextPhase := none

def tryTransitionToPotato : Method W Unit := fun p =>
  if p.replacement.isSome then .ok () p
  else if p.waitingToStart then .ok () p
  else match p.state with
    | .finished _ =>
      match p.channelState with
      | none => .error .panic p
      | some ch => .ok () { p with
          channelState := none
          incomingMessages := []
          havePotato := .absent
          lastChannelCoinSpendInfo := none
          replacement := some (p.offChainPhase ch)
          state := .done }
    | _ => .ok () p

def trySendStepF (info : HandshakeStepInfo) : Method W (List (Effect W)) := do
  match (← get).channelFinishedTransaction with
  | some spend => do
    modify fun p => { p with state := .finished ⟨info, spend⟩ }
    pure [.peerHandshake (.handshakeF spend)]
  | none => pure []

/-! Messages. -/

def pushFront (msg : Message W) : Method W Unit :=
  modify fun p => { p with incomingMessages := msg :: p.incomingMessages }

def receiveA : Message W → Method W (List (Effect W))
  | .handshakeA msg => do
    Act.lift ((← get).checkReceived E msg "HandshakeA")
    let myHsInfo := (← get).myHandshakeB E
    modify fun p => { p with state := .sentB ⟨msg, myHsInfo⟩ }
    pure [.peerHandshake (.handshakeB myHsInfo)]
  | _ => throw (.strErr "Expected handshake A message" [])

/-- The state is taken out for as long as the channel is made, and lost if it cannot be made. -/
def receiveC (info : HandshakeStepInfo) : Message W → Method W (List (Effect W))
  | .handshakeC launcherCoin => do
    Act.lift (checkLauncher E launcherCoin)
    modify fun p => { p with state := .waitingForA }
    let channelState ← Act.lift ((← get).makeChannelState E (launcherCoinId E launcherCoin) true
      info.firstPlayerHsInfo)
    let sigs ← Act.lift channelState.getInitialSignatures
    modify fun p => { p with
      launcherCoin := some launcherCoin
      channelState := some channelState
      lastChannelCoinSpendInfo := none
      state := .sentD info }
    pure [.registerCoin channelState.channelCoin 1000000, .peerHandshake (.handshakeD sigs)]
  | _ => throw (.strErr "Expected handshake C message" [])

def receiveE (info : HandshakeStepInfo) : Message W → Method W (List (Effect W))
  | .handshakeE bundle signatures => do
    verifyAndStoreInitialPeerSignatures E signatures
    let effects ← requestOrWait E
    if bundle.isEmpty then throw (.strErr "No spends to draw the channel coin from" [])
    else do
      modify fun p => { p with state := .waitingForCompletion info bundle }
      let sent ← trySendStepF info
      pure (effects ++ sent)
  | msg => do
    pushFront msg
    pure []

def handle (msg : Message W) : ReceiverState W → Method W (List (Effect W))
  | .waitingForA => receiveA E msg
  | .sentB info => receiveC E info msg
  | .sentD info => receiveE E info msg
  | _ => do
    pushFront msg
    pure []

def processQueuedMessage : Method W (List (Effect W)) := do
  match (← get).incomingMessages with
  | [] => pure []
  | msg :: rest => do
    modify fun p => { p with incomingMessages := rest }
    let effects ← handle E msg (← get).state
    tryTransitionToPotato
    pure effects

def receivedMessage (msg : Message W) : Method W (List (Effect W)) := do
  modify fun p => { p with incomingMessages := p.incomingMessages ++ [msg] }
  processQueuedMessage E

/-! The wallet and the chain. -/

def coinCreated : Method W (List (Effect W)) := do
  if ¬ (← get).waitingToStart then pure []
  else if (← get).channelState.isNone then pure []
  else do
    modify fun p => { p with waitingToStart := false }
    let effects ← match (← get).state with
      | .waitingForCompletion info _ => trySendStepF info
      | _ => pure []
    tryTransitionToPotato
    pure effects

def newBlock (height : ℕ) : Method W (List (Effect W)) := do
  modify fun p => { p with lastHeight := height }
  if (← get).pendingCoinSpend ∧ 0 < height then do
    modify fun p => { p with pendingCoinSpend := false }
    requestCoinSpend E
  else pure []

def channelTransactionCompletion (bundle : SpendBundle W) : Method W (List (Effect W)) := do
  modify fun p => { p with channelFinishedTransaction := some bundle }
  match (← get).state with
  | .waitingForCompletion info _ => do
    let effects ← trySendStepF info
    tryTransitionToPotato
    pure effects
  | _ => pure []

def provideLauncherCoin (_launcherCoin : Common.CoinString) : Method W (List (Effect W)) :=
  throw (.strErr "provide_launcher_coin: receiver does not provide launcher coin" [])

def provideCoinSpendBundle (bundle : SpendBundle W) : Method W (List (Effect W)) := do
  match (← get).state with
  | .waitingForCompletion _ aliceBundle => do
    let finalBundle := aliceBundle ++ bundle
    let effects ← channelTransactionCompletion finalBundle
    pure (effects ++ [.spendTransaction finalBundle (← get).channelDeadline])
  | _ => channelTransactionCompletion bundle

def goOnChain : Method W (List (Effect W)) := do
  modify fun p => { p with failed := true }
  pure []

def walletCallbackFailed (reason : String) : Method W (List (Effect W)) := do
  modify fun p => { p with failed := true, failureAdvisory := some reason }
  pure []

end HandshakeReceiverPhase

end Handshake

end ChiaGaming
