import ChiaGaming.Handshake.Types

namespace ChiaGaming

namespace Handshake

inductive InitiatorState (W : Type) where
  | waitingForStart
  | sentA (handshakeA : HandshakePayloadB)
  | waitingForLauncher (info : HandshakeStepInfo)
  | sentC (info : HandshakeStepInfo)
  | waitingForOffer (info : HandshakeStepInfo) (ourSigs : StateUpdateSignatures)
  | finished (step : HandshakeStepWithSpend W)
  | done

structure HandshakeInitiatorPhase (W : Type) extends OffChainPhaseInit where
  state : InitiatorState W
  havePotato : PotatoState
  channelState : Option ChannelState
  channelInitiationTransaction : Option (SpendBundle W)
  launcherCoin : Option Common.CoinString
  lastHeight : ℕ
  channelDeadline : Option ℕ
  pendingCoinSpend : Bool
  waitingToStart : Bool
  transactionPushed : Bool
  incomingMessages : List (Message W)
  lastChannelCoinSpendInfo : Option ChannelCoinSpendInfo
  failed : Bool
  failureAdvisory : Option String
  replacement : Option OffChainPhase

namespace HandshakeInitiatorPhase

variable {W : Type}

def new (phi : OffChainPhaseInit) : HandshakeInitiatorPhase W where
  toOffChainPhaseInit := phi
  state := .waitingForStart
  havePotato := .present
  channelState := none
  channelInitiationTransaction := none
  launcherCoin := none
  lastHeight := 0
  channelDeadline := none
  pendingCoinSpend := false
  waitingToStart := true
  transactionPushed := false
  incomingMessages := []
  lastChannelCoinSpendInfo := none
  failed := false
  failureAdvisory := none
  replacement := none

variable (E : HandshakeEnv)

abbrev Method (W α : Type) := Act Error (HandshakeInitiatorPhase W) α

def getChannelState (p : HandshakeInitiatorPhase W) : Except Error ChannelState :=
  orError p.channelState (.strErr "initiator handshake: no channel handler yet" [])

def getLauncherCoin (p : HandshakeInitiatorPhase W) : Except Error Common.CoinString :=
  orError p.launcherCoin (.strErr "launcher_coin not set" [])

def computeNotValidAfterHeight (p : HandshakeInitiatorPhase W) : Option ℕ :=
  some (p.lastHeight + p.channelTimeout)

def start : Method W (List (Effect W)) := do
  match (← get).state with
  | .waitingForStart => do
    let myHsInfo := (← get).myHandshakeB E
    modify fun p => { p with state := .sentA myHsInfo }
    pure [.peerHandshake (.handshakeA myHsInfo)]
  | _ => throw (.strErr "start: expected WaitingForStart state" [])

/-! Funding. -/

def buildLauncherCoinSpend (p : HandshakeInitiatorPhase W) : Except Error (BundleSpend W) := do
  let ch ← p.getChannelState
  let launcherCoin ← p.getLauncherCoin
  .ok (.launcher launcherCoin (launcherSolution ch.channelCoin.puzzleHash ch.channelCoin.amount))

/-- The wallet is asked to make the launcher, and to make its spend depend on the channel coin. -/
def buildAliceCoinSpendRequest (p : HandshakeInitiatorPhase W) : Except Error CoinSpendRequest := do
  let ch ← p.getChannelState
  let launcherCoin ← p.getLauncherCoin
  let (launcherParent, _, _) ← getCoinStringParts launcherCoin
  let annHash := computeCoinAnnouncementHash E (launcherCoinId E launcherCoin) ch.channelCoin.puzzleHash
    ch.channelCoin.amount
  .ok {
    amount := p.myContribution
    conditions := [
      ⟨createCoinOpcode, [E.singletonLauncherHash, bytesOfNat 0]⟩,
      ⟨assertCoinAnnouncement, [annHash]⟩]
    coinId := some launcherParent.bytes
    maxHeight := p.computeNotValidAfterHeight }

def requestCoinSpend : Method W (List (Effect W)) := do
  let coinSpendRequest ← Act.lift ((← get).buildAliceCoinSpendRequest E)
  modify fun p => { p with channelDeadline := p.computeNotValidAfterHeight }
  pure [.needCoinSpend coinSpendRequest]

/-- The block height has to be known before the wallet is asked. -/
def requestOrWait : Method W (List (Effect W)) := do
  if 0 < (← get).lastHeight then requestCoinSpend E
  else do
    modify fun p => { p with pendingCoinSpend := true }
    pure []

def verifyAndStoreInitialPeerSignatures (signatures : StateUpdateSignatures) : Method W Unit := fun p =>
  match p.channelState with
  | none => .error (.strErr "initiator handshake: no channel handler yet" []) p
  | some ch =>
    match ch.verifyAndStoreInitialPeerSignatures E.toChannelEnv signatures with
    | .ok spendInfo ch' =>
      .ok () { p with channelState := some ch', lastChannelCoinSpendInfo := some spendInfo }
    | .error _ ch' =>
      .error (.strErr "initiator step D: verify/store initial peer signatures failed" [])
        { p with channelState := some ch' }

/-! The way on. -/

/-- The phase that takes over. -/
def offChainPhase (p : HandshakeInitiatorPhase W) (ch : ChannelState) : OffChainPhase where
  initiator := true
  havePotato := p.havePotato
  gameActionQueue := []
  lastFailedQueuedAction := none
  channelState := some ch
  gameTypes := p.gameTypes
  incomingMessages := p.incomingMessages.map Message.kept
  peerWantsPotato := false
  lastChannelCoinSpendInfo := p.lastChannelCoinSpendInfo
  pendingCleanShutdown := none
  channelSpendNextPhase := none

def tryTransitionToPotato : Method W Unit := fun p =>
  if p.replacement.isSome then .ok () p
  else if p.waitingToStart then .ok () p
  else match p.state with
    | .finished _ =>
      match p.channelState with
      | none => .error .panic p
      | some ch => .ok () { p with
          channelState := none
          incomingMessages := []
          havePotato := .absent
          lastChannelCoinSpendInfo := none
          replacement := some (p.offChainPhase ch)
          state := .done }
    | _ => .ok () p

def trySendStepE (info : HandshakeStepInfo) (ourSigs : StateUpdateSignatures) :
    Method W (List (Effect W)) := do
  match (← get).channelInitiationTransaction with
  | some spend => do
    modify fun p => { p with state := .finished ⟨info, spend⟩ }
    pure [.peerHandshake (.handshakeE spend ourSigs)]
  | none => pure []

/-! Messages. -/

def pushFront (msg : Message W) : Method W Unit :=
  modify fun p => { p with incomingMessages := msg :: p.incomingMessages }

def receiveB (handshakeA : HandshakePayloadB) : Message W → Method W (List (Effect W))
  | .handshakeB msg => do
    Act.lift ((← get).checkReceived E msg "HandshakeB")
    let aggregatePk := publicKey (← get).privateKeys.myChannelCoinPrivateKey + msg.channelPublicKey
    modify fun p => { p with state := .waitingForLauncher ⟨handshakeA, msg⟩ }
    pure [.channelPuzzleHash (puzzleHashForSyntheticPublicKey E.toChannelEnv aggregatePk), .needLauncherCoinId]
  | _ => throw (.strErr "Expected handshake B message" [])

def receiveD (info : HandshakeStepInfo) : Message W → Method W (List (Effect W))
  | .handshakeD signatures => do
    let ch ← Act.lift (← get).getChannelState
    let ourSigs ← Act.lift ch.getInitialSignatures
    verifyAndStoreInitialPeerSignatures E signatures
    let effects ← requestOrWait E
    modify fun p => { p with state := .waitingForOffer info ourSigs }
    pure effects
  | _ => throw (.strErr "Expected handshake D message" [])

def receiveF : Message W → Method W (List (Effect W))
  | .handshakeF bundle => do
    let deadline := (← get).channelDeadline
    modify fun p => { p with transactionPushed := true }
    pure [.spendTransaction bundle deadline]
  | msg => do
    pushFront msg
    pure []

def handle (msg : Message W) : InitiatorState W → Method W (List (Effect W))
  | .waitingForStart => throw (.strErr "initiator WaitingForStart: unexpected message before start" [])
  | .sentA handshakeA => receiveB E handshakeA msg
  | .waitingForLauncher _ => do
    pushFront msg
    pure []
  | .sentC info => receiveD E info msg
  | .waitingForOffer _ _ => do
    pushFront msg
    pure []
  | .finished _ => receiveF msg
  | .done => do
    pushFront msg
    pure []

def processQueuedMessage : Method W (List (Effect W)) := do
  match (← get).incomingMessages with
  | [] => pure []
  | msg :: rest => do
    modify fun p => { p with incomingMessages := rest }
    let effects ← handle E msg (← get).state
    tryTransitionToPotato
    pure effects

def receivedMessage (msg : Message W) : Method W (List (Effect W)) := do
  modify fun p => { p with incomingMessages := p.incomingMessages ++ [msg] }
  processQueuedMessage E

/-! The wallet and the chain. -/

def coinCreated : Method W (List (Effect W)) := do
  if ¬ (← get).waitingToStart then pure []
  else if (← get).channelState.isNone then pure []
  else do
    modify fun p => { p with waitingToStart := false }
    tryTransitionToPotato
    pure []

def newBlock (height : ℕ) : Method W (List (Effect W)) := do
  modify fun p => { p with lastHeight := height }
  if (← get).pendingCoinSpend ∧ 0 < height then do
    modify fun p => { p with pendingCoinSpend := false }
    requestCoinSpend E
  else pure []

def channelOffer (bundle : SpendBundle W) : Method W (List (Effect W)) := do
  modify fun p => { p with channelInitiationTransaction := some bundle }
  match (← get).state with
  | .waitingForOffer info sigs => do
    let effects ← trySendStepE info sigs
    tryTransitionToPotato
    pure effects
  | _ => pure []

def provideLauncherCoin (launcherCoin : Common.CoinString) : Method W (List (Effect W)) := do
  match (← get).state with
  | .waitingForLauncher info => do
    Act.lift (checkLauncher E launcherCoin)
    let channelState ← Act.lift ((← get).makeChannelState E (launcherCoinId E launcherCoin) false
      info.secondPlayerHsInfo)
    modify fun p => { p with
      channelState := some channelState
      launcherCoin := some launcherCoin
      state := .sentC info }
    pure [.registerCoin channelState.channelCoin 1000000, .peerHandshake (.handshakeC launcherCoin)]
  | _ => throw (.strErr "provide_launcher_coin: not in WaitingForLauncher state" [])

def provideCoinSpendBundle (walletBundle : SpendBundle W) : Method W (List (Effect W)) := do
  match (← get).state with
  | .waitingForOffer _ _ => do
    let launcherSpend ← Act.lift (← get).buildLauncherCoinSpend
    channelOffer (walletBundle ++ [launcherSpend])
  | _ => channelOffer walletBundle

def goOnChain : Method W (List (Effect W)) := do
  modify fun p => { p with failed := true }
  pure []

def walletCallbackFailed (reason : String) : Method W (List (Effect W)) := do
  modify fun p => { p with failed := true, failureAdvisory := some reason }
  pure []

end HandshakeInitiatorPhase

end Handshake

end ChiaGaming
