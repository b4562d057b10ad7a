import ChiaGaming.Channel.Funds
import ChiaGaming.Handshake.InitiatorSafe
import ChiaGaming.Handshake.ReceiverSafe

namespace ChiaGaming

namespace Handshake

/-! What is done to a handshake: by the peer, the wallet, the chain and the session that it belongs to. -/

inductive Input (W : Type) where
  | start
  | receivedMessage (msg : Message W)
  | coinCreated
  | newBlock (height : ℕ)
  | channelOffer (bundle : SpendBundle W)
  | channelTransactionCompletion (bundle : SpendBundle W)
  | provideLauncherCoin (launcherCoin : Common.CoinString)
  | provideCoinSpendBundle (bundle : SpendBundle W)
  | goOnChain
  | walletCallbackFailed (reason : String)

variable {W : Type}

def HandshakeInitiatorPhase.run (E : HandshakeEnv) : Input W → HandshakeInitiatorPhase.Method W (List (Effect W))
  | .start => start E
  | .receivedMessage msg => receivedMessage E msg
  | .coinCreated => coinCreated
  | .newBlock height => newBlock E height
  | .channelOffer bundle => channelOffer bundle
  | .channelTransactionCompletion _ => pure []
  | .provideLauncherCoin launcherCoin => provideLauncherCoin E launcherCoin
  | .provideCoinSpendBundle bundle => provideCoinSpendBundle bundle
  | .goOnChain => goOnChain
  | .walletCallbackFailed reason => walletCallbackFailed reason

/-- Only an initiator starts. -/
def HandshakeReceiverPhase.run (E : HandshakeEnv) : Input W → HandshakeReceiverPhase.Method W (List (Effect W))
  | .start => pure []
  | .receivedMessage msg => receivedMessage E msg
  | .coinCreated => coinCreated
  | .newBlock height => newBlock E height
  | .channelOffer _ => pure []
  | .channelTransactionCompletion bundle => channelTransactionCompletion bundle
  | .provideLauncherCoin launcherCoin => provideLauncherCoin launcherCoin
  | .provideCoinSpendBundle bundle => provideCoinSpendBundle bundle
  | .goOnChain => goOnChain
  | .walletCallbackFailed reason => walletCallbackFailed reason

inductive HandshakePhase (W : Type) where
  | initiator (p : HandshakeInitiatorPhase W)
  | receiver (p : HandshakeReceiverPhase W)

namespace HandshakePhase

/-- The player that has the potato initiates. -/
def new (phi : OffChainPhaseInit) (havePotato : Bool) : HandshakePhase W :=
  if havePotato then .initiator (.new phi) else .receiver (.new phi)

def isInitiator : HandshakePhase W → Bool
  | .initiator _ => true
  | .receiver _ => false

def view : HandshakePhase W → View
  | .initiator p => p.view
  | .receiver p => p.view

def run (E : HandshakeEnv) (input : Input W) : Act Error (HandshakePhase W) (List (Effect W))
  | .initiator p =>
    match HandshakeInitiatorPhase.run E input p with
    | .ok effects p' => .ok effects (.initiator p')
    | .error e p' => .error e (.initiator p')
  | .receiver p =>
    match HandshakeReceiverPhase.run E input p with
    | .ok effects p' => .ok effects (.receiver p')
    | .error e p' => .error e (.receiver p')

/-- The runs of a handshake with anyone.  An input that fails leaves its mark as well. -/
inductive Reach (E : HandshakeEnv) (phi : OffChainPhaseInit) (havePotato : Bool) : HandshakePhase W → Prop where
  | start : Reach E phi havePotato (.new phi havePotato)
  | step {φ : HandshakePhase W} (h : Reach E phi havePotato φ) (input : Input W) :
      Reach E phi havePotato ((run E input).after φ)

end HandshakePhase

variable {E : HandshakeEnv} {phi : OffChainPhaseInit}

namespace HandshakeInitiatorPhase

theorem run_safe (input : Input W) : Safe E phi (HandshakeInitiatorPhase.run E input) := by
  cases input with
  | start => exact start_safe
  | receivedMessage msg => exact receivedMessage_safe msg
  | coinCreated => exact coinCreated_safe
  | newBlock height => exact newBlock_safe height
  | channelOffer bundle => exact channelOffer_safe bundle
  | channelTransactionCompletion bundle => exact fun p hp => .of_view hp rfl (by simp)
  | provideLauncherCoin launcherCoin => exact provideLauncherCoin_safe launcherCoin
  | provideCoinSpendBundle bundle => exact provideCoinSpendBundle_safe bundle
  | goOnChain => exact fun p hp => .of_view hp rfl (by simp)
  | walletCallbackFailed reason => exact fun p hp => .of_view hp rfl (by simp)

end HandshakeInitiatorPhase

namespace HandshakeReceiverPhase

theorem run_safe (input : Input W) : Safe E phi (HandshakeReceiverPhase.run E input) := by
  cases input with
  | start => exact fun p hp => .of_view hp rfl (by simp)
  | receivedMessage msg => exact receivedMessage_safe msg
  | coinCreated => exact coinCreated_safe
  | newBlock height => exact newBlock_safe height
  | channelOffer bundle => exact fun p hp => .of_view hp rfl (by simp)
  | channelTransactionCompletion bundle => exact channelTransactionCompletion_safe bundle
  | provideLauncherCoin launcherCoin => exact Act.triple_throw fun p hp => hp
  | provideCoinSpendBundle bundle => exact provideCoinSpendBundle_safe bundle
  | goOnChain => exact fun p hp => .of_view hp rfl (by simp)
  | walletCallbackFailed reason => exact fun p hp => .of_view hp rfl (by simp)

/-- A message that nothing has come before. -/
theorem receivedMessage_of_handle {p p' q : HandshakeReceiverPhase W} {msg : Message W} {effects : List (Effect W)}
    (hqueue : p.incomingMessages = []) (hr : handle E msg p.state p = .ok effects q)
    (hon : tryTransitionToPotato q = .ok () p') : receivedMessage E msg p = .ok effects p' := by
  have hp : { p with incomingMessages := [] } = p := by
    rw [← hqueue]
  simp only [receivedMessage, processQueuedMessage, Act.bind_apply, Act.modify_apply, Act.get_apply, hqueue,
    List.nil_append, hp, hr, hon, Act.pure_apply]

end HandshakeReceiverPhase

namespace HandshakePhase

variable {havePotato : Bool} {φ φ' : HandshakePhase W}

/-- The invariant of a handshake. -/
def Inv (E : HandshakeEnv) (phi : OffChainPhaseInit) (havePotato : Bool) (φ : HandshakePhase W) : Prop :=
  φ.isInitiator = havePotato ∧ φ.view.Holds E phi havePotato

theorem run_safe (input : Input W) : Act.Triple (Inv E phi havePotato) (run E input)
    (fun effects φ => Inv E phi havePotato φ ∧ Covered E phi havePotato φ.view effects) (Inv E phi havePotato) := by
  rintro (p | p) ⟨rfl, hp⟩
  · have hrun := HandshakeInitiatorPhase.run_safe (E := E) input p hp
    cases hr : HandshakeInitiatorPhase.run E input p with
    | ok effects p' =>
      rw [hr] at hrun
      simp only [run, hr]
      exact ⟨⟨rfl, hrun.1⟩, hrun.2⟩
    | error e p' =>
      rw [hr] at hrun
      simp only [run, hr]
      exact ⟨rfl, hrun⟩
  · have hrun := HandshakeReceiverPhase.run_safe (E := E) input p hp
    cases hr : HandshakeReceiverPhase.run E input p with
    | ok effects p' =>
      rw [hr] at hrun
      simp only [run, hr]
      exact ⟨⟨rfl, hrun.1⟩, hrun.2⟩
    | error e p' =>
      rw [hr] at hrun
      simp only [run, hr]
      exact ⟨rfl, hrun⟩

theorem new_inv : Inv E phi havePotato (.new phi havePotato : HandshakePhase W) := by
  cases havePotato with
  | false => exact ⟨rfl, rfl, .early rfl rfl rfl, fun _ => rfl, fun _ => rfl⟩
  | true => exact ⟨rfl, rfl, .early rfl rfl rfl, fun _ => rfl, fun _ => rfl⟩

theorem Reach.inv (h : Reach E phi havePotato φ) : Inv E phi havePotato φ := by
  induction h with
  | start => exact new_inv
  | step h input ih =>
    exact ((run_safe input).mono (fun _ => id) (fun _ _ hp => hp.1) fun _ => id).after ih

end HandshakePhase

/-! A handshake that the receiver is asked into by an honest initiator. -/

namespace Steady

def handshakeEnv : HandshakeEnv where
  toChannelEnv := Steady.channelEnv
  singletonLauncherHash := List.replicate 32 0

def alice : OffChainPhaseInit where
  privateKeys := ⟨11, 12, 1⟩
  gameTypes := []
  myContribution := 10
  theirContribution := 10
  channelTimeout := 100
  unrollTimeout := 15
  rewardPuzzleHash := [3]

def bob : OffChainPhaseInit := { alice with privateKeys := ⟨21, 22, 2⟩, rewardPuzzleHash := [2] }

def launcherCoin : Common.CoinString := ⟨List.replicate 64 0⟩

def payload : HandshakePayloadB := alice.myHandshakeB handshakeEnv

/-- The channel as Bob sees it. -/
def bobSetup : ChannelState.Setup := bob.setup (launcherCoinId handshakeEnv launcherCoin) true payload

def signatures : StateUpdateSignatures :=
  (ChannelState.opened handshakeEnv.toChannelEnv bobSetup).peerSignaturesAt handshakeEnv.toChannelEnv 11 12 0

def info : HandshakeStepInfo := ⟨payload, bob.myHandshakeB handshakeEnv⟩

/-- Bob knows the height and waits for the first message. -/
def waiting : HandshakeReceiverPhase Unit := { HandshakeReceiverPhase.new bob with lastHeight := 1 }

def answered : HandshakeReceiverPhase Unit := { waiting with state := .sentB info }

def opened : HandshakeReceiverPhase Unit := { answered with
  launcherCoin := some launcherCoin
  channelState := some (ChannelState.opened handshakeEnv.toChannelEnv bobSetup)
  state := .sentD info }

def funding : HandshakeReceiverPhase Unit := { opened with
  channelState := some (ChannelState.shaken handshakeEnv.toChannelEnv bobSetup signatures)
  lastChannelCoinSpendInfo :=
    some ((ChannelState.opened handshakeEnv.toChannelEnv bobSetup).publishAt handshakeEnv.toChannelEnv 0 signatures)
  channelDeadline := some 101
  state := .waitingForCompletion info [.wallet ()] }

/-- The session that he goes on with when his bundle and the channel coin are there. -/
def passedOn : OffChainPhase :=
  funding.offChainPhase (ChannelState.shaken handshakeEnv.toChannelEnv bobSetup signatures)

def funded : HandshakeReceiverPhase Unit := { funding with
  channelFinishedTransaction := some [.wallet ()]
  state := .finished ⟨info, [.wallet ()]⟩ }

def passed : HandshakeReceiverPhase Unit := { funded with
  waitingToStart := false
  channelState := none
  havePotato := .absent
  lastChannelCoinSpendInfo := none
  replacement := some passedOn
  state := .done }

def request : CoinSpendRequest where
  amount := 10
  conditions := [⟨assertCoinAnnouncement, [computeCoinAnnouncementHash handshakeEnv
    (launcherCoinId handshakeEnv launcherCoin)
    (ChannelState.opened handshakeEnv.toChannelEnv bobSetup).channelCoin.puzzleHash 20]⟩]
  coinId := none
  maxHeight := some 101

theorem payload_proven : payload.Proven handshakeEnv := myHandshakeB_proven _ _

theorem bobSetup_valid : bobSetup.Valid :=
  ⟨by simp [bobSetup, OffChainPhaseInit.setup, payload, OffChainPhaseInit.myHandshakeB, alice, bob, publicKey],
    by simp [bobSetup, OffChainPhaseInit.setup, payload, OffChainPhaseInit.myHandshakeB, alice, bob, publicKey],
    by simp [bobSetup, OffChainPhaseInit.setup, alice, bob]⟩

theorem signatures_verified :
    (ChannelState.opened handshakeEnv.toChannelEnv bobSetup).Verifies handshakeEnv.toChannelEnv 0 signatures :=
  (ChannelState.verifies_iff _ _ rfl rfl).mpr rfl

theorem waiting_state : waiting.state = .waitingForA := rfl
theorem answered_state : answered.state = .sentB info := rfl
theorem opened_state : opened.state = .sentD info := rfl

theorem waiting_told : HandshakeReceiverPhase.receivedMessage handshakeEnv (.handshakeA payload) waiting =
    .ok [.peerHandshake (.handshakeB (bob.myHandshakeB handshakeEnv))] answered := by
  have hcheck : waiting.toOffChainPhaseInit.checkReceived handshakeEnv payload "HandshakeA" = .ok () :=
    checkReceived_eq_ok_iff.mpr ⟨payload_proven, rfl, rfl⟩
  refine HandshakeReceiverPhase.receivedMessage_of_handle rfl (q := answered) ?_ rfl
  simp only [waiting_state, HandshakeReceiverPhase.handle, HandshakeReceiverPhase.receiveA, Act.bind_apply,
    Act.get_apply, hcheck, Act.lift_ok]
  rfl

theorem answered_told : HandshakeReceiverPhase.receivedMessage handshakeEnv (.handshakeC launcherCoin) answered =
    .ok [.registerCoin (ChannelState.opened handshakeEnv.toChannelEnv bobSetup).channelCoin 1000000,
      .peerHandshake (.handshakeD ((ChannelState.opened handshakeEnv.toChannelEnv bobSetup).signaturesAt
        handshakeEnv.toChannelEnv 0))] opened := by
  have hlauncher : checkLauncher handshakeEnv launcherCoin = .ok () := rfl
  have hmade : answered.toOffChainPhaseInit.makeChannelState handshakeEnv
      (launcherCoinId handshakeEnv launcherCoin) true info.firstPlayerHsInfo =
      .ok (ChannelState.opened handshakeEnv.toChannelEnv bobSetup) :=
    makeChannelState_eq_ok_iff.mpr ⟨payload_proven, bobSetup_valid, rfl⟩
  refine HandshakeReceiverPhase.receivedMessage_of_handle rfl (q := opened) ?_ rfl
  simp only [answered_state, HandshakeReceiverPhase.handle, HandshakeReceiverPhase.receiveC, Act.bind_apply,
    hlauncher, Act.lift_ok, Act.modify_apply, Act.get_apply, hmade, ChannelState.getInitialSignatures_opened]
  rfl

theorem opened_told :
    HandshakeReceiverPhase.receivedMessage handshakeEnv (.handshakeE [.wallet ()] signatures) opened =
      .ok [.needCoinSpend request] funding := by
  have hstored : ChannelState.verifyAndStoreInitialPeerSignatures handshakeEnv.toChannelEnv signatures
      (ChannelState.opened handshakeEnv.toChannelEnv bobSetup) =
      .ok ((ChannelState.opened handshakeEnv.toChannelEnv bobSetup).publishAt handshakeEnv.toChannelEnv 0 signatures)
        (ChannelState.shaken handshakeEnv.toChannelEnv bobSetup signatures) :=
    (ChannelState.verifyAndStoreInitialPeerSignatures_eq_ok_iff _).mpr ⟨signatures_verified, rfl, rfl⟩
  have hchannel : opened.channelState = some (ChannelState.opened handshakeEnv.toChannelEnv bobSetup) := rfl
  refine HandshakeReceiverPhase.receivedMessage_of_handle rfl (q := funding) ?_ rfl
  simp only [opened_state, HandshakeReceiverPhase.handle, HandshakeReceiverPhase.receiveE, Act.bind_apply,
    HandshakeReceiverPhase.verifyAndStoreInitialPeerSignatures, hchannel, hstored]
  rfl

end Steady

namespace HandshakePhase

/-- A receiver's step that goes through. -/
theorem run_receiver {input : Input W} {p p' : HandshakeReceiverPhase W} {effects : List (Effect W)}
    (hr : HandshakeReceiverPhase.run E input p = .ok effects p') :
    run E input (.receiver p) = .ok effects (.receiver p') := by
  rw [run, hr]

theorem Reach.receiver {input : Input W} {p p' : HandshakeReceiverPhase W} {effects : List (Effect W)}
    (h : Reach E phi havePotato (.receiver p)) (hr : HandshakeReceiverPhase.run E input p = .ok effects p') :
    Reach E phi havePotato (.receiver p') := by
  have hstep := h.step input
  rwa [Act.after, run_receiver hr] at hstep

/-- An initiator's step that goes through. -/
theorem Reach.initiator {input : Input W} {p p' : HandshakeInitiatorPhase W} {effects : List (Effect W)}
    (h : Reach E phi havePotato (.initiator p)) (hr : HandshakeInitiatorPhase.run E input p = .ok effects p') :
    Reach E phi havePotato (.initiator p') := by
  have hstep := h.step input
  have hrun : run E input (.initiator p) = .ok effects (.initiator p') := by
    rw [run, hr]
  rwa [Act.after, hrun] at hstep

theorem reach_opened : Reach Steady.handshakeEnv Steady.bob false (.receiver Steady.opened) := by
  have hwaiting : Reach Steady.handshakeEnv Steady.bob false (.receiver Steady.waiting) :=
    Reach.start.receiver (show HandshakeReceiverPhase.run _ (.newBlock 1) _ = _ from rfl)
  have hanswered : Reach Steady.handshakeEnv Steady.bob false (.receiver Steady.answered) :=
    hwaiting.receiver (show HandshakeReceiverPhase.run _ (.receivedMessage _) _ = _ from Steady.waiting_told)
  exact hanswered.receiver (show HandshakeReceiverPhase.run _ (.receivedMessage _) _ = _ from Steady.answered_told)

theorem reach_passed : Reach Steady.handshakeEnv Steady.bob false (.receiver Steady.passed) := by
  have hfunding : Reach Steady.handshakeEnv Steady.bob false (.receiver Steady.funding) :=
    reach_opened.receiver (show HandshakeReceiverPhase.run _ (.receivedMessage _) _ = _ from Steady.opened_told)
  have hfunded : Reach Steady.handshakeEnv Steady.bob false (.receiver Steady.funded) := hfunding.receiver
    (show HandshakeReceiverPhase.run _ (.channelTransactionCompletion [.wallet ()]) _ =
      .ok [.peerHandshake (.handshakeF [.wallet ()])] _ from rfl)
  exact hfunded.receiver (show HandshakeReceiverPhase.run _ .coinCreated _ = .ok [] _ from rfl)

/-- Both halves of the way back are there: the channel coin can be spent to the unroll coin of state zero, that coin
can be spent at once, and what it pays is the two contributions. -/
structure Refundable (E : HandshakeEnv) (o : Opening E.toChannelEnv) : Prop where
  channel : verify o.channel.getAggregateChannelPublicKey
    (channelSpendMessage E.toChannelEnv (o.channel.channelCoin.toCoinId E.sha256)
      (o.channel.spendConditions E.toChannelEnv (o.channel.argsAt E.toChannelEnv 0)))
    o.channel.channelCoinSpend.bundle.signature
  unroll : verify o.channel.getAggregateUnrollPublicKey (shatree E.sha256 (o.channel.conditionsAt 0))
    (o.signatures.unrollPreemptHalfSig + o.channel.unrollHalf E.toChannelEnv (o.channel.conditionsAt 0))
  pays : ∃ coins, createdCoins (o.channel.timeoutConditionsAt 0) = .ok coins ∧
    coins.Perm [(o.setup.rewardPuzzleHash, o.setup.myContribution),
      (o.setup.theirRewardPuzzleHash, o.setup.theirContribution)]

theorem refundable (o : Opening E.toChannelEnv) : Refundable E o where
  channel := o.verified.2
  unroll := o.verified.1
  pays := by
    refine ⟨_, ChannelState.createdCoins_timeoutConditionsAt _ _, ?_⟩
    have hgames : ChannelState.computeUnrollDataForGames o.channel.liveGames = [] := rfl
    rw [ChannelState.payouts, hgames, List.append_nil]
    split
    · exact .refl _
    · exact .swap _ _ _

/-- The phase that takes over has the channel. -/
theorem Reach.replaced (h : Reach E phi havePotato φ) {ph : OffChainPhase} (hph : φ.view.replacement = some ph) :
    ∃ o c msg incoming, o.initiator = havePotato ∧ φ.view.channel = some o.channel ∧ Agreed E phi o c msg ∧
      ph = .fromCompletedHandshake o phi.gameTypes incoming := by
  have hholds := h.inv.2
  have hover : φ.view.stage = .over := by
    by_contra hne
    rw [hholds.replacement hne] at hph
    cases hph
  cases hholds.standing with
  | early hs => rw [hs] at hover; cases hover
  | opened hs => rw [hs] at hover; cases hover
  | signed hs => rcases hs with hs | hs <;> rw [hs] at hover <;> cases hover
  | @passed o c msg incoming _ hrole hpassed =>
    refine ⟨o, c, msg, incoming, hrole, ?_, hpassed.agreed, Option.some.inj (hph.symm.trans hpassed.replacement)⟩
    rw [View.channel, hpassed.channelState, hpassed.replacement]
    rfl

end HandshakePhase

end Handshake

end ChiaGaming
