import ChiaGaming.Handshake.Funding

namespace ChiaGaming

namespace ChannelState

namespace Setup

/-- What two players bring to one channel, each from its own side. -/
structure Mirrors (s t : Setup) : Prop where
  launcherCoinId : t.launcherCoinId = s.launcherCoinId
  startPotato : t.weStartWithPotato = !s.weStartWithPotato
  ourChannelKey : t.theirChannelPubkey = publicKey s.privateKeys.myChannelCoinPrivateKey
  theirChannelKey : s.theirChannelPubkey = publicKey t.privateKeys.myChannelCoinPrivateKey
  ourUnrollKey : t.theirUnrollPubkey = publicKey s.privateKeys.myUnrollCoinPrivateKey
  theirUnrollKey : s.theirUnrollPubkey = publicKey t.privateKeys.myUnrollCoinPrivateKey
  ourReward : t.theirRewardPuzzleHash = s.rewardPuzzleHash
  theirReward : s.theirRewardPuzzleHash = t.rewardPuzzleHash
  ourContribution : t.theirContribution = s.myContribution
  theirContribution : s.theirContribution = t.myContribution
  unrollAdvanceTimeout : t.unrollAdvanceTimeout = s.unrollAdvanceTimeout

variable {s t : Setup}

theorem Mirrors.symm (h : Mirrors s t) : Mirrors t s where
  launcherCoinId := h.launcherCoinId.symm
  startPotato := by rw [h.startPotato, Bool.not_not]
  ourChannelKey := h.theirChannelKey
  theirChannelKey := h.ourChannelKey
  ourUnrollKey := h.theirUnrollKey
  theirUnrollKey := h.ourUnrollKey
  ourReward := h.theirReward
  theirReward := h.ourReward
  ourContribution := h.theirContribution
  theirContribution := h.ourContribution
  unrollAdvanceTimeout := h.unrollAdvanceTimeout.symm

theorem Mirrors.channelKey (h : Mirrors s t) : t.channelKey = s.channelKey := by
  rw [Setup.channelKey, Setup.channelKey, h.ourChannelKey, h.theirChannelKey, add_comm]

end Setup

variable {E : ChannelEnv} {s t : Setup}

theorem channelCoin_mirrors (h : s.Mirrors t) : (opened E t).channelCoin = (opened E s).channelCoin := by
  have hcoin (s : Setup) : (opened E s).channelCoin = ⟨s.launcherCoinId,
    puzzleHashForSyntheticPublicKey E s.channelKey, s.myContribution + s.theirContribution⟩ := rfl
  rw [hcoin, hcoin, h.launcherCoinId, h.channelKey, h.ourContribution, h.theirContribution, add_comm t.myContribution]

theorem aggregateChannelKey_mirrors (h : s.Mirrors t) :
    (opened E t).getAggregateChannelPublicKey = (opened E s).getAggregateChannelPublicKey := h.channelKey

theorem aggregateUnrollKey_mirrors (h : s.Mirrors t) :
    (opened E t).getAggregateUnrollPublicKey = (opened E s).getAggregateUnrollPublicKey := by
  have hkey (s : Setup) : (opened E s).getAggregateUnrollPublicKey =
    publicKey s.privateKeys.myUnrollCoinPrivateKey + s.theirUnrollPubkey := rfl
  rw [hkey, hkey, h.ourUnrollKey, h.theirUnrollKey, add_comm]

/-- The two shares stand in the order of who starts with the potato, which both know. -/
theorem conditionsAt_mirrors (h : s.Mirrors t) (n : ℕ) :
    (opened E t).conditionsAt n = (opened E s).conditionsAt n := by
  have hconditions (s : Setup) : (opened E s).conditionsAt n = .pair (.list [condRem, .nat n])
      (.list (if s.weStartWithPotato then
          [createCoin s.rewardPuzzleHash s.myContribution, createCoin s.theirRewardPuzzleHash s.theirContribution]
        else [createCoin s.theirRewardPuzzleHash s.theirContribution,
          createCoin s.rewardPuzzleHash s.myContribution])) := by
    simp only [conditionsAt, UnrollCoin.computeUnrollCoinConditions]
    exact congrArg (fun l => Clvm.pair _ (Clvm.list l)) (List.append_nil _)
  rw [hconditions, hconditions, h.startPotato, h.ourReward, h.theirReward, h.ourContribution, h.theirContribution]
  cases s.weStartWithPotato <;> rfl

theorem timeoutConditionsAt_mirrors (h : s.Mirrors t) (n : ℕ) :
    (opened E t).timeoutConditionsAt n = (opened E s).timeoutConditionsAt n := by
  have htimeout : (opened E t).unrollAdvanceTimeout = (opened E s).unrollAdvanceTimeout := h.unrollAdvanceTimeout
  rw [timeoutConditionsAt, timeoutConditionsAt, conditionsAt_mirrors h, htimeout]

theorem argsAt_mirrors (h : s.Mirrors t) (n : ℕ) : (opened E t).argsAt E n = (opened E s).argsAt E n := by
  rw [argsAt, argsAt, unrollArgs, unrollArgs, aggregateUnrollKey_mirrors h, timeoutConditionsAt_mirrors h]

/-- What one player signs is what the other waits for, and nothing else is. -/
theorem verifies_iff_mirrors (h : s.Mirrors t) {n : ℕ} {signatures : StateUpdateSignatures} :
    (opened E s).Verifies E n signatures ↔ signatures = (opened E t).signaturesAt E n := by
  have hkey : (opened E t).privateKeys = t.privateKeys := rfl
  have hchannel : (opened E s).theirChannelCoinPublicKey = publicKey t.privateKeys.myChannelCoinPrivateKey :=
    h.theirChannelKey
  have hunroll : (opened E s).theirUnrollCoinPublicKey = publicKey t.privateKeys.myUnrollCoinPrivateKey :=
    h.theirUnrollKey
  rw [verifies_iff E _ hchannel hunroll, signaturesAt, peerSignaturesAt, channelHalf, unrollHalf, spendOf,
    spendConditions, spendConditions, hkey, aggregateChannelKey_mirrors h, aggregateUnrollKey_mirrors h,
    channelCoin_mirrors h, argsAt_mirrors h, conditionsAt_mirrors h]

end ChannelState

namespace Handshake

variable {E : HandshakeEnv} {W : Type}

theorem parts_of_checkLauncher {c : Common.CoinString} (h : checkLauncher E c = .ok ()) :
    ∃ parts, getCoinStringParts c = .ok parts := by
  cases hparts : getCoinStringParts c with
  | error e =>
    rw [checkLauncher, hparts] at h
    cases h
  | ok parts => exact ⟨parts, rfl⟩

/-- A message that nothing has come before. -/
theorem HandshakeInitiatorPhase.receivedMessage_of_handle {p p' q : HandshakeInitiatorPhase W} {msg : Message W}
    {effects : List (Effect W)} (hqueue : p.incomingMessages = []) (hr : handle E msg p.state p = .ok effects q)
    (hon : tryTransitionToPotato q = .ok () p') : receivedMessage E msg p = .ok effects p' := by
  have hp : { p with incomingMessages := [] } = p := by
    rw [← hqueue]
  simp only [receivedMessage, processQueuedMessage, Act.bind_apply, Act.modify_apply, Act.get_apply, hqueue,
    List.nil_append, hp, hr, hon, Act.pure_apply]

/-- The two players and the messages on their way to each. -/
structure Talk (W : Type) where
  alice : HandshakeInitiatorPhase W
  bob : HandshakeReceiverPhase W
  toAlice : List (Message W)
  toBob : List (Message W)

def messagesOf (effects : List (Effect W)) : List (Message W) :=
  effects.filterMap fun
    | .peerHandshake msg => some msg
    | _ => none

theorem messagesOf_append (xs ys : List (Effect W)) : messagesOf (xs ++ ys) = messagesOf xs ++ messagesOf ys :=
  List.filterMap_append

namespace Talk

def start (phi psi : OffChainPhaseInit) : Talk W := ⟨.new phi, .new psi, [], []⟩

/-- Either player does something of its own, or takes the message that was sent to it first. -/
inductive Step (E : HandshakeEnv) : Talk W → Talk W → Prop where
  | alice {T : Talk W} {p : HandshakeInitiatorPhase W} {effects : List (Effect W)} (input : Input W)
      (hinput : ∀ msg, input ≠ .receivedMessage msg)
      (hr : HandshakeInitiatorPhase.run E input T.alice = .ok effects p) :
      Step E T { T with alice := p, toBob := T.toBob ++ messagesOf effects }
  | bob {T : Talk W} {p : HandshakeReceiverPhase W} {effects : List (Effect W)} (input : Input W)
      (hinput : ∀ msg, input ≠ .receivedMessage msg)
      (hr : HandshakeReceiverPhase.run E input T.bob = .ok effects p) :
      Step E T { T with bob := p, toAlice := T.toAlice ++ messagesOf effects }
  | toAlice {T : Talk W} {p : HandshakeInitiatorPhase W} {effects : List (Effect W)} {msg : Message W}
      {rest : List (Message W)} (hwire : T.toAlice = msg :: rest)
      (hr : HandshakeInitiatorPhase.run E (.receivedMessage msg) T.alice = .ok effects p) :
      Step E T { T with alice := p, toAlice := rest, toBob := T.toBob ++ messagesOf effects }
  | toBob {T : Talk W} {p : HandshakeReceiverPhase W} {effects : List (Effect W)} {msg : Message W}
      {rest : List (Message W)} (hwire : T.toBob = msg :: rest)
      (hr : HandshakeReceiverPhase.run E (.receivedMessage msg) T.bob = .ok effects p) :
      Step E T { T with bob := p, toBob := rest, toAlice := T.toAlice ++ messagesOf effects }

abbrev Steps (E : HandshakeEnv) : Talk W → Talk W → Prop := Relation.ReflTransGen (Step E)

section Steps

variable {T : Talk W} {p p' : HandshakeInitiatorPhase W} {q q' : HandshakeReceiverPhase W}
  {xs ys : List (Message W)} {msg : Message W} {effects : List (Effect W)}

theorem Steps.alice (h : Steps E T ⟨p, q, xs, ys⟩) (input : Input W) (hinput : ∀ msg, input ≠ .receivedMessage msg)
    (hr : HandshakeInitiatorPhase.run E input p = .ok effects p') :
    Steps E T ⟨p', q, xs, ys ++ messagesOf effects⟩ := h.tail (.alice input hinput hr)

theorem Steps.bob (h : Steps E T ⟨p, q, xs, ys⟩) (input : Input W) (hinput : ∀ msg, input ≠ .receivedMessage msg)
    (hr : HandshakeReceiverPhase.run E input q = .ok effects q') :
    Steps E T ⟨p, q', xs ++ messagesOf effects, ys⟩ := h.tail (.bob input hinput hr)

theorem Steps.toAlice (h : Steps E T ⟨p, q, msg :: xs, ys⟩)
    (hr : HandshakeInitiatorPhase.run E (.receivedMessage msg) p = .ok effects p') :
    Steps E T ⟨p', q, xs, ys ++ messagesOf effects⟩ := h.tail (.toAlice rfl hr)

theorem Steps.toBob (h : Steps E T ⟨p, q, xs, msg :: ys⟩)
    (hr : HandshakeReceiverPhase.run E (.receivedMessage msg) q = .ok effects q') :
    Steps E T ⟨p, q', xs ++ messagesOf effects, ys⟩ := h.tail (.toBob rfl hr)

end Steps

end Talk

/-- An undisturbed handshake: two players whose terms fit, a launcher, and the bundles that their wallets come up
with. -/
structure Meeting (E : HandshakeEnv) (W : Type) where
  phi : OffChainPhaseInit
  psi : OffChainPhaseInit
  launcherCoin : Common.CoinString
  aliceHeight : ℕ
  bobHeight : ℕ
  aliceBundle : SpendBundle W
  bobBundle : SpendBundle W
  channelKeys : phi.privateKeys.myChannelCoinPrivateKey ≠ psi.privateKeys.myChannelCoinPrivateKey
  unrollKeys : phi.privateKeys.myUnrollCoinPrivateKey ≠ psi.privateKeys.myUnrollCoinPrivateKey
  ourContribution : psi.theirContribution = phi.myContribution
  theirContribution : phi.theirContribution = psi.myContribution
  unrollTimeout : psi.unrollTimeout = phi.unrollTimeout
  timeout : phi.unrollTimeout ≠ 0
  launcher : checkLauncher E launcherCoin = .ok ()
  aliceHeight_pos : 0 < aliceHeight
  bobHeight_pos : 0 < bobHeight

namespace Meeting

variable (m : Meeting E W)

def info : HandshakeStepInfo := ⟨m.phi.myHandshakeB E, m.psi.myHandshakeB E⟩

def aliceSetup : ChannelState.Setup := m.phi.setup (launcherCoinId E m.launcherCoin) false (m.psi.myHandshakeB E)

def bobSetup : ChannelState.Setup := m.psi.setup (launcherCoinId E m.launcherCoin) true (m.phi.myHandshakeB E)

theorem mirrors : m.aliceSetup.Mirrors m.bobSetup where
  launcherCoinId := rfl
  startPotato := rfl
  ourChannelKey := rfl
  theirChannelKey := rfl
  ourUnrollKey := rfl
  theirUnrollKey := rfl
  ourReward := rfl
  theirReward := rfl
  ourContribution := m.ourContribution
  theirContribution := m.theirContribution
  unrollAdvanceTimeout := m.unrollTimeout

theorem publicKey_injective : Function.Injective publicKey := fun _ _ => Multiset.singleton_inj.mp

theorem aliceSound : Sound E m.phi true m.launcherCoin (m.psi.myHandshakeB E) where
  launcher := m.launcher
  proven := myHandshakeB_proven E m.psi
  valid := ⟨fun h => m.channelKeys (publicKey_injective h).symm, fun h => m.unrollKeys (publicKey_injective h).symm,
    m.timeout⟩

theorem bobSound : Sound E m.psi false m.launcherCoin (m.phi.myHandshakeB E) where
  launcher := m.launcher
  proven := myHandshakeB_proven E m.phi
  valid := ⟨fun h => m.channelKeys (publicKey_injective h), fun h => m.unrollKeys (publicKey_injective h),
    fun h => m.timeout (m.unrollTimeout ▸ h)⟩

def aliceSignatures : StateUpdateSignatures :=
  (ChannelState.opened E.toChannelEnv m.aliceSetup).signaturesAt E.toChannelEnv 0

def bobSignatures : StateUpdateSignatures :=
  (ChannelState.opened E.toChannelEnv m.bobSetup).signaturesAt E.toChannelEnv 0

def aliceOpening : Opening E.toChannelEnv :=
  m.aliceSound.opening ((ChannelState.verifies_iff_mirrors m.mirrors).mpr rfl)

def bobOpening : Opening E.toChannelEnv :=
  m.bobSound.opening ((ChannelState.verifies_iff_mirrors m.mirrors.symm).mpr rfl)

/-! Alice's side of it, stage by stage. -/

def aliceAware : HandshakeInitiatorPhase W := { HandshakeInitiatorPhase.new m.phi with lastHeight := m.aliceHeight }

def aliceStarted : HandshakeInitiatorPhase W := { m.aliceAware with
  state := .sentA (m.phi.myHandshakeB E) }

def aliceAnswered : HandshakeInitiatorPhase W := { m.aliceStarted with state := .waitingForLauncher m.info }

def aliceOpened : HandshakeInitiatorPhase W := { m.aliceAnswered with
  channelState := some (ChannelState.opened E.toChannelEnv m.aliceSetup)
  launcherCoin := some m.launcherCoin
  state := .sentC m.info }

def aliceStored : HandshakeInitiatorPhase W := { m.aliceOpened with
  channelState := some m.aliceOpening.channel
  lastChannelCoinSpendInfo :=
    some ((ChannelState.opened E.toChannelEnv m.aliceSetup).publishAt E.toChannelEnv 0 m.bobSignatures) }

def aliceSigned : HandshakeInitiatorPhase W := { m.aliceStored with
  channelDeadline := some (m.aliceHeight + m.phi.channelTimeout)
  state := .waitingForOffer m.info m.aliceSignatures }

def offered : SpendBundle W := m.aliceBundle ++ [.launcher m.launcherCoin (launcherSolution
  m.aliceOpening.channel.channelCoin.puzzleHash m.aliceOpening.channel.channelCoin.amount)]

def aliceOffered : HandshakeInitiatorPhase W := { m.aliceSigned with
  channelInitiationTransaction := some m.offered
  state := .finished ⟨m.info, m.offered⟩ }

def alicePushed : HandshakeInitiatorPhase W := { m.aliceOffered with transactionPushed := true }

def alicePassed : HandshakeInitiatorPhase W := { m.alicePushed with
  waitingToStart := false
  channelState := none
  havePotato := .absent
  lastChannelCoinSpendInfo := none
  replacement := some (.fromCompletedHandshake m.aliceOpening m.phi.gameTypes [])
  state := .done }

/-! Bob's side. -/

def bobWaiting : HandshakeReceiverPhase W := { HandshakeReceiverPhase.new m.psi with lastHeight := m.bobHeight }

def bobAnswered : HandshakeReceiverPhase W := { m.bobWaiting with state := .sentB m.info }

def bobOpened : HandshakeReceiverPhase W := { m.bobAnswered with
  launcherCoin := some m.launcherCoin
  channelState := some (ChannelState.opened E.toChannelEnv m.bobSetup)
  state := .sentD m.info }

def bobStored : HandshakeReceiverPhase W := { m.bobOpened with
  channelState := some m.bobOpening.channel
  lastChannelCoinSpendInfo :=
    some ((ChannelState.opened E.toChannelEnv m.bobSetup).publishAt E.toChannelEnv 0 m.aliceSignatures) }

def bobSigned : HandshakeReceiverPhase W := { m.bobStored with
  channelDeadline := some (m.bobHeight + m.psi.channelTimeout)
  state := .waitingForCompletion m.info m.offered }

def completed : SpendBundle W := m.offered ++ m.bobBundle

def bobCompleted : HandshakeReceiverPhase W := { m.bobSigned with
  channelFinishedTransaction := some m.completed
  state := .finished ⟨m.info, m.completed⟩ }

def bobPassed : HandshakeReceiverPhase W := { m.bobCompleted with
  waitingToStart := false
  channelState := none
  havePotato := .absent
  lastChannelCoinSpendInfo := none
  replacement := some (.fromCompletedHandshake m.bobOpening m.psi.gameTypes [])
  state := .done }

/-! The steps. -/

theorem aliceStarted_told : HandshakeInitiatorPhase.receivedMessage E (.handshakeB (m.psi.myHandshakeB E))
    m.aliceStarted = .ok [.channelPuzzleHash (puzzleHashForSyntheticPublicKey E.toChannelEnv m.aliceSetup.channelKey),
      .needLauncherCoinId] m.aliceAnswered := by
  have hstate : m.aliceStarted.state = .sentA (m.phi.myHandshakeB E) := rfl
  have hcheck : m.aliceStarted.toOffChainPhaseInit.checkReceived E (m.psi.myHandshakeB E) "HandshakeB" = .ok () :=
    checkReceived_eq_ok_iff.mpr ⟨myHandshakeB_proven E m.psi, m.theirContribution.symm, m.ourContribution⟩
  refine HandshakeInitiatorPhase.receivedMessage_of_handle rfl (q := m.aliceAnswered) ?_ rfl
  simp only [hstate, HandshakeInitiatorPhase.handle, HandshakeInitiatorPhase.receiveB, Act.bind_apply,
    Act.get_apply, hcheck, Act.lift_ok]
  rfl

theorem aliceAnswered_launched : HandshakeInitiatorPhase.provideLauncherCoin E m.launcherCoin m.aliceAnswered =
    .ok [.registerCoin (ChannelState.opened E.toChannelEnv m.aliceSetup).channelCoin 1000000,
      .peerHandshake (.handshakeC m.launcherCoin)] m.aliceOpened := by
  have hstate : m.aliceAnswered.state = .waitingForLauncher m.info := rfl
  have hmade : m.aliceAnswered.toOffChainPhaseInit.makeChannelState E (launcherCoinId E m.launcherCoin) false
      m.info.secondPlayerHsInfo = .ok (ChannelState.opened E.toChannelEnv m.aliceSetup) :=
    makeChannelState_eq_ok_iff.mpr ⟨myHandshakeB_proven E m.psi, m.aliceSound.valid, rfl⟩
  simp only [HandshakeInitiatorPhase.provideLauncherCoin, Act.bind_apply, Act.get_apply, hstate, m.launcher,
    Act.lift_ok, hmade, Act.modify_apply]
  rfl

theorem aliceOpened_told : ∃ req, HandshakeInitiatorPhase.receivedMessage E (.handshakeD m.bobSignatures)
    m.aliceOpened = .ok [.needCoinSpend req] m.aliceSigned := by
  have hstate : m.aliceOpened.state = .sentC m.info := rfl
  have hchannel : m.aliceOpened.getChannelState = .ok (ChannelState.opened E.toChannelEnv m.aliceSetup) := rfl
  have hstored : HandshakeInitiatorPhase.verifyAndStoreInitialPeerSignatures E m.bobSignatures m.aliceOpened =
      .ok () m.aliceStored := by
    have hverified : ChannelState.verifyAndStoreInitialPeerSignatures E.toChannelEnv m.bobSignatures
        (ChannelState.opened E.toChannelEnv m.aliceSetup) =
        .ok ((ChannelState.opened E.toChannelEnv m.aliceSetup).publishAt E.toChannelEnv 0 m.bobSignatures)
          m.aliceOpening.channel :=
      (ChannelState.verifyAndStoreInitialPeerSignatures_eq_ok_iff _).mpr ⟨m.aliceOpening.verified, rfl, rfl⟩
    have hsome : m.aliceOpened.channelState = some (ChannelState.opened E.toChannelEnv m.aliceSetup) := rfl
    simp only [HandshakeInitiatorPhase.verifyAndStoreInitialPeerSignatures, hsome, hverified]
    rfl
  obtain ⟨req, hreq⟩ : ∃ req, m.aliceStored.buildAliceCoinSpendRequest E = .ok req := by
    have hsome : m.aliceStored.getChannelState = .ok m.aliceOpening.channel := rfl
    have hlauncher : m.aliceStored.getLauncherCoin = .ok m.launcherCoin := rfl
    obtain ⟨parts, hparts⟩ := parts_of_checkLauncher m.launcher
    rw [HandshakeInitiatorPhase.buildAliceCoinSpendRequest, hsome, hlauncher, ok_bind, ok_bind, hparts]
    exact ⟨_, rfl⟩
  have hheight : 0 < m.aliceStored.lastHeight := m.aliceHeight_pos
  refine ⟨req, HandshakeInitiatorPhase.receivedMessage_of_handle rfl (q := m.aliceSigned) ?_ rfl⟩
  simp only [hstate, HandshakeInitiatorPhase.handle, HandshakeInitiatorPhase.receiveD, Act.bind_apply,
    Act.get_apply, hchannel, ChannelState.getInitialSignatures_opened, hstored, Act.lift_ok,
    HandshakeInitiatorPhase.requestOrWait, if_pos hheight, HandshakeInitiatorPhase.requestCoinSpend, hreq,
    Act.modify_apply]
  rfl

theorem aliceSigned_provided : HandshakeInitiatorPhase.provideCoinSpendBundle m.aliceBundle m.aliceSigned =
    .ok [.peerHandshake (.handshakeE m.offered m.aliceSignatures)] m.aliceOffered := rfl

theorem aliceOffered_told :
    HandshakeInitiatorPhase.receivedMessage E (.handshakeF m.completed) m.aliceOffered =
      .ok [.spendTransaction m.completed (some (m.aliceHeight + m.phi.channelTimeout))] m.alicePushed :=
  HandshakeInitiatorPhase.receivedMessage_of_handle rfl (q := m.alicePushed) rfl rfl

theorem bobWaiting_told : HandshakeReceiverPhase.receivedMessage E (.handshakeA (m.phi.myHandshakeB E))
    m.bobWaiting = .ok [.peerHandshake (.handshakeB (m.psi.myHandshakeB E))] m.bobAnswered := by
  have hstate : m.bobWaiting.state = .waitingForA := rfl
  have hcheck : m.bobWaiting.toOffChainPhaseInit.checkReceived E (m.phi.myHandshakeB E) "HandshakeA" = .ok () :=
    checkReceived_eq_ok_iff.mpr ⟨myHandshakeB_proven E m.phi, m.ourContribution.symm, m.theirContribution⟩
  refine HandshakeReceiverPhase.receivedMessage_of_handle rfl (q := m.bobAnswered) ?_ rfl
  simp only [hstate, HandshakeReceiverPhase.handle, HandshakeReceiverPhase.receiveA, Act.bind_apply,
    Act.get_apply, hcheck, Act.lift_ok]
  rfl

theorem bobAnswered_told : HandshakeReceiverPhase.receivedMessage E (.handshakeC m.launcherCoin) m.bobAnswered =
    .ok [.registerCoin (ChannelState.opened E.toChannelEnv m.bobSetup).channelCoin 1000000,
      .peerHandshake (.handshakeD m.bobSignatures)] m.bobOpened := by
  have hstate : m.bobAnswered.state = .sentB m.info := rfl
  have hmade : m.bobAnswered.toOffChainPhaseInit.makeChannelState E (launcherCoinId E m.launcherCoin) true
      m.info.firstPlayerHsInfo = .ok (ChannelState.opened E.toChannelEnv m.bobSetup) :=
    makeChannelState_eq_ok_iff.mpr ⟨myHandshakeB_proven E m.phi, m.bobSound.valid, rfl⟩
  refine HandshakeReceiverPhase.receivedMessage_of_handle rfl (q := m.bobOpened) ?_ rfl
  simp only [hstate, HandshakeReceiverPhase.handle, HandshakeReceiverPhase.receiveC, Act.bind_apply,
    m.launcher, Act.lift_ok, Act.modify_apply, Act.get_apply, hmade, ChannelState.getInitialSignatures_opened]
  rfl

theorem bobOpened_told : ∃ req, HandshakeReceiverPhase.receivedMessage E
    (.handshakeE m.offered m.aliceSignatures) m.bobOpened = .ok [.needCoinSpend req] m.bobSigned := by
  have hstate : m.bobOpened.state = .sentD m.info := rfl
  have hstored : HandshakeReceiverPhase.verifyAndStoreInitialPeerSignatures E m.aliceSignatures m.bobOpened =
      .ok () m.bobStored := by
    have hverified : ChannelState.verifyAndStoreInitialPeerSignatures E.toChannelEnv m.aliceSignatures
        (ChannelState.opened E.toChannelEnv m.bobSetup) =
        .ok ((ChannelState.opened E.toChannelEnv m.bobSetup).publishAt E.toChannelEnv 0 m.aliceSignatures)
          m.bobOpening.channel :=
      (ChannelState.verifyAndStoreInitialPeerSignatures_eq_ok_iff _).mpr ⟨m.bobOpening.verified, rfl, rfl⟩
    have hsome : m.bobOpened.channelState = some (ChannelState.opened E.toChannelEnv m.bobSetup) := rfl
    simp only [HandshakeReceiverPhase.verifyAndStoreInitialPeerSignatures, hsome, hverified]
    rfl
  obtain ⟨req, hreq⟩ : ∃ req, m.bobStored.buildBobCoinSpendRequest E = .ok req := ⟨_, rfl⟩
  have hheight : 0 < m.bobStored.lastHeight := m.bobHeight_pos
  have hoffered : m.offered.isEmpty = false := by
    rw [offered]
    simp
  refine ⟨req, HandshakeReceiverPhase.receivedMessage_of_handle rfl (q := m.bobSigned) ?_ rfl⟩
  simp only [hstate, HandshakeReceiverPhase.handle, HandshakeReceiverPhase.receiveE, Act.bind_apply,
    Act.get_apply, hstored, HandshakeReceiverPhase.requestOrWait, if_pos hheight,
    HandshakeReceiverPhase.requestCoinSpend, hreq, Act.lift_ok, Act.modify_apply, Act.pure_apply, hoffered]
  rfl

theorem bobSigned_provided : HandshakeReceiverPhase.provideCoinSpendBundle m.bobBundle m.bobSigned =
    .ok [.peerHandshake (.handshakeF m.completed),
      .spendTransaction m.completed (some (m.bobHeight + m.psi.channelTimeout))] m.bobCompleted := rfl

/-- Both have made their channel, and Bob has signed state zero. -/
theorem talk_opened : Talk.Steps E (.start m.phi m.psi)
    ⟨m.aliceOpened, m.bobOpened, [.handshakeD m.bobSignatures], []⟩ := by
  have haware : Talk.Steps E (.start m.phi m.psi) ⟨m.aliceAware, .new m.psi, [], []⟩ :=
    Talk.Steps.alice .refl (.newBlock m.aliceHeight) nofun
      (show HandshakeInitiatorPhase.run E _ _ = .ok [] m.aliceAware from rfl)
  have hwaiting : Talk.Steps E (.start m.phi m.psi) ⟨m.aliceAware, m.bobWaiting, [], []⟩ :=
    Talk.Steps.bob haware (.newBlock m.bobHeight) nofun
      (show HandshakeReceiverPhase.run E _ _ = .ok [] m.bobWaiting from rfl)
  have hstarted : Talk.Steps E (.start m.phi m.psi)
      ⟨m.aliceStarted, m.bobWaiting, [], [.handshakeA (m.phi.myHandshakeB E)]⟩ :=
    Talk.Steps.alice hwaiting .start nofun
      (show HandshakeInitiatorPhase.run E _ _ = .ok [.peerHandshake _] m.aliceStarted from rfl)
  have hanswered : Talk.Steps E (.start m.phi m.psi)
      ⟨m.aliceStarted, m.bobAnswered, [.handshakeB (m.psi.myHandshakeB E)], []⟩ :=
    Talk.Steps.toBob hstarted m.bobWaiting_told
  have hknown : Talk.Steps E (.start m.phi m.psi) ⟨m.aliceAnswered, m.bobAnswered, [], []⟩ :=
    Talk.Steps.toAlice hanswered m.aliceStarted_told
  have hlaunched : Talk.Steps E (.start m.phi m.psi)
      ⟨m.aliceOpened, m.bobAnswered, [], [.handshakeC m.launcherCoin]⟩ :=
    Talk.Steps.alice hknown (.provideLauncherCoin m.launcherCoin) nofun m.aliceAnswered_launched
  exact Talk.Steps.toBob hlaunched m.bobAnswered_told

/-- State zero is signed by both, the wallets have answered and the bundle is with both. -/
theorem talk_funded : Talk.Steps E (.start m.phi m.psi) ⟨m.alicePushed, m.bobCompleted, [], []⟩ := by
  obtain ⟨_, haliceTold⟩ := m.aliceOpened_told
  obtain ⟨_, hbobTold⟩ := m.bobOpened_told
  have hsigned : Talk.Steps E (.start m.phi m.psi) ⟨m.aliceSigned, m.bobOpened, [], []⟩ :=
    Talk.Steps.toAlice m.talk_opened haliceTold
  have hoffered : Talk.Steps E (.start m.phi m.psi)
      ⟨m.aliceOffered, m.bobOpened, [], [.handshakeE m.offered m.aliceSignatures]⟩ :=
    Talk.Steps.alice hsigned (.provideCoinSpendBundle m.aliceBundle) nofun m.aliceSigned_provided
  have hasked : Talk.Steps E (.start m.phi m.psi) ⟨m.aliceOffered, m.bobSigned, [], []⟩ :=
    Talk.Steps.toBob hoffered hbobTold
  have hcompleted : Talk.Steps E (.start m.phi m.psi)
      ⟨m.aliceOffered, m.bobCompleted, [.handshakeF m.completed], []⟩ :=
    Talk.Steps.bob hasked (.provideCoinSpendBundle m.bobBundle) nofun m.bobSigned_provided
  exact Talk.Steps.toAlice hcompleted m.aliceOffered_told

/-- The channel coin is there, and both phases have been replaced. -/
theorem talk_passed : Talk.Steps E (.start m.phi m.psi) ⟨m.alicePassed, m.bobPassed, [], []⟩ := by
  have halice : Talk.Steps E (.start m.phi m.psi) ⟨m.alicePassed, m.bobCompleted, [], []⟩ :=
    Talk.Steps.alice m.talk_funded .coinCreated nofun
      (show HandshakeInitiatorPhase.run E _ _ = .ok [] m.alicePassed from rfl)
  exact Talk.Steps.bob halice .coinCreated nofun (show HandshakeReceiverPhase.run E _ _ = .ok [] m.bobPassed from rfl)

end Meeting

/-- Both hold one channel, each from its own side: the coin is the same, and each has what the other signed. -/
structure Together (E : HandshakeEnv) (o o' : Opening E.toChannelEnv) : Prop where
  mirrors : o.setup.Mirrors o'.setup
  channelCoin : o'.channel.channelCoin = o.channel.channelCoin
  signatures : o.signatures = (ChannelState.opened E.toChannelEnv o'.setup).signaturesAt E.toChannelEnv 0
  theirSignatures : o'.signatures = (ChannelState.opened E.toChannelEnv o.setup).signaturesAt E.toChannelEnv 0

/-- Signatures that verify can only be the other's. -/
theorem Together.of_mirrors {o o' : Opening E.toChannelEnv} (h : o.setup.Mirrors o'.setup) : Together E o o' where
  mirrors := h
  channelCoin := ChannelState.channelCoin_mirrors h
  signatures := (ChannelState.verifies_iff_mirrors h).mp o.verified
  theirSignatures := (ChannelState.verifies_iff_mirrors h.symm).mp o'.verified

/-- Two players with the terms of the example. -/
def Steady.meeting : Meeting Steady.handshakeEnv Unit where
  phi := Steady.alice
  psi := Steady.bob
  launcherCoin := Steady.launcherCoin
  aliceHeight := 1
  bobHeight := 1
  aliceBundle := [.wallet ()]
  bobBundle := [.wallet ()]
  channelKeys := by decide
  unrollKeys := by decide
  ourContribution := rfl
  theirContribution := rfl
  unrollTimeout := rfl
  timeout := by decide
  launcher := rfl
  aliceHeight_pos := Nat.one_pos
  bobHeight_pos := Nat.one_pos

end Handshake

end ChiaGaming
