import ChiaGaming.Handshake.Completion

namespace ChiaGaming

theorem ChannelState.setup_of_shaken {E : ChannelEnv} {s t : Setup} {signatures signatures' : StateUpdateSignatures}
    (h : shaken E s signatures = shaken E t signatures') : s = t := by
  have hcoin : (shaken E s signatures).channelCoin.parent = (shaken E t signatures').channelCoin.parent := by rw [h]
  cases s
  cases t
  rw [Setup.mk.injEq]
  exact ⟨congrArg privateKeys h, hcoin, congrArg havePotato h, congrArg theirChannelCoinPublicKey h,
    congrArg theirUnrollCoinPublicKey h, congrArg theirRefereePubkey h, congrArg theirRewardPuzzleHash h,
    congrArg theirRewardPayoutSignature h, congrArg myOutOfGameBalance h, congrArg theirOutOfGameBalance h,
    congrArg unrollAdvanceTimeout h, congrArg rewardPuzzleHash h⟩

namespace Handshake

variable {E : HandshakeEnv} {phi psi : OffChainPhaseInit} {W : Type} {l : Option Common.CoinString}

/-- A channel that was made with the arguments, state zero signed by the peer or not. -/
def MadeWith (E : HandshakeEnv) (s : ChannelState.Setup) (ch : ChannelState) : Prop :=
  ch = ChannelState.opened E.toChannelEnv s ∨ ∃ signatures, ch = ChannelState.shaken E.toChannelEnv s signatures

theorem MadeWith.stored {s : ChannelState.Setup} {ch ch' : ChannelState} {signatures : StateUpdateSignatures}
    {spend : ChannelCoinSpendInfo} (h : MadeWith E s ch)
    (hr : ch.verifyAndStoreInitialPeerSignatures E.toChannelEnv signatures = .ok spend ch') : MadeWith E s ch' := by
  have hopened : ChannelState.verifyAndStoreInitialPeerSignatures E.toChannelEnv signatures
      (ChannelState.opened E.toChannelEnv s) = .ok spend ch' := by
    rcases h with rfl | ⟨_, rfl⟩
    · exact hr
    · exact ChannelState.verifyAndStoreInitialPeerSignatures_shaken hr
  obtain ⟨-, -, rfl⟩ := (ChannelState.verifyAndStoreInitialPeerSignatures_eq_ok_iff _).mp hopened
  exact .inr ⟨_, rfl⟩

theorem MadeWith.setup {o : Opening E.toChannelEnv} {s : ChannelState.Setup} (h : MadeWith E s o.channel) :
    o.setup = s := by
  rcases h with h | ⟨_, h⟩
  · cases congrArg ChannelState.latestReceivedUnroll h
  · exact ChannelState.setup_of_shaken h

/-- The contributions of a payload are those that we expect. -/
def OffChainPhaseInit.Expects (phi : OffChainPhaseInit) (msg : HandshakePayloadB) : Prop :=
  msg.myContribution = phi.theirContribution ∧ msg.theirContribution = phi.myContribution

/-- What an initiator says is of its own payload and its launcher. -/
def Message.FromInitiator (payload : HandshakePayloadB) (l : Option Common.CoinString) : Message W → Prop
  | .handshakeA msg => msg = payload
  | .handshakeC c => l = some c
  | _ => True

/-- What a receiver says is of its own payload. -/
def Message.FromReceiver (payload : HandshakePayloadB) : Message W → Prop
  | .handshakeB msg => msg = payload
  | _ => True

theorem Message.FromInitiator.mono {payload : HandshakePayloadB} {l' : Option Common.CoinString} {msg : Message W}
    (h : msg.FromInitiator payload l) (hl : ∀ c, l = some c → l' = some c) : msg.FromInitiator payload l' := by
  cases msg with
  | handshakeC c => exact hl c h
  | _ => exact h

namespace HandshakeInitiatorPhase

variable {p p' q : HandshakeInitiatorPhase W} {msgB : HandshakePayloadB} {msg : Message W}
  {effects : List (Effect W)}

/-- All that the initiator knows of the peer it knows from one payload. -/
structure Knows (E : HandshakeEnv) (phi : OffChainPhaseInit) (msgB : HandshakePayloadB)
    (p : HandshakeInitiatorPhase W) : Prop where
  init : p.toOffChainPhaseInit = phi
  info : ∀ info, p.state = .waitingForLauncher info → info.secondPlayerHsInfo = msgB ∧ phi.Expects msgB
  heard : ∀ msg ∈ p.incomingMessages, msg.FromReceiver msgB
  launched : p.state.stage = .early → p.launcherCoin = none
  channel : ∀ ch, p.view.channel = some ch → ∃ c, p.launcherCoin = some c ∧ phi.Expects msgB ∧
    MadeWith E (phi.setup (launcherCoinId E c) false msgB) ch

/-- After a step.  The launcher stays the one that it was, once there is one. -/
structure Told (E : HandshakeEnv) (phi : OffChainPhaseInit) (msgB : HandshakePayloadB)
    (l : Option Common.CoinString) (effects : List (Effect W)) (p : HandshakeInitiatorPhase W) : Prop where
  knows : Knows E phi msgB p
  launcher : ∀ c, l = some c → p.launcherCoin = some c
  tells : ∀ msg ∈ messagesOf effects, msg.FromInitiator (phi.myHandshakeB E) p.launcherCoin

/-- Nothing that the initiator knows has changed. -/
theorem Told.of_same (h : Knows E phi msgB p) (hphi : p'.toOffChainPhaseInit = p.toOffChainPhaseInit)
    (hstate : p'.state = p.state ∨ p'.state.stage ≠ .early) (hqueue : p'.incomingMessages ⊆ p.incomingMessages)
    (hlauncher : p'.launcherCoin = p.launcherCoin) (hchannel : p'.view.channel = p.view.channel)
    (heffects : ∀ msg ∈ messagesOf effects, msg.FromInitiator (phi.myHandshakeB E) p.launcherCoin) :
    Told E phi msgB p.launcherCoin effects p' where
  knows := by
    refine ⟨hphi.trans h.init, fun info hs => ?_, fun msg hmsg => h.heard msg (hqueue hmsg), fun hs => ?_,
      fun ch hch => ?_⟩
    · rcases hstate with hsame | hlate
      · exact h.info info (hsame ▸ hs)
      · exact absurd (congrArg InitiatorState.stage hs) hlate
    · rcases hstate with hsame | hlate
      · exact hlauncher.trans (h.launched (hsame ▸ hs))
      · exact absurd hs hlate
    · rw [hlauncher]
      exact h.channel ch (hchannel ▸ hch)
  launcher := fun c hc => hlauncher.trans hc
  tells := by
    rw [hlauncher]
    exact heffects

theorem requestCoinSpend_ok (hr : requestCoinSpend E p = .ok effects p') :
    messagesOf effects = [] ∧ ∃ deadline, p' = { p with channelDeadline := deadline } := by
  rw [requestCoinSpend, Act.bind_of_ok (Act.get_apply p)] at hr
  obtain ⟨req, _, hreq, hend⟩ := Act.bind_eq_ok.mp hr
  obtain ⟨-, rfl⟩ := Act.lift_eq_ok.mp hreq
  cases hend
  exact ⟨rfl, _, rfl⟩

theorem requestOrWait_ok (hr : requestOrWait E p = .ok effects p') : messagesOf effects = [] ∧
    ∃ deadline pending, p' = { p with channelDeadline := deadline, pendingCoinSpend := pending } := by
  simp only [requestOrWait, Act.bind_apply, Act.get_apply] at hr
  split at hr
  · obtain ⟨hnone, deadline, rfl⟩ := requestCoinSpend_ok hr
    exact ⟨hnone, deadline, p.pendingCoinSpend, rfl⟩
  · cases hr
    exact ⟨rfl, p.channelDeadline, true, rfl⟩

theorem Told.transition (h : Told E phi msgB l effects p) (hr : tryTransitionToPotato p = .ok () p') :
    Told E phi msgB l effects p' := by
  unfold tryTransitionToPotato at hr
  split_ifs at hr with hreplaced hwaiting
  · cases hr
    exact h
  · cases hr
    exact h
  cases hstate : p.state with
  | finished step =>
    rw [hstate] at hr
    cases hchannel : p.channelState with
    | none =>
      rw [hchannel] at hr
      cases hr
    | some ch =>
      rw [hchannel] at hr
      cases hr
      refine ⟨⟨h.knows.init, fun _ hs => (by cases hs), fun _ hs => (by cases hs), fun hs => (by cases hs),
        fun ch' hch => h.knows.channel ch' ?_⟩, h.launcher, h.tells⟩
      rw [View.channel, view, hchannel]
      exact hch
  | _ =>
    rw [hstate] at hr
    cases hr
    exact h

/-- The channel may be passed on at the end. -/
theorem Told.passed {sent : List (Effect W)} (h : Told E phi msgB l sent p) (hr : (do
    tryTransitionToPotato
    pure sent : Method W (List (Effect W))) p = .ok effects q) : Told E phi msgB l effects q := by
  obtain ⟨_, p', ht, hpure⟩ := Act.bind_eq_ok.mp hr
  cases hpure
  exact h.transition ht

theorem pushFront_told (h : Knows E phi msgB p) (hmsg : msg.FromReceiver msgB) (hr : (do
    pushFront msg
    pure [] : Method W (List (Effect W))) p = .ok effects q) : Told E phi msgB p.launcherCoin effects q := by
  cases hr
  exact ⟨⟨h.init, h.info, List.forall_mem_cons.mpr ⟨hmsg, h.heard⟩, h.launched, h.channel⟩, fun _ => id,
    by simp [messagesOf]⟩

theorem receiveB_told {handshakeA : HandshakePayloadB} (h : Knows E phi msgB p) (hearly : p.state.stage = .early)
    (hmsg : msg.FromReceiver msgB) (hr : receiveB E handshakeA msg p = .ok effects q) :
    Told E phi msgB p.launcherCoin effects q := by
  cases msg with
  | handshakeB payload =>
    obtain rfl : payload = msgB := hmsg
    rw [receiveB, Act.bind_of_ok (Act.get_apply p)] at hr
    obtain ⟨_, _, hlift, hend⟩ := Act.bind_eq_ok.mp hr
    obtain ⟨hcheck, rfl⟩ := Act.lift_eq_ok.mp hlift
    cases hend
    have hexpects := (checkReceived_eq_ok_iff.mp hcheck).2
    rw [h.init] at hexpects
    refine ⟨⟨h.init, fun info hs => ?_, h.heard, fun _ => h.launched hearly, h.channel⟩, fun _ => id,
      by simp [messagesOf]⟩
    cases hs
    exact ⟨rfl, hexpects⟩
  | _ => cases hr

theorem verifyAndStoreInitialPeerSignatures_told {signatures : StateUpdateSignatures} (h : Knows E phi msgB p)
    (hr : verifyAndStoreInitialPeerSignatures E signatures p = .ok () q) :
    Told E phi msgB p.launcherCoin ([] : List (Effect W)) q := by
  unfold verifyAndStoreInitialPeerSignatures at hr
  cases hchannel : p.channelState with
  | none =>
    rw [hchannel] at hr
    cases hr
  | some ch =>
    rw [hchannel] at hr
    dsimp only at hr
    cases hstored : ch.verifyAndStoreInitialPeerSignatures E.toChannelEnv signatures with
    | error e ch' =>
      rw [hstored] at hr
      cases hr
    | ok spendInfo ch' =>
      rw [hstored] at hr
      cases hr
      have hknown : p.view.channel = some ch := by
        rw [View.channel, view, hchannel]
        rfl
      obtain ⟨c, hc, hexpects, hmade⟩ := h.channel ch hknown
      refine ⟨⟨h.init, h.info, h.heard, h.launched, fun ch'' hch => ?_⟩, fun _ => id, by simp [messagesOf]⟩
      obtain rfl : ch' = ch'' := Option.some.inj hch
      exact ⟨c, hc, hexpects, hmade.stored hstored⟩

theorem receiveD_told {info : HandshakeStepInfo} (h : Knows E phi msgB p)
    (hr : receiveD E info msg p = .ok effects q) : Told E phi msgB p.launcherCoin effects q := by
  cases msg with
  | handshakeD signatures =>
    rw [receiveD, Act.bind_of_ok (Act.get_apply p)] at hr
    obtain ⟨ch, _, hch, hsign⟩ := Act.bind_eq_ok.mp hr
    obtain ⟨-, rfl⟩ := Act.lift_eq_ok.mp hch
    obtain ⟨ourSigs, _, hsigs, hstore⟩ := Act.bind_eq_ok.mp hsign
    obtain ⟨-, rfl⟩ := Act.lift_eq_ok.mp hsigs
    obtain ⟨_, stored, hstored, hask⟩ := Act.bind_eq_ok.mp hstore
    obtain ⟨asked, _, hasked, hend⟩ := Act.bind_eq_ok.mp hask
    have htold := verifyAndStoreInitialPeerSignatures_told h hstored
    obtain ⟨hnone, deadline, pending, rfl⟩ := requestOrWait_ok hasked
    cases hend
    refine ⟨⟨htold.knows.init, fun _ hs => (by cases hs), htold.knows.heard, fun hs => (by cases hs),
      htold.knows.channel⟩, htold.launcher, ?_⟩
    rw [hnone]
    simp
  | _ => cases hr

theorem handle_told (h : Knows E phi msgB p) (hmsg : msg.FromReceiver msgB)
    (hr : handle E msg p.state p = .ok effects q) : Told E phi msgB p.launcherCoin effects q := by
  cases hstate : p.state with
  | waitingForStart =>
    rw [hstate] at hr
    cases hr
  | sentA handshakeA =>
    rw [hstate] at hr
    exact receiveB_told h (by rw [hstate]; rfl) hmsg hr
  | sentC info =>
    rw [hstate] at hr
    exact receiveD_told h hr
  | finished step =>
    rw [hstate] at hr
    cases msg with
    | handshakeF bundle =>
      cases hr
      exact .of_same h rfl (.inl rfl) (fun _ => id) rfl rfl (by simp [messagesOf])
    | _ => exact pushFront_told h hmsg hr
  | _ =>
    rw [hstate] at hr
    exact pushFront_told h hmsg hr

theorem receivedMessage_told (h : Knows E phi msgB p) (hmsg : msg.FromReceiver msgB)
    (hr : receivedMessage E msg p = .ok effects q) : Told E phi msgB p.launcherCoin effects q := by
  have hheard : ∀ msg' ∈ p.incomingMessages ++ [msg], msg'.FromReceiver msgB :=
    List.forall_mem_append.mpr ⟨h.heard, List.forall_mem_singleton.mpr hmsg⟩
  simp only [receivedMessage, processQueuedMessage, Act.bind_apply, Act.modify_apply, Act.get_apply] at hr
  cases hqueue : p.incomingMessages ++ [msg] with
  | nil => simp at hqueue
  | cons first rest =>
    rw [hqueue] at hr hheard
    obtain ⟨hfirst, hrest⟩ := List.forall_mem_cons.mp hheard
    have hknows : Knows E phi msgB { p with incomingMessages := rest } :=
      ⟨h.init, h.info, hrest, h.launched, h.channel⟩
    simp only [Act.bind_apply, Act.modify_apply, Act.get_apply] at hr
    cases hhandle : handle E first p.state { p with incomingMessages := rest } with
    | error e r =>
      rw [hhandle] at hr
      cases hr
    | ok sent r =>
      rw [hhandle] at hr
      exact (handle_told hknows hfirst hhandle).passed hr

theorem start_told (h : Knows E phi msgB p) (hr : start E p = .ok effects q) :
    Told E phi msgB p.launcherCoin effects q := by
  simp only [start, Act.bind_apply, Act.get_apply] at hr
  cases hstate : p.state with
  | waitingForStart =>
    rw [hstate] at hr
    cases hr
    refine ⟨⟨h.init, fun _ hs => (by cases hs), h.heard, fun _ => h.launched (by rw [hstate]; rfl), h.channel⟩,
      fun _ => id, ?_⟩
    rintro msg hmsg
    obtain rfl : msg = .handshakeA (p.toOffChainPhaseInit.myHandshakeB E) := by simpa [messagesOf] using hmsg
    rw [h.init]
    rfl
  | _ =>
    rw [hstate] at hr
    cases hr

theorem provideLauncherCoin_told {launcherCoin : Common.CoinString} (h : Knows E phi msgB p)
    (hr : provideLauncherCoin E launcherCoin p = .ok effects q) : Told E phi msgB p.launcherCoin effects q := by
  rw [provideLauncherCoin, Act.bind_of_ok (Act.get_apply p)] at hr
  cases hstate : p.state with
  | waitingForLauncher info =>
    rw [hstate] at hr
    obtain ⟨hinfo, hexpects⟩ := h.info info hstate
    have hnone : p.launcherCoin = none := h.launched (by rw [hstate]; rfl)
    obtain ⟨_, _, hlauncher, hread⟩ := Act.bind_eq_ok.mp hr
    obtain ⟨-, rfl⟩ := Act.lift_eq_ok.mp hlauncher
    obtain ⟨_, _, hget, hmake⟩ := Act.bind_eq_ok.mp hread
    cases hget
    obtain ⟨ch, _, hlift, hend⟩ := Act.bind_eq_ok.mp hmake
    obtain ⟨hmade, rfl⟩ := Act.lift_eq_ok.mp hlift
    cases hend
    obtain ⟨-, -, rfl⟩ := makeChannelState_eq_ok_iff.mp hmade
    refine ⟨⟨h.init, fun _ hs => (by cases hs), h.heard, fun hs => (by cases hs), fun ch hch => ?_⟩, ?_, ?_⟩
    · refine ⟨launcherCoin, rfl, hexpects, .inl ?_⟩
      rw [← Option.some.inj hch, h.init, hinfo]
    · rw [hnone]
      exact fun c hc => (by cases hc)
    · rintro msg hmsg
      obtain rfl : msg = .handshakeC launcherCoin := by simpa [messagesOf] using hmsg
      rfl
  | _ =>
    rw [hstate] at hr
    cases hr

theorem newBlock_told {height : ℕ} (h : Knows E phi msgB p) (hr : newBlock E height p = .ok effects q) :
    Told E phi msgB p.launcherCoin effects q := by
  simp only [newBlock, Act.bind_apply, Act.modify_apply, Act.get_apply] at hr
  split at hr
  · simp only [Act.bind_apply, Act.modify_apply] at hr
    obtain ⟨hnone, deadline, rfl⟩ := requestCoinSpend_ok hr
    exact .of_same h rfl (.inl rfl) (fun _ => id) rfl rfl (by rw [hnone]; simp)
  · cases hr
    exact .of_same h rfl (.inl rfl) (fun _ => id) rfl rfl (by simp [messagesOf])

theorem coinCreated_told (h : Knows E phi msgB p) (hr : coinCreated p = .ok effects q) :
    Told E phi msgB p.launcherCoin effects q := by
  simp only [coinCreated, Act.bind_apply, Act.get_apply] at hr
  have hsame : Told E phi msgB p.launcherCoin ([] : List (Effect W)) p :=
    .of_same h rfl (.inl rfl) (fun _ => id) rfl rfl (by simp [messagesOf])
  split at hr
  · cases hr
    exact hsame
  simp only [Act.bind_apply, Act.get_apply] at hr
  split at hr
  · cases hr
    exact hsame
  · have hcreated : Told E phi msgB p.launcherCoin ([] : List (Effect W)) { p with waitingToStart := false } :=
      .of_same h rfl (.inl rfl) (fun _ => id) rfl rfl (by simp [messagesOf])
    exact hcreated.passed hr

theorem channelOffer_told {bundle : SpendBundle W} (h : Knows E phi msgB p)
    (hr : channelOffer bundle p = .ok effects q) : Told E phi msgB p.launcherCoin effects q := by
  simp only [channelOffer, Act.bind_apply, Act.modify_apply, Act.get_apply] at hr
  cases hstate : p.state with
  | waitingForOffer info sigs =>
    rw [hstate] at hr
    have hsent : Told E phi msgB p.launcherCoin [.peerHandshake (.handshakeE bundle sigs)]
        { p with channelInitiationTransaction := some bundle, state := .finished ⟨info, bundle⟩ } :=
      .of_same h rfl (.inr (by simp [InitiatorState.stage])) (fun _ => id) rfl rfl
        (by simp [messagesOf, Message.FromInitiator])
    exact hsent.passed hr
  | _ =>
    rw [hstate] at hr
    cases hr
    exact .of_same h rfl (.inl hstate.symm) (fun _ => id) rfl rfl (by simp [messagesOf])

theorem provideCoinSpendBundle_told {bundle : SpendBundle W} (h : Knows E phi msgB p)
    (hr : provideCoinSpendBundle bundle p = .ok effects q) : Told E phi msgB p.launcherCoin effects q := by
  simp only [provideCoinSpendBundle, Act.bind_apply, Act.get_apply] at hr
  cases hstate : p.state with
  | waitingForOffer info sigs =>
    rw [hstate] at hr
    simp only [Act.bind_apply, Act.get_apply] at hr
    cases hspend : p.buildLauncherCoinSpend with
    | error e =>
      rw [hspend] at hr
      cases hr
    | ok launcherSpend =>
      rw [hspend] at hr
      exact channelOffer_told h hr
  | _ =>
    rw [hstate] at hr
    exact channelOffer_told h hr

theorem run_told {input : Input W} (h : Knows E phi msgB p)
    (hinput : ∀ msg, input = .receivedMessage msg → msg.FromReceiver msgB)
    (hr : HandshakeInitiatorPhase.run E input p = .ok effects q) : Told E phi msgB p.launcherCoin effects q := by
  cases input with
  | start => exact start_told h hr
  | receivedMessage msg => exact receivedMessage_told h (hinput msg rfl) hr
  | coinCreated => exact coinCreated_told h hr
  | newBlock height => exact newBlock_told h hr
  | channelOffer bundle => exact channelOffer_told h hr
  | provideLauncherCoin launcherCoin => exact provideLauncherCoin_told h hr
  | provideCoinSpendBundle bundle => exact provideCoinSpendBundle_told h hr
  | _ =>
    cases hr
    exact .of_same h rfl (.inl rfl) (fun _ => id) rfl rfl (by simp [messagesOf])

end HandshakeInitiatorPhase

namespace HandshakeReceiverPhase

variable {p p' q : HandshakeReceiverPhase W} {msgA : HandshakePayloadB} {msg : Message W}
  {effects : List (Effect W)}

/-- All that the receiver knows of the peer it knows from one payload and one launcher. -/
structure Knows (E : HandshakeEnv) (psi : OffChainPhaseInit) (msgA : HandshakePayloadB)
    (l : Option Common.CoinString) (p : HandshakeReceiverPhase W) : Prop where
  init : p.toOffChainPhaseInit = psi
  info : ∀ info, p.state = .sentB info → info.firstPlayerHsInfo = msgA
  heard : ∀ msg ∈ p.incomingMessages, msg.FromInitiator msgA l
  channel : ∀ ch, p.view.channel = some ch → ∃ c, l = some c ∧
    MadeWith E (psi.setup (launcherCoinId E c) true msgA) ch

/-- After a step. -/
structure Told (E : HandshakeEnv) (psi : OffChainPhaseInit) (msgA : HandshakePayloadB)
    (l : Option Common.CoinString) (effects : List (Effect W)) (p : HandshakeReceiverPhase W) : Prop where
  knows : Knows E psi msgA l p
  tells : ∀ msg ∈ messagesOf effects, msg.FromReceiver (psi.myHandshakeB E)

theorem Knows.mono {l' : Option Common.CoinString} (h : Knows E psi msgA l p) (hl : ∀ c, l = some c → l' = some c) :
    Knows E psi msgA l' p where
  init := h.init
  info := h.info
  heard := fun msg hmsg => (h.heard msg hmsg).mono hl
  channel := fun ch hch => by
    obtain ⟨c, hc, hmade⟩ := h.channel ch hch
    exact ⟨c, hl c hc, hmade⟩

/-- Nothing that the receiver knows has changed. -/
theorem Told.of_same (h : Knows E psi msgA l p) (hphi : p'.toOffChainPhaseInit = p.toOffChainPhaseInit)
    (hstate : p'.state = p.state ∨ p'.state.stage ≠ .early) (hqueue : p'.incomingMessages ⊆ p.incomingMessages)
    (hchannel : p'.view.channel = p.view.channel)
    (heffects : ∀ msg ∈ messagesOf effects, msg.FromReceiver (psi.myHandshakeB E)) :
    Told E psi msgA l effects p' where
  knows := by
    refine ⟨hphi.trans h.init, fun info hs => ?_, fun msg hmsg => h.heard msg (hqueue hmsg),
      fun ch hch => h.channel ch (hchannel ▸ hch)⟩
    rcases hstate with hsame | hlate
    · exact h.info info (hsame ▸ hs)
    · exact absurd (congrArg ReceiverState.stage hs) hlate
  tells := heffects

theorem requestCoinSpend_ok (hr : requestCoinSpend E p = .ok effects p') :
    messagesOf effects = [] ∧ ∃ deadline, p' = { p with channelDeadline := deadline } := by
  rw [requestCoinSpend, Act.bind_of_ok (Act.get_apply p)] at hr
  obtain ⟨req, _, hreq, hend⟩ := Act.bind_eq_ok.mp hr
  obtain ⟨-, rfl⟩ := Act.lift_eq_ok.mp hreq
  cases hend
  exact ⟨rfl, _, rfl⟩

theorem requestOrWait_ok (hr : requestOrWait E p = .ok effects p') : messagesOf effects = [] ∧
    ∃ deadline pending, p' = { p with channelDeadline := deadline, pendingCoinSpend := pending } := by
  simp only [requestOrWait, Act.bind_apply, Act.get_apply] at hr
  split at hr
  · obtain ⟨hnone, deadline, rfl⟩ := requestCoinSpend_ok hr
    exact ⟨hnone, deadline, p.pendingCoinSpend, rfl⟩
  · cases hr
    exact ⟨rfl, p.channelDeadline, true, rfl⟩

theorem Told.transition (h : Told E psi msgA l effects p) (hr : tryTransitionToPotato p = .ok () p') :
    Told E psi msgA l effects p' := by
  unfold tryTransitionToPotato at hr
  split_ifs at hr with hreplaced hwaiting
  · cases hr
    exact h
  · cases hr
    exact h
  cases hstate : p.state with
  | finished step =>
    rw [hstate] at hr
    cases hchannel : p.channelState with
    | none =>
      rw [hchannel] at hr
      cases hr
    | some ch =>
      rw [hchannel] at hr
      cases hr
      refine ⟨⟨h.knows.init, fun _ hs => (by cases hs), fun _ hs => (by cases hs),
        fun ch' hch => h.knows.channel ch' ?_⟩, h.tells⟩
      rw [View.channel, view, hchannel]
      exact hch
  | _ =>
    rw [hstate] at hr
    cases hr
    exact h

/-- The channel may be passed on at the end. -/
theorem Told.passed {sent : List (Effect W)} (h : Told E psi msgA l sent p) (hr : (do
    tryTransitionToPotato
    pure sent : Method W (List (Effect W))) p = .ok effects q) : Told E psi msgA l effects q := by
  obtain ⟨_, p', ht, hpure⟩ := Act.bind_eq_ok.mp hr
  cases hpure
  exact h.transition ht

theorem pushFront_told (h : Knows E psi msgA l p) (hmsg : msg.FromInitiator msgA l) (hr : (do
    pushFront msg
    pure [] : Method W (List (Effect W))) p = .ok effects q) : Told E psi msgA l effects q := by
  cases hr
  exact ⟨⟨h.init, h.info, List.forall_mem_cons.mpr ⟨hmsg, h.heard⟩, h.channel⟩, by simp [messagesOf]⟩

theorem receiveA_told (h : Knows E psi msgA l p) (hmsg : msg.FromInitiator msgA l)
    (hr : receiveA E msg p = .ok effects q) : Told E psi msgA l effects q := by
  cases msg with
  | handshakeA payload =>
    obtain rfl : payload = msgA := hmsg
    rw [receiveA, Act.bind_of_ok (Act.get_apply p)] at hr
    obtain ⟨_, _, hlift, hend⟩ := Act.bind_eq_ok.mp hr
    obtain ⟨-, rfl⟩ := Act.lift_eq_ok.mp hlift
    cases hend
    refine ⟨⟨h.init, fun info hs => (by cases hs; rfl), h.heard, h.channel⟩, ?_⟩
    rintro msg hmsg
    obtain rfl : msg = .handshakeB (OffChainPhaseInit.myHandshakeB E _) := by simpa [messagesOf] using hmsg
    rw [h.init]
    rfl
  | _ => cases hr

theorem receiveC_told {info : HandshakeStepInfo} (h : Knows E psi msgA l p) (hinfo : info.firstPlayerHsInfo = msgA)
    (hmsg : msg.FromInitiator msgA l) (hr : receiveC E info msg p = .ok effects q) : Told E psi msgA l effects q := by
  cases msg with
  | handshakeC launcherCoin =>
    obtain ⟨_, _, hlauncher, hreset⟩ := Act.bind_eq_ok.mp hr
    obtain ⟨-, rfl⟩ := Act.lift_eq_ok.mp hlauncher
    obtain ⟨_, _, hmodify, hread⟩ := Act.bind_eq_ok.mp hreset
    cases hmodify
    obtain ⟨_, _, hget, hmake⟩ := Act.bind_eq_ok.mp hread
    cases hget
    obtain ⟨ch, _, hlift, hsign⟩ := Act.bind_eq_ok.mp hmake
    obtain ⟨hmade, rfl⟩ := Act.lift_eq_ok.mp hlift
    obtain ⟨sigs, _, hsigs, hend⟩ := Act.bind_eq_ok.mp hsign
    obtain ⟨-, rfl⟩ := Act.lift_eq_ok.mp hsigs
    cases hend
    obtain ⟨-, -, rfl⟩ := makeChannelState_eq_ok_iff.mp hmade
    refine ⟨⟨h.init, fun _ hs => (by cases hs), h.heard, fun ch hch => ?_⟩,
      by simp [messagesOf, Message.FromReceiver]⟩
    refine ⟨launcherCoin, hmsg, .inl ?_⟩
    rw [← Option.some.inj hch, h.init, hinfo]
  | _ => cases hr

theorem verifyAndStoreInitialPeerSignatures_knows {signatures : StateUpdateSignatures} (h : Knows E psi msgA l p)
    (hr : verifyAndStoreInitialPeerSignatures E signatures p = .ok () q) : Knows E psi msgA l q := by
  unfold verifyAndStoreInitialPeerSignatures at hr
  cases hchannel : p.channelState with
  | none =>
    rw [hchannel] at hr
    cases hr
  | some ch =>
    rw [hchannel] at hr
    dsimp only at hr
    cases hstored : ch.verifyAndStoreInitialPeerSignatures E.toChannelEnv signatures with
    | error e ch' =>
      rw [hstored] at hr
      cases hr
    | ok spendInfo ch' =>
      rw [hstored] at hr
      cases hr
      have hknown : p.view.channel = some ch := by
        rw [View.channel, view, hchannel]
        rfl
      obtain ⟨c, hc, hmade⟩ := h.channel ch hknown
      refine ⟨h.init, h.info, h.heard, fun ch'' hch => ?_⟩
      obtain rfl : ch' = ch'' := Option.some.inj hch
      exact ⟨c, hc, hmade.stored hstored⟩

theorem trySendStepF_told {info : HandshakeStepInfo} (h : Knows E psi msgA l p)
    (hr : trySendStepF info p = .ok effects q) : Told E psi msgA l effects q := by
  simp only [trySendStepF, Act.bind_apply, Act.get_apply] at hr
  cases hspend : p.channelFinishedTransaction with
  | none =>
    rw [hspend] at hr
    cases hr
    exact .of_same h rfl (.inl rfl) (fun _ => id) rfl (by simp [messagesOf])
  | some spend =>
    rw [hspend] at hr
    cases hr
    exact .of_same h rfl (.inr (by simp [ReceiverState.stage])) (fun _ => id) rfl
      (by simp [messagesOf, Message.FromReceiver])

theorem receiveE_told {info : HandshakeStepInfo} (h : Knows E psi msgA l p) (hmsg : msg.FromInitiator msgA l)
    (hr : receiveE E info msg p = .ok effects q) : Told E psi msgA l effects q := by
  cases msg with
  | handshakeE bundle signatures =>
    obtain ⟨_, stored, hstored, hask⟩ := Act.bind_eq_ok.mp hr
    obtain ⟨asked, _, hasked, hbundle⟩ := Act.bind_eq_ok.mp hask
    have hknows := verifyAndStoreInitialPeerSignatures_knows h hstored
    obtain ⟨hnone, deadline, pending, rfl⟩ := requestOrWait_ok hasked
    split at hbundle
    · cases hbundle
    obtain ⟨_, _, hmodify, hsend⟩ := Act.bind_eq_ok.mp hbundle
    cases hmodify
    obtain ⟨sent, _, hsent, hend⟩ := Act.bind_eq_ok.mp hsend
    cases hend
    have hwaiting : Knows E psi msgA l { stored with
        channelDeadline := deadline
        pendingCoinSpend := pending
        state := .waitingForCompletion info bundle } :=
      ⟨hknows.init, fun _ hs => (by cases hs), hknows.heard, hknows.channel⟩
    have htold := trySendStepF_told hwaiting hsent
    refine ⟨htold.knows, ?_⟩
    rw [messagesOf_append, hnone]
    exact htold.tells
  | _ => exact pushFront_told h hmsg hr

theorem handle_told (h : Knows E psi msgA l p) (hmsg : msg.FromInitiator msgA l)
    (hr : handle E msg p.state p = .ok effects q) : Told E psi msgA l effects q := by
  cases hstate : p.state with
  | waitingForA =>
    rw [hstate] at hr
    exact receiveA_told h hmsg hr
  | sentB info =>
    rw [hstate] at hr
    exact receiveC_told h (h.info info hstate) hmsg hr
  | sentD info =>
    rw [hstate] at hr
    exact receiveE_told h hmsg hr
  | _ =>
    rw [hstate] at hr
    exact pushFront_told h hmsg hr

theorem receivedMessage_told (h : Knows E psi msgA l p) (hmsg : msg.FromInitiator msgA l)
    (hr : receivedMessage E msg p = .ok effects q) : Told E psi msgA l effects q := by
  have hheard : ∀ msg' ∈ p.incomingMessages ++ [msg], msg'.FromInitiator msgA l :=
    List.forall_mem_append.mpr ⟨h.heard, List.forall_mem_singleton.mpr hmsg⟩
  simp only [receivedMessage, processQueuedMessage, Act.bind_apply, Act.modify_apply, Act.get_apply] at hr
  cases hqueue : p.incomingMessages ++ [msg] with
  | nil => simp at hqueue
  | cons first rest =>
    rw [hqueue] at hr hheard
    obtain ⟨hfirst, hrest⟩ := List.forall_mem_cons.mp hheard
    have hknows : Knows E psi msgA l { p with incomingMessages := rest } := ⟨h.init, h.info, hrest, h.channel⟩
    simp only [Act.bind_apply, Act.modify_apply, Act.get_apply] at hr
    cases hhandle : handle E first p.state { p with incomingMessages := rest } with
    | error e r =>
      rw [hhandle] at hr
      cases hr
    | ok sent r =>
      rw [hhandle] at hr
      exact (handle_told hknows hfirst hhandle).passed hr

theorem newBlock_told {height : ℕ} (h : Knows E psi msgA l p) (hr : newBlock E height p = .ok effects q) :
    Told E psi msgA l effects q := by
  simp only [newBlock, Act.bind_apply, Act.modify_apply, Act.get_apply] at hr
  split at hr
  · simp only [Act.bind_apply, Act.modify_apply] at hr
    obtain ⟨hnone, deadline, rfl⟩ := requestCoinSpend_ok hr
    exact .of_same h rfl (.inl rfl) (fun _ => id) rfl (by rw [hnone]; simp)
  · cases hr
    exact .of_same h rfl (.inl rfl) (fun _ => id) rfl (by simp [messagesOf])

/-- The last message is sent, and the channel passed on. -/
theorem trySendStepF_passed {info : HandshakeStepInfo} (h : Knows E psi msgA l p) (hr : (do
    let effects ← trySendStepF info
    tryTransitionToPotato
    pure effects : Method W (List (Effect W))) p = .ok effects q) : Told E psi msgA l effects q := by
  obtain ⟨sent, _, hsent, hpass⟩ := Act.bind_eq_ok.mp hr
  exact (trySendStepF_told h hsent).passed hpass

theorem coinCreated_told (h : Knows E psi msgA l p) (hr : coinCreated p = .ok effects q) :
    Told E psi msgA l effects q := by
  simp only [coinCreated, Act.bind_apply, Act.get_apply] at hr
  have hsame : Told E psi msgA l ([] : List (Effect W)) p :=
    .of_same h rfl (.inl rfl) (fun _ => id) rfl (by simp [messagesOf])
  split at hr
  · cases hr
    exact hsame
  simp only [Act.bind_apply, Act.get_apply] at hr
  split at hr
  · cases hr
    exact hsame
  have hcreated {state : ReceiverState W} (hs : state = p.state) : Told E psi msgA l ([] : List (Effect W))
      { p with waitingToStart := false, state } := .of_same h rfl (.inl hs) (fun _ => id) rfl (by simp [messagesOf])
  cases hstate : p.state with
  | waitingForCompletion info aliceBundle =>
    simp only [Act.bind_apply, Act.modify_apply, Act.get_apply, hstate] at hr
    exact trySendStepF_passed (hcreated hstate.symm).knows hr
  | _ =>
    simp only [Act.bind_apply, Act.modify_apply, Act.get_apply, hstate] at hr
    exact (hcreated hstate.symm).passed hr

theorem channelTransactionCompletion_told {bundle : SpendBundle W} (h : Knows E psi msgA l p)
    (hr : channelTransactionCompletion bundle p = .ok effects q) : Told E psi msgA l effects q := by
  have hoffered {state : ReceiverState W} (hs : state = p.state) : Told E psi msgA l ([] : List (Effect W))
      { p with channelFinishedTransaction := some bundle, state } :=
    .of_same h rfl (.inl hs) (fun _ => id) rfl (by simp [messagesOf])
  simp only [channelTransactionCompletion, Act.bind_apply, Act.modify_apply, Act.get_apply] at hr
  cases hstate : p.state with
  | waitingForCompletion info aliceBundle =>
    rw [hstate] at hr
    exact trySendStepF_passed (hoffered hstate.symm).knows hr
  | _ =>
    rw [hstate] at hr
    cases hr
    exact hoffered hstate.symm

theorem provideCoinSpendBundle_told {bundle : SpendBundle W} (h : Knows E psi msgA l p)
    (hr : provideCoinSpendBundle bundle p = .ok effects q) : Told E psi msgA l effects q := by
  simp only [provideCoinSpendBundle, Act.bind_apply, Act.get_apply] at hr
  cases hstate : p.state with
  | waitingForCompletion info aliceBundle =>
    rw [hstate] at hr
    obtain ⟨sent, _, hcompleted, hread⟩ := Act.bind_eq_ok.mp hr
    obtain ⟨_, _, hget, hend⟩ := Act.bind_eq_ok.mp hread
    cases hget
    cases hend
    have htold := channelTransactionCompletion_told h hcompleted
    refine ⟨htold.knows, ?_⟩
    rw [messagesOf_append]
    exact List.forall_mem_append.mpr ⟨htold.tells, by simp [messagesOf]⟩
  | _ =>
    rw [hstate] at hr
    exact channelTransactionCompletion_told h hr

theorem run_told {input : Input W} (h : Knows E psi msgA l p)
    (hinput : ∀ msg, input = .receivedMessage msg → msg.FromInitiator msgA l)
    (hr : HandshakeReceiverPhase.run E input p = .ok effects q) : Told E psi msgA l effects q := by
  cases input with
  | receivedMessage msg => exact receivedMessage_told h (hinput msg rfl) hr
  | coinCreated => exact coinCreated_told h hr
  | newBlock height => exact newBlock_told h hr
  | channelTransactionCompletion bundle => exact channelTransactionCompletion_told h hr
  | provideLauncherCoin launcherCoin => cases hr
  | provideCoinSpendBundle bundle => exact provideCoinSpendBundle_told h hr
  | _ =>
    cases hr
    exact .of_same h rfl (.inl rfl) (fun _ => id) rfl (by simp [messagesOf])

end HandshakeReceiverPhase

namespace Talk

/-- The invariant of two players who only talk to each other. -/
structure Honest (E : HandshakeEnv) (phi psi : OffChainPhaseInit) (T : Talk W) : Prop where
  alice : HandshakeInitiatorPhase.Knows E phi (psi.myHandshakeB E) T.alice
  bob : HandshakeReceiverPhase.Knows E psi (phi.myHandshakeB E) T.alice.launcherCoin T.bob
  toAlice : ∀ msg ∈ T.toAlice, msg.FromReceiver (psi.myHandshakeB E)
  toBob : ∀ msg ∈ T.toBob, msg.FromInitiator (phi.myHandshakeB E) T.alice.launcherCoin

variable {T T' : Talk W}

theorem honest_start : Honest E phi psi (start phi psi : Talk W) where
  alice := ⟨rfl, fun _ hs => (by cases hs), fun _ hmsg => (by cases hmsg), fun _ => rfl, fun _ hch => (by cases hch)⟩
  bob := ⟨rfl, fun _ hs => (by cases hs), fun _ hmsg => (by cases hmsg), fun _ hch => (by cases hch)⟩
  toAlice := fun _ hmsg => by cases hmsg
  toBob := fun _ hmsg => by cases hmsg

/-- A step of Alice's, with what is left on the way to her. -/
theorem Honest.alice_told (h : Honest E phi psi T) {p : HandshakeInitiatorPhase W} {effects : List (Effect W)}
    (htold : HandshakeInitiatorPhase.Told E phi (psi.myHandshakeB E) T.alice.launcherCoin effects p)
    {xs : List (Message W)} (hxs : xs ⊆ T.toAlice) :
    Honest E phi psi ⟨p, T.bob, xs, T.toBob ++ messagesOf effects⟩ where
  alice := htold.knows
  bob := h.bob.mono htold.launcher
  toAlice := fun msg hmsg => h.toAlice msg (hxs hmsg)
  toBob := List.forall_mem_append.mpr ⟨fun msg hmsg => (h.toBob msg hmsg).mono htold.launcher, htold.tells⟩

theorem Honest.bob_told (h : Honest E phi psi T) {q : HandshakeReceiverPhase W} {effects : List (Effect W)}
    (htold : HandshakeReceiverPhase.Told E psi (phi.myHandshakeB E) T.alice.launcherCoin effects q)
    {ys : List (Message W)} (hys : ys ⊆ T.toBob) :
    Honest E phi psi ⟨T.alice, q, T.toAlice ++ messagesOf effects, ys⟩ where
  alice := h.alice
  bob := htold.knows
  toAlice := List.forall_mem_append.mpr ⟨h.toAlice, htold.tells⟩
  toBob := fun msg hmsg => h.toBob msg (hys hmsg)

theorem Step.honest (hstep : Step E T T') (h : Honest E phi psi T) : Honest E phi psi T' := by
  cases hstep with
  | alice input hinput hr =>
    exact h.alice_told (HandshakeInitiatorPhase.run_told h.alice (fun msg hmsg => absurd hmsg (hinput msg)) hr)
      (fun _ => id)
  | bob input hinput hr =>
    exact h.bob_told (HandshakeReceiverPhase.run_told h.bob (fun msg hmsg => absurd hmsg (hinput msg)) hr)
      (fun _ => id)
  | @toAlice p effects msg rest hwire hr =>
    have hmsg : msg.FromReceiver (psi.myHandshakeB E) := h.toAlice msg (by rw [hwire]; exact List.mem_cons_self)
    refine h.alice_told (HandshakeInitiatorPhase.run_told h.alice (fun msg' heq => ?_) hr) ?_
    · cases heq
      exact hmsg
    · rw [hwire]
      exact List.subset_cons_self msg rest
  | @toBob q effects msg rest hwire hr =>
    have hmsg : msg.FromInitiator (phi.myHandshakeB E) T.alice.launcherCoin :=
      h.toBob msg (by rw [hwire]; exact List.mem_cons_self)
    refine h.bob_told (HandshakeReceiverPhase.run_told h.bob (fun msg' heq => ?_) hr) ?_
    · cases heq
      exact hmsg
    · rw [hwire]
      exact List.subset_cons_self msg rest

theorem Steps.honest (h : Steps E (start phi psi) T) : Honest E phi psi T := by
  induction h with
  | refl => exact honest_start
  | tail _ hstep ih => exact hstep.honest ih

/-- Each of the two is in a run of its own. -/
theorem Steps.reach (h : Steps E (start phi psi) T) :
    HandshakePhase.Reach E phi true (.initiator T.alice) ∧ HandshakePhase.Reach E psi false (.receiver T.bob) := by
  induction h with
  | refl => exact ⟨.start, .start⟩
  | tail _ hstep ih =>
    cases hstep with
    | alice input hinput hr => exact ⟨ih.1.initiator hr, ih.2⟩
    | bob input hinput hr => exact ⟨ih.1, ih.2.receiver hr⟩
    | toAlice hwire hr => exact ⟨ih.1.initiator hr, ih.2⟩
    | toBob hwire hr => exact ⟨ih.1, ih.2.receiver hr⟩

end Talk

end Handshake

end ChiaGaming
