import ChiaGaming.Handshake.Stages

namespace ChiaGaming

namespace Handshake

variable {E : HandshakeEnv} {phi : OffChainPhaseInit} {W : Type} {v : View}

namespace HandshakeReceiverPhase

variable {p : HandshakeReceiverPhase W}

/-- The invariant of the receiver. -/
def Inv (E : HandshakeEnv) (phi : OffChainPhaseInit) (p : HandshakeReceiverPhase W) : Prop :=
  p.view.Holds E phi false

/-- What a method leaves behind: the invariant, and requests only for signed channels. -/
def Leaves (E : HandshakeEnv) (phi : OffChainPhaseInit) (effects : List (Effect W)) (p : HandshakeReceiverPhase W) :
    Prop := Inv E phi p ∧ Covered E phi false p.view effects

/-- A method that keeps the invariant. -/
abbrev Safe (E : HandshakeEnv) (phi : OffChainPhaseInit) (x : Method W (List (Effect W))) : Prop :=
  Act.Triple (Inv E phi) x (Leaves E phi) (Inv E phi)

theorem buildBobCoinSpendRequest_signed {o : Opening E.toChannelEnv} {c : Common.CoinString}
    {msg : HandshakePayloadB} (hphi : p.toOffChainPhaseInit = phi) (h : p.view.Signed E phi o c msg)
    {req : CoinSpendRequest} (hreq : p.buildBobCoinSpendRequest E = .ok req) : Requested E phi o c req := by
  have hchannel : p.channelState = some o.channel := h.channelState
  have hlauncher : p.launcherCoin = some c := h.launcherCoin
  rw [buildBobCoinSpendRequest, getChannelState, getLauncherCoin, hchannel, hlauncher] at hreq
  obtain rfl := Except.ok.inj hreq
  exact ⟨congrArg OffChainPhaseInit.myContribution hphi, List.mem_cons_self⟩

theorem requestCoinSpend_signed {o : Opening E.toChannelEnv} {c : Common.CoinString} {msg : HandshakePayloadB}
    (hphi : v.phi = phi) (h : v.Signed E phi o c msg) : Act.Triple (fun p => p.view = v)
      (requestCoinSpend E : Method W _) (fun effects p => p.view = v ∧ Covered E phi o.initiator v effects)
      (fun p => p.view = v) := by
  refine Act.triple_read fun p hp => Act.triple_lift_bind (fun q hq => hq ▸ hp) fun req hreq => ?_
  refine Act.triple_modify_bind (Act.triple_pure fun q hq => ?_)
  subst hq hp
  exact ⟨rfl, h.funded (buildBobCoinSpendRequest_signed hphi h hreq)⟩

theorem requestOrWait_signed {o : Opening E.toChannelEnv} {c : Common.CoinString} {msg : HandshakePayloadB}
    (hphi : v.phi = phi) (h : v.Signed E phi o c msg) : Act.Triple (fun p => p.view = v)
      (requestOrWait E : Method W _)
      (fun effects p => (∃ b, p.view = { v with pending := b }) ∧ Covered E phi o.initiator v effects)
      (fun p => p.view = v) := by
  refine Act.triple_read fun p hp => Act.triple_ite (fun _ => ?_) fun _ => ?_
  · refine (requestCoinSpend_signed hphi h).mono (fun q hq => hq ▸ hp) ?_ fun q hq => hq
    exact fun effects q hq => ⟨⟨v.pending, hq.1⟩, hq.2⟩
  · refine Act.triple_modify_bind (Act.triple_pure fun q hq => ?_)
    subst hq hp
    exact ⟨⟨true, rfl⟩, Covered.nil⟩

theorem verifyAndStoreInitialPeerSignatures_safe (signatures : StateUpdateSignatures) : Act.Triple
    (fun p => Inv E phi p ∧ p.state.stage = .opened) (verifyAndStoreInitialPeerSignatures E signatures : Method W Unit)
    (fun _ p => Inv E phi p ∧ p.state.stage = .opened ∧ ∃ o c msg, o.initiator = false ∧ p.view.Signed E phi o c msg)
    (Inv E phi) := by
  rintro p ⟨hinv, hstage⟩
  unfold verifyAndStoreInitialPeerSignatures
  cases hchannel : p.channelState with
  | none => exact hinv
  | some ch =>
    dsimp only
    cases hr : ch.verifyAndStoreInitialPeerSignatures E.toChannelEnv signatures with
    | error e ch' =>
      obtain rfl := ChannelState.verifyAndStoreInitialPeerSignatures_error hr
      have hview : ({ p with channelState := some ch' } : HandshakeReceiverPhase W).view = p.view := by
        unfold view
        rw [hchannel]
      show View.Holds E phi false _
      rw [hview]
      exact hinv
    | ok spendInfo ch' =>
      obtain ⟨o, c, msg, hrole, hsigned⟩ := hinv.store hstage hchannel hr
      have hover : p.view.stage ≠ .over := fun h => by
        rw [show p.view.stage = .opened from hstage] at h
        cases h
      exact ⟨hinv.of_signed hover rfl rfl rfl (.inl hstage) hrole hsigned, hstage, o, c, msg, hrole, hsigned⟩

/-- Nothing that the invariant is about. -/
theorem Leaves.of_view {p' : HandshakeReceiverPhase W} {effects : List (Effect W)} (h : Inv E phi p)
    (hview : p'.view = p.view) (heffects : ∀ req, .needCoinSpend req ∉ effects) : Leaves E phi effects p' :=
  ⟨by rw [Inv, hview]; exact h, fun req hreq => absurd hreq (heffects req)⟩

/-- A change of nothing that the invariant is about. -/
theorem modify_safe {f : HandshakeReceiverPhase W → HandshakeReceiverPhase W} (hf : ∀ p, (f p).view = p.view) :
    Act.Triple (Inv E phi) (modify f : Method W PUnit) (fun _ => Inv E phi) (Inv E phi) :=
  Act.triple_modify fun p hp => by rw [Inv, hf]; exact hp

theorem view_of_stage {state : ReceiverState W} (h : state.stage = p.state.stage) :
    ({ p with state } : HandshakeReceiverPhase W).view = p.view := by
  unfold view
  rw [h]

theorem pushFront_safe (msg : Message W) : Safe E phi (do
    pushFront msg
    pure [] : Method W (List (Effect W))) := fun _ hp => .of_view hp rfl (by simp)

theorem receiveA_safe (msg : Message W) : Act.Triple (fun p => Inv E phi p ∧ p.state.stage = .early)
    (receiveA E msg : Method W _) (Leaves E phi) (Inv E phi) := by
  cases msg with
  | handshakeA msg =>
    refine Act.triple_read fun p hp => Act.triple_lift_bind (fun q hq => hq ▸ hp.1) fun _ _ => ?_
    rintro q rfl
    exact .of_view hp.1 (view_of_stage hp.2.symm) (by simp)
  | _ => exact Act.triple_throw fun p hp => hp.1

theorem receiveC_safe (info : HandshakeStepInfo) (msg : Message W) : Act.Triple
    (fun p => Inv E phi p ∧ p.state.stage = .early) (receiveC E info msg) (Leaves E phi) (Inv E phi) := by
  cases msg with
  | handshakeC launcherCoin =>
    refine Act.triple_lift_bind (fun q hq => hq.1) fun _ hlauncher => ?_
    rintro p ⟨hp, hstage⟩
    have hview : ({ p with state := .waitingForA } : HandshakeReceiverPhase W).view = p.view :=
      view_of_stage hstage.symm
    have hrest : Act.Triple (fun q => q = { p with state := .waitingForA }) (do
        let channelState ← Act.lift ((← get).makeChannelState E (launcherCoinId E launcherCoin) true
          info.firstPlayerHsInfo)
        let sigs ← Act.lift channelState.getInitialSignatures
        modify fun p => { p with
          launcherCoin := some launcherCoin
          channelState := some channelState
          lastChannelCoinSpendInfo := none
          state := .sentD info }
        pure [.registerCoin channelState.channelCoin 1000000, .peerHandshake (.handshakeD sigs)] : Method W _)
        (Leaves E phi) (Inv E phi) := by
      have hq : Inv E phi { p with state := .waitingForA } := by rw [Inv, hview]; exact hp
      refine Act.triple_read fun q hqp => Act.triple_lift_bind (fun r hr => hr ▸ hqp ▸ hq) fun ch hch => ?_
      refine Act.triple_lift_bind (fun r hr => hr ▸ hqp ▸ hq) fun sigs _ r hr => ?_
      subst hr hqp
      obtain ⟨hproven, hvalid, rfl⟩ := makeChannelState_eq_ok_iff.mp hch
      have hinit : p.toOffChainPhaseInit = phi := hp.init
      have hover : p.view.stage ≠ .over := fun h => by cases hstage.symm.trans h
      rw [hinit] at hvalid
      refine ⟨⟨hinit, .opened rfl ⟨⟨hlauncher, hproven, hvalid⟩, rfl, ?_⟩ (hp.early hstage).2,
        fun _ => hp.havePotato hover, fun _ => hp.replacement hover⟩, fun req hreq => ?_⟩
      · show some (ChannelState.opened _ (p.toOffChainPhaseInit.setup _ _ _)) = _
        rw [hinit]
        rfl
      · simp at hreq
    exact hrest _ rfl
  | _ => exact Act.triple_throw fun p hp => hp.1

theorem trySendStepF_signed (info : HandshakeStepInfo) (hstage : v.stage = .signed) : Act.Triple
    (fun p => p.view = v) (trySendStepF info : Method W _)
    (fun effects p => p.view = v ∧ ∀ req, .needCoinSpend req ∉ effects) (fun p => p.view = v) := by
  refine Act.triple_read fun p hp => ?_
  cases p.channelFinishedTransaction with
  | none => exact fun q hq => hq ▸ ⟨hp, by simp⟩
  | some spend =>
    rintro q rfl
    have hsame : ({ q with state := .finished ⟨info, spend⟩ } : HandshakeReceiverPhase W).view = q.view :=
      view_of_stage (hstage.symm.trans (congrArg View.stage hp.symm))
    exact ⟨hsame.trans hp, by simp⟩

theorem trySendStepF_safe (info : HandshakeStepInfo) : Act.Triple
    (fun p => Inv E phi p ∧ p.state.stage = .signed) (trySendStepF info : Method W _) (Leaves E phi) (Inv E phi) := by
  rintro p ⟨hinv, hstage⟩
  refine (trySendStepF_signed info hstage).mono (fun _ => id) (fun effects q hq => .of_view hinv hq.1 hq.2)
    (fun q hq => ?_) p rfl
  rw [Inv, show q.view = p.view from hq]
  exact hinv

/-- The bundle may be found empty after the signatures are stored. -/
theorem receiveE_safe (info : HandshakeStepInfo) (msg : Message W) : Act.Triple
    (fun p => Inv E phi p ∧ p.state.stage = .opened) (receiveE E info msg) (Leaves E phi) (Inv E phi) := by
  cases msg with
  | handshakeE bundle signatures =>
    refine Act.Triple.bind (verifyAndStoreInitialPeerSignatures_safe signatures) fun _ => ?_
    rintro q ⟨hinv, hstage, o, c, msg, hrole, hsigned⟩
    have hover : q.view.stage ≠ .over := fun h => by cases hstage.symm.trans h
    have hrest : Act.Triple (fun r => r.view = q.view) (do
        let effects ← requestOrWait E
        if bundle.isEmpty then throw (.strErr "No spends to draw the channel coin from" [])
        else do
          modify fun p => { p with state := .waitingForCompletion info bundle }
          let sent ← trySendStepF info
          pure (effects ++ sent) : Method W _) (Leaves E phi) (Inv E phi) := by
      refine Act.Triple.bind ((requestOrWait_signed hinv.init hsigned).mono (fun _ => id) (fun _ _ => id)
        fun r (hr : r.view = q.view) => by rw [Inv, hr]; exact hinv) fun effects => ?_
      refine Act.triple_ite (fun _ => Act.triple_throw ?_) fun _ => ?_
      · rintro r ⟨⟨b, hview⟩, -⟩
        rw [Inv, hview]
        exact hinv.of_signed hover rfl rfl rfl (.inl hstage) hrole (hsigned.staged q.view.stage b)
      · rintro r ⟨⟨b, hview⟩, hcovered⟩
        have hafter : ({ r with state := .waitingForCompletion info bundle } : HandshakeReceiverPhase W).view =
            { q.view with stage := .signed, pending := b } := congrArg (fun v : View => { v with stage := .signed }) hview
        have hsent : Inv E phi { r with state := .waitingForCompletion info bundle } := by
          rw [Inv, hafter]
          exact hinv.of_signed hover rfl rfl rfl (.inr rfl) hrole (hsigned.staged .signed b)
        rw [hrole] at hcovered
        have hsend : Act.Triple (fun t => t.view = { q.view with stage := .signed, pending := b }) (do
            let sent ← trySendStepF info
            pure (effects ++ sent) : Method W _) (Leaves E phi) (Inv E phi) := by
          rw [Inv, hafter] at hsent
          refine Act.Triple.bind ((trySendStepF_signed info rfl).mono (fun _ => id) (fun _ _ => id)
            fun t ht => by rw [Inv, show t.view = _ from ht]; exact hsent) fun sent => ?_
          rintro t ⟨ht, hnone⟩
          refine ⟨by rw [Inv, ht]; exact hsent, ?_⟩
          rw [ht]
          exact (hcovered.of_channel rfl).append fun req hreq => absurd hreq (hnone req)
        exact hsend _ hafter
    exact hrest q rfl
  | _ => exact (pushFront_safe _).mono (fun p hp => hp.1) (fun _ _ => id) fun _ => id

/-- The phase that takes over starts from the signed state zero. -/
theorem offChainPhase_signed (hinv : Inv E phi p) (hover : p.view.stage ≠ .over) {o : Opening E.toChannelEnv}
    {c : Common.CoinString} {msg : HandshakePayloadB} (hrole : o.initiator = false) (h : p.view.Signed E phi o c msg)
    {ch : ChannelState} (hchannel : p.channelState = some ch) :
    p.offChainPhase ch = .fromCompletedHandshake o phi.gameTypes (p.incomingMessages.map Message.kept) := by
  obtain rfl : ch = o.channel := Option.some.inj (hchannel.symm.trans h.channelState)
  have hpotato : p.havePotato = .absent := hinv.havePotato hover
  have htypes : p.gameTypes = phi.gameTypes := congrArg OffChainPhaseInit.gameTypes hinv.init
  have hinfo : p.lastChannelCoinSpendInfo = _ := h.spendInfo
  rw [offChainPhase, hpotato, htypes, hinfo, OffChainPhase.fromCompletedHandshake, hrole]
  rfl

theorem tryTransitionToPotato_safe (effects : List (Effect W)) : Act.Triple (Leaves E phi effects)
    (tryTransitionToPotato : Method W Unit) (fun _ => Leaves E phi effects) (Inv E phi) := by
  rintro p ⟨hinv, hcovered⟩
  unfold tryTransitionToPotato
  split_ifs
  · exact ⟨hinv, hcovered⟩
  · exact ⟨hinv, hcovered⟩
  cases hstate : p.state with
  | finished step =>
    dsimp only
    cases hchannel : p.channelState with
    | none => exact hinv
    | some ch =>
      have hstage : p.view.stage = .signed := congrArg ReceiverState.stage hstate
      obtain ⟨hholds, hsame⟩ := hinv.pass hstage ({ p with
          channelState := none
          incomingMessages := []
          havePotato := .absent
          lastChannelCoinSpendInfo := none
          replacement := some (p.offChainPhase ch)
          state := .done } : HandshakeReceiverPhase W).view (p.incomingMessages.map Message.kept)
        rfl rfl rfl fun o c msg hrole hsigned =>
          congrArg some (offChainPhase_signed hinv (by rw [hstage]; decide) hrole hsigned hchannel)
      exact ⟨hholds, hcovered.of_channel hsame⟩
  | _ => exact ⟨hinv, hcovered⟩

theorem handle_safe (msg : Message W) (state : ReceiverState W) : Act.Triple
    (fun p => Inv E phi p ∧ p.state = state) (handle E msg state) (Leaves E phi) (Inv E phi) := by
  cases state with
  | waitingForA =>
    exact (receiveA_safe msg).mono (fun p hp => ⟨hp.1, by rw [hp.2]; rfl⟩) (fun _ _ => id) fun _ => id
  | sentB info =>
    exact (receiveC_safe info msg).mono (fun p hp => ⟨hp.1, by rw [hp.2]; rfl⟩) (fun _ _ => id) fun _ => id
  | sentD info =>
    exact (receiveE_safe info msg).mono (fun p hp => ⟨hp.1, by rw [hp.2]; rfl⟩) (fun _ _ => id) fun _ => id
  | _ => exact (pushFront_safe msg).mono (fun p hp => hp.1) (fun _ _ => id) fun _ => id

/-- A method whose channel may be passed on at the end. -/
theorem transition_safe {pre : HandshakeReceiverPhase W → Prop} {x : Method W (List (Effect W))}
    (h : Act.Triple pre x (Leaves E phi) (Inv E phi)) : Act.Triple pre (do
      let effects ← x
      tryTransitionToPotato
      pure effects : Method W _) (Leaves E phi) (Inv E phi) :=
  h.bind fun effects => (tryTransitionToPotato_safe effects).bind fun _ => Act.triple_pure fun _ hp => hp

theorem processQueuedMessage_safe : Safe E phi (processQueuedMessage E : Method W _) := by
  refine Act.triple_read fun p hp => ?_
  cases p.incomingMessages with
  | nil => exact fun q hq => hq ▸ .of_view hp rfl (by simp)
  | cons msg rest =>
    refine Act.triple_modify_bind (Act.triple_read fun q hq => transition_safe ?_)
    refine (handle_safe msg q.state).mono (fun r hr => ⟨?_, by rw [hr]⟩) (fun _ _ => id) fun _ => id
    rw [hr, hq]
    exact hp

theorem receivedMessage_safe (msg : Message W) : Safe E phi (receivedMessage E msg : Method W _) := fun p hp =>
  processQueuedMessage_safe { p with incomingMessages := p.incomingMessages ++ [msg] } hp

theorem coinCreated_safe : Safe E phi (coinCreated : Method W _) := by
  refine Act.triple_read fun p hp => Act.triple_ite (fun _ q hq => hq ▸ .of_view hp rfl (by simp)) fun _ => ?_
  refine Act.triple_read fun q hq => Act.triple_ite (fun _ r hr => hr ▸ hq ▸ .of_view hp rfl (by simp)) fun _ => ?_
  refine Act.triple_modify_bind (Act.triple_read fun r hr => ?_)
  have hr : Inv E phi r := hr ▸ hq ▸ hp
  cases hstate : r.state with
  | waitingForCompletion info aliceBundle =>
    refine transition_safe ((trySendStepF_safe info).mono ?_ (fun _ _ => id) fun _ => id)
    rintro t rfl
    exact ⟨hr, by rw [hstate]; rfl⟩
  | _ =>
    refine ((tryTransitionToPotato_safe []).mono ?_ (fun _ _ => id) fun _ => id).bind fun _ =>
      Act.triple_pure fun _ h => h
    rintro t rfl
    exact .of_view hr rfl (by simp)

/-- Without a channel there is no request. -/
theorem requestCoinSpend_safe : Act.Triple (fun p => Inv E phi p ∧ ∀ ch, p.channelState = some ch →
    ∃ o c msg, o.initiator = false ∧ p.view.Signed E phi o c msg) (requestCoinSpend E : Method W _) (Leaves E phi)
    (Inv E phi) := by
  rintro p ⟨hinv, hsigned⟩
  cases hchannel : p.channelState with
  | none =>
    have hrun : requestCoinSpend E p =
        .error (.strErr "receiver handshake: no channel handler yet" []) p := by
      rw [requestCoinSpend, Act.bind_of_ok (Act.get_apply p), buildBobCoinSpendRequest, getChannelState, hchannel]
      rfl
    rw [hrun]
    exact hinv
  | some ch =>
    obtain ⟨o, c, msg, hrole, h⟩ := hsigned ch hchannel
    refine (requestCoinSpend_signed hinv.init h).mono (fun _ => id) (fun effects q hq => ?_) (fun q hq => ?_) p rfl
    · rw [hrole] at hq
      exact ⟨by rw [Inv, hq.1]; exact hinv, by rw [hq.1]; exact hq.2⟩
    · rw [Inv, show q.view = p.view from hq]
      exact hinv

theorem newBlock_safe (height : ℕ) : Safe E phi (newBlock E height : Method W _) := by
  refine (modify_safe fun _ => by rfl).bind fun _ => Act.triple_read fun q hq =>
    Act.triple_ite (fun hpending => ?_) fun _ r hr => ?_
  · refine Act.triple_modify_bind (requestCoinSpend_safe.mono (fun r hr => ?_) (fun _ _ => id) fun _ => id)
    subst hr
    refine ⟨hq.noPending, fun ch hchannel => ?_⟩
    -- a request that waits was put off when the signatures were stored
    obtain ⟨o, c, msg, hrole, h⟩ := hq.waiting hpending.1 hchannel
    exact ⟨o, c, msg, hrole, h.staged _ false⟩
  · subst hr
    exact .of_view hq rfl (by simp)

theorem channelTransactionCompletion_safe (bundle : SpendBundle W) :
    Safe E phi (channelTransactionCompletion bundle : Method W _) := by
  refine (modify_safe fun _ => by rfl).bind fun _ => Act.triple_read fun q hq => ?_
  cases hstate : q.state with
  | waitingForCompletion info aliceBundle =>
    refine transition_safe ((trySendStepF_safe info).mono ?_ (fun _ _ => id) fun _ => id)
    rintro r rfl
    exact ⟨hq, by rw [hstate]; rfl⟩
  | _ =>
    rintro r rfl
    exact .of_view hq rfl (by simp)

theorem provideCoinSpendBundle_safe (bundle : SpendBundle W) :
    Safe E phi (provideCoinSpendBundle bundle : Method W _) := by
  refine Act.triple_read fun p hp => ?_
  have hcompletion (bundle : SpendBundle W) : Act.Triple (fun q => q = p) (channelTransactionCompletion bundle)
      (Leaves E phi) (Inv E phi) :=
    (channelTransactionCompletion_safe bundle).mono (fun q hq => hq ▸ hp) (fun _ _ => id) fun _ => id
  cases p.state with
  | waitingForCompletion info aliceBundle =>
    refine (hcompletion _).bind fun effects => ?_
    rintro q ⟨hinv, hcovered⟩
    exact ⟨hinv, hcovered.append (Covered.nil.cons (by simp))⟩
  | _ => exact hcompletion _

end HandshakeReceiverPhase

end Handshake

end ChiaGaming
