import ChiaGaming.Handshake.Stages

namespace ChiaGaming

namespace Handshake

variable {E : HandshakeEnv} {phi : OffChainPhaseInit} {W : Type} {v : View}

namespace HandshakeInitiatorPhase

variable {p : HandshakeInitiatorPhase W}

/-- The invariant of the initiator. -/
def Inv (E : HandshakeEnv) (phi : OffChainPhaseInit) (p : HandshakeInitiatorPhase W) : Prop :=
  p.view.Holds E phi true

/-- What a method leaves behind: the invariant, and requests only for signed channels. -/
def Leaves (E : HandshakeEnv) (phi : OffChainPhaseInit) (effects : List (Effect W)) (p : HandshakeInitiatorPhase W) :
    Prop := Inv E phi p ∧ Covered E phi true p.view effects

/-- A method that keeps the invariant. -/
abbrev Safe (E : HandshakeEnv) (phi : OffChainPhaseInit) (x : Method W (List (Effect W))) : Prop :=
  Act.Triple (Inv E phi) x (Leaves E phi) (Inv E phi)

theorem buildAliceCoinSpendRequest_signed {o : Opening E.toChannelEnv} {c : Common.CoinString}
    {msg : HandshakePayloadB} (hphi : p.toOffChainPhaseInit = phi) (h : p.view.Signed E phi o c msg)
    {req : CoinSpendRequest} (hreq : p.buildAliceCoinSpendRequest E = .ok req) : Requested E phi o c req := by
  have hchannel : p.channelState = some o.channel := h.channelState
  have hlauncher : p.launcherCoin = some c := h.launcherCoin
  rw [buildAliceCoinSpendRequest, getChannelState, getLauncherCoin, hchannel, hlauncher] at hreq
  cases hparts : getCoinStringParts c with
  | error e =>
    simp only [orError, hparts, ok_bind] at hreq
    cases hreq
  | ok parts =>
    simp only [orError, hparts, ok_bind] at hreq
    obtain rfl := Except.ok.inj hreq
    exact ⟨congrArg OffChainPhaseInit.myContribution hphi, List.mem_cons_of_mem _ List.mem_cons_self⟩

theorem requestCoinSpend_signed {o : Opening E.toChannelEnv} {c : Common.CoinString} {msg : HandshakePayloadB}
    (hphi : v.phi = phi) (h : v.Signed E phi o c msg) : Act.Triple (fun p => p.view = v)
      (requestCoinSpend E : Method W _) (fun effects p => p.view = v ∧ Covered E phi o.initiator v effects)
      (fun p => p.view = v) := by
  refine Act.triple_read fun p hp => Act.triple_lift_bind (fun q hq => hq ▸ hp) fun req hreq => ?_
  refine Act.triple_modify_bind (Act.triple_pure fun q hq => ?_)
  subst hq hp
  exact ⟨rfl, h.funded (buildAliceCoinSpendRequest_signed hphi h hreq)⟩

theorem requestOrWait_signed {o : Opening E.toChannelEnv} {c : Common.CoinString} {msg : HandshakePayloadB}
    (hphi : v.phi = phi) (h : v.Signed E phi o c msg) : Act.Triple (fun p => p.view = v)
      (requestOrWait E : Method W _)
      (fun effects p => (∃ b, p.view = { v with pending := b }) ∧ Covered E phi o.initiator v effects)
      (fun p => p.view = v) := by
  refine Act.triple_read fun p hp => Act.triple_ite (fun _ => ?_) fun _ => ?_
  · refine (requestCoinSpend_signed hphi h).mono (fun q hq => hq ▸ hp) ?_ fun q hq => hq
    exact fun effects q hq => ⟨⟨v.pending, hq.1⟩, hq.2⟩
  · refine Act.triple_modify_bind (Act.triple_pure fun q hq => ?_)
    subst hq hp
    exact ⟨⟨true, rfl⟩, Covered.nil⟩

theorem verifyAndStoreInitialPeerSignatures_safe (signatures : StateUpdateSignatures) : Act.Triple
    (fun p => Inv E phi p ∧ p.state.stage = .opened) (verifyAndStoreInitialPeerSignatures E signatures : Method W Unit)
    (fun _ p => Inv E phi p ∧ p.state.stage = .opened ∧ ∃ o c msg, o.initiator = true ∧ p.view.Signed E phi o c msg)
    (Inv E phi) := by
  rintro p ⟨hinv, hstage⟩
  unfold verifyAndStoreInitialPeerSignatures
  cases hchannel : p.channelState with
  | none => exact hinv
  | some ch =>
    dsimp only
    cases hr : ch.verifyAndStoreInitialPeerSignatures E.toChannelEnv signatures with
    | error e ch' =>
      obtain rfl := ChannelState.verifyAndStoreInitialPeerSignatures_error hr
      have hview : ({ p with channelState := some ch' } : HandshakeInitiatorPhase W).view = p.view := by
        unfold view
        rw [hchannel]
      show View.Holds E phi true _
      rw [hview]
      exact hinv
    | ok spendInfo ch' =>
      obtain ⟨o, c, msg, hrole, hsigned⟩ := hinv.store hstage hchannel hr
      have hover : p.view.stage ≠ .over := fun h => by
        rw [show p.view.stage = .opened from hstage] at h
        cases h
      exact ⟨hinv.of_signed hover rfl rfl rfl (.inl hstage) hrole hsigned, hstage, o, c, msg, hrole, hsigned⟩

theorem receiveD_safe (info : HandshakeStepInfo) (msg : Message W) : Act.Triple
    (fun p => Inv E phi p ∧ p.state.stage = .opened) (receiveD E info msg) (Leaves E phi) (Inv E phi) := by
  cases msg with
  | handshakeD signatures =>
    refine Act.triple_read fun p hp => Act.triple_lift_bind (fun q hq => hq ▸ hp.1) fun ch _ =>
      Act.triple_lift_bind (fun q hq => hq ▸ hp.1) fun ourSigs _ => ?_
    refine Act.Triple.bind ((verifyAndStoreInitialPeerSignatures_safe signatures).mono (fun q hq => hq ▸ hp)
      (fun _ _ => id) fun _ => id) fun _ => ?_
    rintro q ⟨hinv, hstage, o, c, msg, hrole, hsigned⟩
    have hrest : Act.Triple (fun r => r.view = q.view) (do
        let effects ← requestOrWait E
        modify fun p => { p with state := .waitingForOffer info ourSigs }
        pure effects : Method W _) (Leaves E phi) (Inv E phi) := by
      refine Act.Triple.bind ((requestOrWait_signed hinv.init hsigned).mono (fun _ => id) (fun _ _ => id)
        fun r (hr : r.view = q.view) => by rw [Inv, hr]; exact hinv) fun effects => ?_
      rintro r ⟨⟨b, hview⟩, hcovered⟩
      have hafter : ({ r with state := .waitingForOffer info ourSigs } : HandshakeInitiatorPhase W).view =
          { q.view with stage := .signed, pending := b } := congrArg (fun v : View => { v with stage := .signed }) hview
      have hover : q.view.stage ≠ .over := fun h => by cases hstage.symm.trans h
      show Inv E phi _ ∧ Covered E phi true _ effects
      rw [Inv, hafter]
      rw [hrole] at hcovered
      exact ⟨hinv.of_signed hover rfl rfl rfl (.inr rfl) hrole (hsigned.staged .signed b), hcovered.of_channel rfl⟩
    exact hrest q rfl
  | _ => exact Act.triple_throw fun p hp => hp.1

/-- Nothing that the invariant is about. -/
theorem Leaves.of_view {p' : HandshakeInitiatorPhase W} {effects : List (Effect W)} (h : Inv E phi p)
    (hview : p'.view = p.view) (heffects : ∀ req, .needCoinSpend req ∉ effects) : Leaves E phi effects p' :=
  ⟨by rw [Inv, hview]; exact h, fun req hreq => absurd hreq (heffects req)⟩

/-- A change of nothing that the invariant is about. -/
theorem modify_safe {f : HandshakeInitiatorPhase W → HandshakeInitiatorPhase W} (hf : ∀ p, (f p).view = p.view) :
    Act.Triple (Inv E phi) (modify f : Method W PUnit) (fun _ => Inv E phi) (Inv E phi) :=
  Act.triple_modify fun p hp => by rw [Inv, hf]; exact hp

theorem view_of_stage {state : InitiatorState W} (h : state.stage = p.state.stage) :
    ({ p with state } : HandshakeInitiatorPhase W).view = p.view := by
  unfold view
  rw [h]

theorem start_safe : Safe E phi (start E : Method W _) := by
  refine Act.triple_read fun p hp => ?_
  cases hstate : p.state with
  | waitingForStart =>
    rintro q rfl
    exact .of_view hp (view_of_stage (by rw [hstate]; rfl)) (by simp)
  | _ => exact Act.triple_throw fun q hq => hq ▸ hp

theorem receiveB_safe (handshakeA : HandshakePayloadB) (msg : Message W) : Act.Triple
    (fun p => Inv E phi p ∧ p.state.stage = .early) (receiveB E handshakeA msg) (Leaves E phi) (Inv E phi) := by
  cases msg with
  | handshakeB msg =>
    refine Act.triple_read fun p hp => Act.triple_lift_bind (fun q hq => hq ▸ hp.1) fun _ _ => ?_
    rintro q rfl
    exact .of_view hp.1 (view_of_stage hp.2.symm) (by simp)
  | _ => exact Act.triple_throw fun p hp => hp.1

/-- The phase that takes over starts from the signed state zero. -/
theorem offChainPhase_signed (hinv : Inv E phi p) (hover : p.view.stage ≠ .over) {o : Opening E.toChannelEnv}
    {c : Common.CoinString} {msg : HandshakePayloadB} (hrole : o.initiator = true) (h : p.view.Signed E phi o c msg)
    {ch : ChannelState} (hchannel : p.channelState = some ch) :
    p.offChainPhase ch = .fromCompletedHandshake o phi.gameTypes (p.incomingMessages.map Message.kept) := by
  obtain rfl : ch = o.channel := Option.some.inj (hchannel.symm.trans h.channelState)
  have hpotato : p.havePotato = .present := hinv.havePotato hover
  have htypes : p.gameTypes = phi.gameTypes := congrArg OffChainPhaseInit.gameTypes hinv.init
  have hinfo : p.lastChannelCoinSpendInfo = _ := h.spendInfo
  rw [offChainPhase, hpotato, htypes, hinfo, OffChainPhase.fromCompletedHandshake, hrole]
  rfl

theorem tryTransitionToPotato_safe (effects : List (Effect W)) : Act.Triple (Leaves E phi effects)
    (tryTransitionToPotato : Method W Unit) (fun _ => Leaves E phi effects) (Inv E phi) := by
  rintro p ⟨hinv, hcovered⟩
  unfold tryTransitionToPotato
  split_ifs
  · exact ⟨hinv, hcovered⟩
  · exact ⟨hinv, hcovered⟩
  cases hstate : p.state with
  | finished step =>
    dsimp only
    cases hchannel : p.channelState with
    | none => exact hinv
    | some ch =>
      have hstage : p.view.stage = .signed := congrArg InitiatorState.stage hstate
      obtain ⟨hholds, hsame⟩ := hinv.pass hstage ({ p with
          channelState := none
          incomingMessages := []
          havePotato := .absent
          lastChannelCoinSpendInfo := none
          replacement := some (p.offChainPhase ch)
          state := .done } : HandshakeInitiatorPhase W).view (p.incomingMessages.map Message.kept)
        rfl rfl rfl fun o c msg hrole hsigned =>
          congrArg some (offChainPhase_signed hinv (by rw [hstage]; decide) hrole hsigned hchannel)
      exact ⟨hholds, hcovered.of_channel hsame⟩
  | _ => exact ⟨hinv, hcovered⟩

theorem pushFront_safe (msg : Message W) : Safe E phi (do
    pushFront msg
    pure [] : Method W (List (Effect W))) := fun _ hp => .of_view hp rfl (by simp)

theorem receiveF_safe (msg : Message W) : Safe E phi (receiveF msg : Method W _) := by
  cases msg with
  | handshakeF bundle => exact fun _ hp => .of_view hp rfl (by simp)
  | _ => exact pushFront_safe _

theorem handle_safe (msg : Message W) (state : InitiatorState W) : Act.Triple
    (fun p => Inv E phi p ∧ p.state = state) (handle E msg state) (Leaves E phi) (Inv E phi) := by
  cases state with
  | waitingForStart => exact Act.triple_throw fun p hp => hp.1
  | sentA handshakeA =>
    exact (receiveB_safe handshakeA msg).mono (fun p hp => ⟨hp.1, by rw [hp.2]; rfl⟩) (fun _ _ => id) fun _ => id
  | sentC info =>
    exact (receiveD_safe info msg).mono (fun p hp => ⟨hp.1, by rw [hp.2]; rfl⟩) (fun _ _ => id) fun _ => id
  | finished step => exact (receiveF_safe msg).mono (fun p hp => hp.1) (fun _ _ => id) fun _ => id
  | _ => exact (pushFront_safe msg).mono (fun p hp => hp.1) (fun _ _ => id) fun _ => id

/-- A method whose channel may be passed on at the end. -/
theorem transition_safe {pre : HandshakeInitiatorPhase W → Prop} {x : Method W (List (Effect W))}
    (h : Act.Triple pre x (Leaves E phi) (Inv E phi)) : Act.Triple pre (do
      let effects ← x
      tryTransitionToPotato
      pure effects : Method W _) (Leaves E phi) (Inv E phi) :=
  h.bind fun effects => (tryTransitionToPotato_safe effects).bind fun _ => Act.triple_pure fun _ hp => hp

theorem processQueuedMessage_safe : Safe E phi (processQueuedMessage E : Method W _) := by
  refine Act.triple_read fun p hp => ?_
  cases p.incomingMessages with
  | nil => exact fun q hq => hq ▸ .of_view hp rfl (by simp)
  | cons msg rest =>
    refine Act.triple_modify_bind (Act.triple_read fun q hq => transition_safe ?_)
    refine (handle_safe msg q.state).mono (fun r hr => ⟨?_, by rw [hr]⟩) (fun _ _ => id) fun _ => id
    rw [hr, hq]
    exact hp

theorem receivedMessage_safe (msg : Message W) : Safe E phi (receivedMessage E msg : Method W _) := fun p hp =>
  processQueuedMessage_safe { p with incomingMessages := p.incomingMessages ++ [msg] } hp

theorem coinCreated_safe : Safe E phi (coinCreated : Method W _) := by
  refine Act.triple_read fun p hp => Act.triple_ite (fun _ q hq => hq ▸ .of_view hp rfl (by simp)) fun _ => ?_
  refine Act.triple_read fun q hq => Act.triple_ite (fun _ r hr => hr ▸ hq ▸ .of_view hp rfl (by simp)) fun _ => ?_
  refine Act.triple_modify_bind ?_
  refine ((tryTransitionToPotato_safe []).mono ?_ (fun _ _ => id) fun _ => id).bind fun _ =>
    Act.triple_pure fun _ h => h
  rintro r rfl
  exact .of_view (hq ▸ hp) rfl (by simp)

/-- Without a channel there is no request. -/
theorem requestCoinSpend_safe : Act.Triple (fun p => Inv E phi p ∧ ∀ ch, p.channelState = some ch →
    ∃ o c msg, o.initiator = true ∧ p.view.Signed E phi o c msg) (requestCoinSpend E : Method W _) (Leaves E phi)
    (Inv E phi) := by
  rintro p ⟨hinv, hsigned⟩
  cases hchannel : p.channelState with
  | none =>
    have hrun : requestCoinSpend E p =
        .error (.strErr "initiator handshake: no channel handler yet" []) p := by
      rw [requestCoinSpend, Act.bind_of_ok (Act.get_apply p), buildAliceCoinSpendRequest, getChannelState, hchannel]
      rfl
    rw [hrun]
    exact hinv
  | some ch =>
    obtain ⟨o, c, msg, hrole, h⟩ := hsigned ch hchannel
    refine (requestCoinSpend_signed hinv.init h).mono (fun _ => id) (fun effects q hq => ?_) (fun q hq => ?_) p rfl
    · rw [hrole] at hq
      exact ⟨by rw [Inv, hq.1]; exact hinv, by rw [hq.1]; exact hq.2⟩
    · rw [Inv, show q.view = p.view from hq]
      exact hinv

theorem newBlock_safe (height : ℕ) : Safe E phi (newBlock E height : Method W _) := by
  refine (modify_safe fun _ => by rfl).bind fun _ => Act.triple_read fun q hq =>
    Act.triple_ite (fun hpending => ?_) fun _ r hr => ?_
  · refine Act.triple_modify_bind (requestCoinSpend_safe.mono (fun r hr => ?_) (fun _ _ => id) fun _ => id)
    subst hr
    refine ⟨hq.noPending, fun ch hchannel => ?_⟩
    -- a request that waits was put off when the signatures were stored
    obtain ⟨o, c, msg, hrole, h⟩ := hq.waiting hpending.1 hchannel
    exact ⟨o, c, msg, hrole, h.staged _ false⟩
  · subst hr
    exact .of_view hq rfl (by simp)

theorem trySendStepE_safe (info : HandshakeStepInfo) (ourSigs : StateUpdateSignatures) : Act.Triple
    (fun p => Inv E phi p ∧ p.state.stage = .signed) (trySendStepE info ourSigs : Method W _) (Leaves E phi)
    (Inv E phi) := by
  refine Act.triple_read fun p hp => ?_
  cases p.channelInitiationTransaction with
  | none => exact fun q hq => hq ▸ .of_view hp.1 rfl (by simp)
  | some spend =>
    rintro q rfl
    exact .of_view hp.1 (view_of_stage hp.2.symm) (by simp)

theorem channelOffer_safe (bundle : SpendBundle W) : Safe E phi (channelOffer bundle : Method W _) := by
  refine (modify_safe fun _ => by rfl).bind fun _ => Act.triple_read fun q hq => ?_
  cases hstate : q.state with
  | waitingForOffer info sigs =>
    refine transition_safe ((trySendStepE_safe info sigs).mono ?_ (fun _ _ => id) fun _ => id)
    rintro r rfl
    exact ⟨hq, by rw [hstate]; rfl⟩
  | _ =>
    rintro r rfl
    exact .of_view hq rfl (by simp)

theorem provideCoinSpendBundle_safe (walletBundle : SpendBundle W) :
    Safe E phi (provideCoinSpendBundle walletBundle : Method W _) := by
  refine Act.triple_read fun p hp => ?_
  have hoffer (bundle : SpendBundle W) : Act.Triple (fun q => q = p) (channelOffer bundle) (Leaves E phi)
      (Inv E phi) := (channelOffer_safe bundle).mono (fun q hq => hq ▸ hp) (fun _ _ => id) fun _ => id
  cases p.state with
  | waitingForOffer info sigs =>
    refine Act.triple_read fun q hq => Act.triple_lift_bind (fun r hr => ?_) fun launcherSpend _ => ?_
    · subst hr hq
      exact hp
    · exact hq ▸ hoffer _
  | _ => exact hoffer _

theorem provideLauncherCoin_safe (launcherCoin : Common.CoinString) :
    Safe E phi (provideLauncherCoin E launcherCoin : Method W _) := by
  refine Act.triple_read fun p hp => ?_
  cases hstate : p.state with
  | waitingForLauncher info =>
    refine Act.triple_lift_bind (fun q hq => hq ▸ hp) fun _ hlauncher => ?_
    refine Act.triple_read fun q hq => Act.triple_lift_bind (fun r hr => hr ▸ hq ▸ hp) fun ch hch => ?_
    subst hq
    refine Act.triple_modify_bind fun r hr => ?_
    subst hr
    obtain ⟨hproven, hvalid, rfl⟩ := makeChannelState_eq_ok_iff.mp hch
    have hinit : q.toOffChainPhaseInit = phi := hp.init
    have hstage : q.view.stage = .early := congrArg InitiatorState.stage hstate
    have hover : q.view.stage ≠ .over := by
      rw [hstage]
      decide
    rw [hinit] at hvalid
    refine ⟨⟨hinit, .opened rfl ⟨⟨hlauncher, hproven, hvalid⟩, rfl, ?_⟩ (hp.early hstage).2,
      fun _ => hp.havePotato hover, fun _ => hp.replacement hover⟩, fun req hreq => ?_⟩
    · show some (ChannelState.opened _ (q.toOffChainPhaseInit.setup _ _ _)) = _
      rw [hinit]
      rfl
    · simp at hreq
  | _ => exact Act.triple_throw fun q hq => hq ▸ hp

end HandshakeInitiatorPhase

end Handshake

end ChiaGaming
