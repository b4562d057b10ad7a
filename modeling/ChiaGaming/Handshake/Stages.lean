import ChiaGaming.Handshake.Initiator
import ChiaGaming.Handshake.Receiver
import ChiaGaming.Lib.Triple
import ChiaGaming.Session.Reach

namespace ChiaGaming

namespace ChannelState

variable {E : ChannelEnv} {s : Setup} {signatures signatures' : StateUpdateSignatures}

/-- Signatures that are refused leave the channel as it is. -/
theorem verifyAndStoreInitialPeerSignatures_error {ch ch' : ChannelState} {e : Error}
    (h : verifyAndStoreInitialPeerSignatures E signatures ch = .error e ch') : ch' = ch := by
  simp only [verifyAndStoreInitialPeerSignatures, Act.bind_apply, Act.get_apply] at h
  cases hverify : ch.latestSentUnroll.coin.verify E ch.getAggregateUnrollPublicKey
      signatures.unrollPreemptHalfSig with
  | error e' =>
    rw [hverify] at h
    simp only [Act.lift_error, EStateM.Result.error.injEq] at h
    exact h.2.symm
  | ok verified =>
    rw [hverify] at h
    cases verified with
    | false =>
      simp only [Act.lift_ok, Bool.false_eq_true, not_false_eq_true, if_true, Act.throw_apply,
        EStateM.Result.error.injEq] at h
      exact h.2.symm
    | true =>
      simp only [Act.lift_ok, not_true_eq_false, if_false, Act.bind_apply] at h
      cases hspend : ch.createConditionsAndSignatureOfChannelCoin E ch.latestSentUnroll.coin with
      | error e' =>
        rw [hspend] at h
        simp only [Act.lift_error, EStateM.Result.error.injEq] at h
        exact h.2.symm
      | ok spend =>
        rw [hspend] at h
        cases hpeer : ch.verifyChannelCoinFromPeerSignatures E signatures.channelHalfSig spend.conditions with
        | error e' =>
          simp only [Act.lift_ok, hpeer, Act.lift_error, EStateM.Result.error.injEq] at h
          exact h.2.symm
        | ok verifiedSpend =>
          simp only [Act.lift_ok, hpeer, Act.set_apply, Act.pure_apply] at h
          cases h

/-- Signatures may come a second time. -/
theorem verifyAndStoreInitialPeerSignatures_shaken {spend : ChannelCoinSpendInfo} {ch : ChannelState}
    (h : verifyAndStoreInitialPeerSignatures E signatures' (shaken E s signatures) = .ok spend ch) :
    verifyAndStoreInitialPeerSignatures E signatures' (opened E s) = .ok spend ch := by
  have hverify : (shaken E s signatures).latestSentUnroll.coin.verify E
      (shaken E s signatures).getAggregateUnrollPublicKey signatures'.unrollPreemptHalfSig =
      (opened E s).latestSentUnroll.coin.verify E (opened E s).getAggregateUnrollPublicKey
        signatures'.unrollPreemptHalfSig := rfl
  have hspend : (shaken E s signatures).createConditionsAndSignatureOfChannelCoin E
      (shaken E s signatures).latestSentUnroll.coin =
      (opened E s).createConditionsAndSignatureOfChannelCoin E (opened E s).latestSentUnroll.coin := rfl
  have hpeer (conditions : Clvm) : (shaken E s signatures).verifyChannelCoinFromPeerSignatures E
      signatures'.channelHalfSig conditions =
      (opened E s).verifyChannelCoinFromPeerSignatures E signatures'.channelHalfSig conditions := rfl
  simp only [verifyAndStoreInitialPeerSignatures, Act.bind_apply, Act.get_apply, hverify, hspend, hpeer] at h ⊢
  cases hv : (opened E s).latestSentUnroll.coin.verify E (opened E s).getAggregateUnrollPublicKey
      signatures'.unrollPreemptHalfSig with
  | error e =>
    rw [hv] at h
    cases h
  | ok verified =>
    rw [hv] at h
    cases verified with
    | false => cases h
    | true =>
      simp only [Act.lift_ok, not_true_eq_false, if_false, Act.bind_apply] at h ⊢
      cases hs : (opened E s).createConditionsAndSignatureOfChannelCoin E (opened E s).latestSentUnroll.coin with
      | error e =>
        rw [hs] at h
        cases h
      | ok made =>
        rw [hs] at h
        simp only [Act.lift_ok] at h ⊢
        cases hp : (opened E s).verifyChannelCoinFromPeerSignatures E signatures'.channelHalfSig made.conditions with
        | error e =>
          rw [hp] at h
          cases h
        | ok verifiedSpend =>
          rw [hp] at h
          exact h

end ChannelState

namespace Handshake

variable {E : HandshakeEnv} {phi : OffChainPhaseInit} {W : Type}

/-! The checks. -/

/-- The player of the payload holds its keys. -/
structure HandshakePayloadB.Proven (E : HandshakeEnv) (msg : HandshakePayloadB) : Prop where
  payout : verifyRewardPayoutSignature msg.refereePubkey msg.rewardPuzzleHash msg.rewardPayoutSignature
  channelKey : verify msg.channelPublicKey (E.keyBytes msg.channelPublicKey) msg.channelKeyPop
  unrollKey : verify msg.unrollPublicKey (E.keyBytes msg.unrollPublicKey) msg.unrollKeyPop

theorem check_eq_ok_iff {msg : HandshakePayloadB} (payload place : String) :
    msg.check E payload place = .ok () ↔ msg.Proven E := by
  unfold HandshakePayloadB.check
  split_ifs with hpayout hchannel hunroll
  · exact ⟨fun _ => ⟨hpayout, hchannel, hunroll⟩, fun _ => rfl⟩
  · exact ⟨fun h => (by cases h), fun h => absurd h.unrollKey hunroll⟩
  · exact ⟨fun h => (by cases h), fun h => absurd h.channelKey hchannel⟩
  · exact ⟨fun h => (by cases h), fun h => absurd h.payout hpayout⟩

theorem checkContributions_eq_ok_iff {msg : HandshakePayloadB} (payload : String) :
    phi.checkContributions msg payload = .ok () ↔
      msg.myContribution = phi.theirContribution ∧ msg.theirContribution = phi.myContribution := by
  unfold OffChainPhaseInit.checkContributions
  split_ifs with hmine htheirs
  · exact ⟨fun h => (by cases h), fun h => absurd h.1 hmine⟩
  · exact ⟨fun h => (by cases h), fun h => absurd h.2 htheirs⟩
  · exact ⟨fun _ => ⟨not_not.mp hmine, not_not.mp htheirs⟩, fun _ => rfl⟩

theorem checkReceived_eq_ok_iff {msg : HandshakePayloadB} {payload : String} :
    phi.checkReceived E msg payload = .ok () ↔ msg.Proven E ∧
      msg.myContribution = phi.theirContribution ∧ msg.theirContribution = phi.myContribution := by
  unfold OffChainPhaseInit.checkReceived
  rw [← check_eq_ok_iff payload (" in " ++ payload), ← checkContributions_eq_ok_iff payload]
  cases msg.check E payload (" in " ++ payload) with
  | ok _ => exact (and_iff_right rfl).symm
  | error e => exact ⟨fun h => (by cases h), fun h => (by cases h.1)⟩

theorem makeChannelState_eq_ok_iff {parent : Hash} {startPotato : Bool} {msg : HandshakePayloadB}
    {ch : ChannelState} : phi.makeChannelState E parent startPotato msg = .ok ch ↔
      msg.Proven E ∧ (phi.setup parent startPotato msg).Valid ∧
        ch = ChannelState.opened E.toChannelEnv (phi.setup parent startPotato msg) := by
  unfold OffChainPhaseInit.makeChannelState
  rw [← ChannelState.new_eq_ok_iff, ← check_eq_ok_iff "handshake" ""]
  cases msg.check E "handshake" "" with
  | ok _ => exact (and_iff_right rfl).symm
  | error e => exact ⟨fun h => (by cases h), fun h => (by cases h.1)⟩

/-- Our own payload passes. -/
theorem myHandshakeB_proven (E : HandshakeEnv) (phi : OffChainPhaseInit) : (phi.myHandshakeB E).Proven E :=
  ⟨verify_sign _ _, verify_sign _ _, verify_sign _ _⟩

/-! Both roles go through the same stages. -/

inductive Stage where
  | early
  | opened
  | signed
  | over
  deriving DecidableEq

def InitiatorState.stage : InitiatorState W → Stage
  | .waitingForStart | .sentA _ | .waitingForLauncher _ => .early
  | .sentC _ => .opened
  | .waitingForOffer _ _ | .finished _ => .signed
  | .done => .over

def ReceiverState.stage : ReceiverState W → Stage
  | .waitingForA | .sentB _ => .early
  | .sentD _ => .opened
  | .waitingForCompletion _ _ | .finished _ => .signed
  | .done => .over

/-- What funding depends on. -/
structure View where
  phi : OffChainPhaseInit
  stage : Stage
  havePotato : PotatoState
  channelState : Option ChannelState
  launcherCoin : Option Common.CoinString
  spendInfo : Option ChannelCoinSpendInfo
  pending : Bool
  replacement : Option OffChainPhase

def HandshakeInitiatorPhase.view (p : HandshakeInitiatorPhase W) : View where
  phi := p.toOffChainPhaseInit
  stage := p.state.stage
  havePotato := p.havePotato
  channelState := p.channelState
  launcherCoin := p.launcherCoin
  spendInfo := p.lastChannelCoinSpendInfo
  pending := p.pendingCoinSpend
  replacement := p.replacement

def HandshakeReceiverPhase.view (p : HandshakeReceiverPhase W) : View where
  phi := p.toOffChainPhaseInit
  stage := p.state.stage
  havePotato := p.havePotato
  channelState := p.channelState
  launcherCoin := p.launcherCoin
  spendInfo := p.lastChannelCoinSpendInfo
  pending := p.pendingCoinSpend
  replacement := p.replacement

/-- The channel, also after it has been passed on. -/
def View.channel (v : View) : Option ChannelState := v.channelState <|> v.replacement.bind (·.channelState)

/-- A launcher and a peer that a channel can be made with. -/
structure Sound (E : HandshakeEnv) (phi : OffChainPhaseInit) (initiator : Bool) (c : Common.CoinString)
    (msg : HandshakePayloadB) : Prop where
  launcher : checkLauncher E c = .ok ()
  proven : msg.Proven E
  valid : (phi.setup (launcherCoinId E c) (!initiator) msg).Valid

/-- State zero is signed by both. -/
def Sound.opening {initiator : Bool} {c : Common.CoinString} {msg : HandshakePayloadB}
    (h : Sound E phi initiator c msg) {signatures : StateUpdateSignatures}
    (hverified : (ChannelState.opened E.toChannelEnv (phi.setup (launcherCoinId E c) (!initiator) msg)).Verifies
      E.toChannelEnv 0 signatures) : Opening E.toChannelEnv where
  initiator
  setup := phi.setup (launcherCoinId E c) (!initiator) msg
  signatures
  startPotato := rfl
  valid := h.valid
  channelKey := (verify_iff.mp h.proven.channelKey).1
  unrollKey := (verify_iff.mp h.proven.unrollKey).1
  verified := hverified

/-- The opening is that of a handshake with the player of a payload, for the coin of a launcher. -/
structure Agreed (E : HandshakeEnv) (phi : OffChainPhaseInit) (o : Opening E.toChannelEnv) (c : Common.CoinString)
    (msg : HandshakePayloadB) : Prop where
  sound : Sound E phi o.initiator c msg
  setup : o.setup = phi.setup (launcherCoinId E c) (!o.initiator) msg

def potatoOf (initiator : Bool) : PotatoState := if initiator then .present else .absent

namespace View

/-- Our side of state zero is signed. -/
structure Opened (E : HandshakeEnv) (phi : OffChainPhaseInit) (initiator : Bool) (v : View) (c : Common.CoinString)
    (msg : HandshakePayloadB) : Prop where
  sound : Sound E phi initiator c msg
  launcherCoin : v.launcherCoin = some c
  channelState : v.channelState =
    some (ChannelState.opened E.toChannelEnv (phi.setup (launcherCoinId E c) (!initiator) msg))

/-- Both sides are. -/
structure Signed (E : HandshakeEnv) (phi : OffChainPhaseInit) (v : View) (o : Opening E.toChannelEnv)
    (c : Common.CoinString) (msg : HandshakePayloadB) : Prop where
  agreed : Agreed E phi o c msg
  launcherCoin : v.launcherCoin = some c
  channelState : v.channelState = some o.channel
  spendInfo : v.spendInfo =
    some ((ChannelState.opened E.toChannelEnv o.setup).publishAt E.toChannelEnv 0 o.signatures)

/-- The phase has been passed on. -/
structure Passed (E : HandshakeEnv) (phi : OffChainPhaseInit) (v : View) (o : Opening E.toChannelEnv)
    (c : Common.CoinString) (msg : HandshakePayloadB) (incoming : List PeerMessage) : Prop where
  agreed : Agreed E phi o c msg
  channelState : v.channelState = none
  replacement : v.replacement = some (.fromCompletedHandshake o phi.gameTypes incoming)

/-- What each stage comes to. -/
inductive Standing (E : HandshakeEnv) (phi : OffChainPhaseInit) (initiator : Bool) (v : View) : Prop where
  | early (hstage : v.stage = .early) (hchannel : v.channelState = none) (hpending : v.pending = false)
  | opened {c : Common.CoinString} {msg : HandshakePayloadB} (hstage : v.stage = .opened)
      (h : v.Opened E phi initiator c msg) (hpending : v.pending = false)
  -- a receiver may have found the bundle empty after it has stored the signatures
  | signed {o : Opening E.toChannelEnv} {c : Common.CoinString} {msg : HandshakePayloadB}
      (hstage : v.stage = .opened ∨ v.stage = .signed) (hrole : o.initiator = initiator) (h : v.Signed E phi o c msg)
  | passed {o : Opening E.toChannelEnv} {c : Common.CoinString} {msg : HandshakePayloadB}
      {incoming : List PeerMessage} (hstage : v.stage = .over) (hrole : o.initiator = initiator)
      (h : v.Passed E phi o c msg incoming)

structure Holds (E : HandshakeEnv) (phi : OffChainPhaseInit) (initiator : Bool) (v : View) : Prop where
  init : v.phi = phi
  standing : v.Standing E phi initiator
  havePotato : v.stage ≠ .over → v.havePotato = potatoOf initiator
  replacement : v.stage ≠ .over → v.replacement = none

end View

/-- The wallet is asked for our share of the channel coin, to be spent together with the launcher that makes it. -/
structure Requested (E : HandshakeEnv) (phi : OffChainPhaseInit) (o : Opening E.toChannelEnv) (c : Common.CoinString)
    (req : CoinSpendRequest) : Prop where
  amount : req.amount = phi.myContribution
  announcement : ⟨assertCoinAnnouncement, [computeCoinAnnouncementHash E (launcherCoinId E c)
    o.channel.channelCoin.puzzleHash o.channel.channelCoin.amount]⟩ ∈ req.conditions

/-- A request for a channel coin whose state zero is signed by both. -/
def Funded (E : HandshakeEnv) (phi : OffChainPhaseInit) (initiator : Bool) (v : View) (req : CoinSpendRequest) : Prop :=
  ∃ o c msg, o.initiator = initiator ∧ Agreed E phi o c msg ∧ v.channel = some o.channel ∧ Requested E phi o c req

/-- Every request among the effects is. -/
def Covered (E : HandshakeEnv) (phi : OffChainPhaseInit) (initiator : Bool) (v : View) (effects : List (Effect W)) :
    Prop := ∀ req, .needCoinSpend req ∈ effects → Funded E phi initiator v req

section Standing

variable {initiator : Bool} {v : View}

namespace View

namespace Holds

theorem early (h : v.Holds E phi initiator) (hstage : v.stage = .early) :
    v.channelState = none ∧ v.pending = false := by
  cases h.standing with
  | early _ hchannel hpending => exact ⟨hchannel, hpending⟩
  | opened hs => rw [hs] at hstage; cases hstage
  | signed hs => rcases hs with hs | hs <;> rw [hs] at hstage <;> cases hstage
  | passed hs => rw [hs] at hstage; cases hstage

theorem signed (h : v.Holds E phi initiator) (hstage : v.stage = .signed) :
    ∃ o c msg, o.initiator = initiator ∧ v.Signed E phi o c msg := by
  cases h.standing with
  | early hs => rw [hs] at hstage; cases hstage
  | opened hs => rw [hs] at hstage; cases hstage
  | signed _ hrole hsigned => exact ⟨_, _, _, hrole, hsigned⟩
  | passed hs => rw [hs] at hstage; cases hstage

/-- A request that waits can only be made for a signed channel. -/
theorem waiting (h : v.Holds E phi initiator) (hpending : v.pending = true) {ch : ChannelState}
    (hchannel : v.channelState = some ch) : ∃ o c msg, o.initiator = initiator ∧ v.Signed E phi o c msg := by
  cases h.standing with
  | early _ _ hp => rw [hp] at hpending; cases hpending
  | opened _ _ hp => rw [hp] at hpending; cases hpending
  | signed _ hrole hsigned => exact ⟨_, _, _, hrole, hsigned⟩
  | passed _ _ hpassed =>
    rw [hpassed.channelState] at hchannel
    cases hchannel

theorem noPending (h : v.Holds E phi initiator) : ({ v with pending := false } : View).Holds E phi initiator where
  init := h.init
  standing := by
    cases h.standing with
    | early hs hchannel _ => exact .early hs hchannel rfl
    | opened hs ho _ => exact .opened hs ⟨ho.sound, ho.launcherCoin, ho.channelState⟩ rfl
    | signed hs hrole hsigned =>
      exact .signed hs hrole ⟨hsigned.agreed, hsigned.launcherCoin, hsigned.channelState, hsigned.spendInfo⟩
    | passed hs hrole hpassed =>
      exact .passed hs hrole ⟨hpassed.agreed, hpassed.channelState, hpassed.replacement⟩
  havePotato := h.havePotato
  replacement := h.replacement

end Holds

namespace Holds

/-- The channel is passed on with the phase. -/
theorem pass (h : v.Holds E phi initiator) (hstage : v.stage = .signed) (v' : View) (incoming : List PeerMessage)
    (hphi : v'.phi = v.phi) (hover : v'.stage = .over) (hchannel : v'.channelState = none)
    (hreplacement : ∀ o c msg, o.initiator = initiator → v.Signed E phi o c msg →
      v'.replacement = some (.fromCompletedHandshake o phi.gameTypes incoming)) :
    v'.Holds E phi initiator ∧ v'.channel = v.channel := by
  obtain ⟨o, c, msg, hrole, hsigned⟩ := h.signed hstage
  have hr := hreplacement o c msg hrole hsigned
  refine ⟨⟨hphi.trans h.init, .passed hover hrole ⟨hsigned.agreed, hchannel, hr⟩, fun hs => absurd hover hs,
    fun hs => absurd hover hs⟩, ?_⟩
  rw [channel, channel, hchannel, hsigned.channelState, hr]
  rfl

theorem of_signed (h : v.Holds E phi initiator) (hover : v.stage ≠ .over) {v' : View} (hphi : v'.phi = v.phi)
    (hpotato : v'.havePotato = v.havePotato) (hreplacement : v'.replacement = v.replacement)
    (hstage : v'.stage = .opened ∨ v'.stage = .signed) {o : Opening E.toChannelEnv} {c : Common.CoinString}
    {msg : HandshakePayloadB} (hrole : o.initiator = initiator) (hsigned : v'.Signed E phi o c msg) :
    v'.Holds E phi initiator :=
  ⟨hphi.trans h.init, .signed hstage hrole hsigned, fun _ => hpotato.trans (h.havePotato hover),
    fun _ => hreplacement.trans (h.replacement hover)⟩

/-- The peer's signatures are stored. -/
theorem store (h : v.Holds E phi initiator) (hstage : v.stage = .opened) {ch ch' : ChannelState}
    (hchannel : v.channelState = some ch) {signatures : StateUpdateSignatures} {spendInfo : ChannelCoinSpendInfo}
    (hr : ch.verifyAndStoreInitialPeerSignatures E.toChannelEnv signatures = .ok spendInfo ch') :
    ∃ o c msg, o.initiator = initiator ∧
      ({ v with channelState := some ch', spendInfo := some spendInfo } : View).Signed E phi o c msg := by
  have hstored {c : Common.CoinString} {msg : HandshakePayloadB} (hsound : Sound E phi initiator c msg)
      (hlauncher : v.launcherCoin = some c) (hopened : ChannelState.verifyAndStoreInitialPeerSignatures
        E.toChannelEnv signatures (ChannelState.opened E.toChannelEnv
          (phi.setup (launcherCoinId E c) (!initiator) msg)) = .ok spendInfo ch') :
      ∃ o c msg, o.initiator = initiator ∧
        ({ v with channelState := some ch', spendInfo := some spendInfo } : View).Signed E phi o c msg := by
    obtain ⟨hverified, rfl, rfl⟩ := (ChannelState.verifyAndStoreInitialPeerSignatures_eq_ok_iff _).mp hopened
    exact ⟨hsound.opening hverified, c, msg, rfl, ⟨hsound, rfl⟩, hlauncher, rfl, rfl⟩
  cases h.standing with
  | early hs => rw [hs] at hstage; cases hstage
  | opened _ ho =>
    obtain rfl := Option.some.inj (hchannel.symm.trans ho.channelState)
    exact hstored ho.sound ho.launcherCoin hr
  | signed _ hrole hsigned =>
    obtain rfl := Option.some.inj (hchannel.symm.trans hsigned.channelState)
    have hopened := ChannelState.verifyAndStoreInitialPeerSignatures_shaken hr
    rw [hsigned.agreed.setup, hrole] at hopened
    exact hstored (hrole ▸ hsigned.agreed.sound) hsigned.launcherCoin hopened
  | passed hs => rw [hs] at hstage; cases hstage

end Holds

/-- A signed channel may be waiting or not, and for more than its bundle. -/
theorem Signed.staged {o : Opening E.toChannelEnv} {c : Common.CoinString} {msg : HandshakePayloadB}
    (h : v.Signed E phi o c msg) (stage : Stage) (pending : Bool) :
    ({ v with stage, pending } : View).Signed E phi o c msg :=
  ⟨h.agreed, h.launcherCoin, h.channelState, h.spendInfo⟩

end View

theorem Covered.nil : Covered E phi initiator v ([] : List (Effect W)) := fun _ h => by cases h

theorem Covered.of_channel {v' : View} {effects : List (Effect W)} (h : Covered E phi initiator v effects)
    (hchannel : v'.channel = v.channel) : Covered E phi initiator v' effects := by
  intro req hreq
  obtain ⟨o, c, msg, hrole, hagreed, hv, hrequested⟩ := h req hreq
  exact ⟨o, c, msg, hrole, hagreed, hchannel.trans hv, hrequested⟩

/-- Effects of other kinds ask for no funds. -/
theorem Covered.cons {effects : List (Effect W)} {e : Effect W} (h : Covered E phi initiator v effects)
    (he : ∀ req, e ≠ .needCoinSpend req) : Covered E phi initiator v (e :: effects) := by
  intro req hreq
  rcases List.mem_cons.mp hreq with heq | hmem
  · exact absurd heq.symm (he req)
  · exact h req hmem

theorem Covered.append {xs ys : List (Effect W)} (hx : Covered E phi initiator v xs)
    (hy : Covered E phi initiator v ys) : Covered E phi initiator v (xs ++ ys) := fun req hreq =>
  (List.mem_append.mp hreq).elim (hx req) (hy req)

theorem View.Signed.funded {o : Opening E.toChannelEnv} {c : Common.CoinString} {msg : HandshakePayloadB}
    (h : v.Signed E phi o c msg) {req : CoinSpendRequest} (hrequested : Requested E phi o c req) :
    Covered E phi o.initiator v ([.needCoinSpend req] : List (Effect W)) := by
  intro req' hreq
  obtain rfl : req' = req := by simpa using hreq
  refine ⟨o, c, msg, rfl, h.agreed, ?_, hrequested⟩
  rw [View.channel, h.channelState]
  rfl

end Standing

end Handshake

end ChiaGaming
