import ChiaGaming.Session.Reach

namespace ChiaGaming

open Act

/-! The transactions that a peer's message lets us emit. -/

/-- An effect that neither spends a coin nor ends the session. -/
def Effect.Harmless : Effect → Prop
  | .spendTransaction _ => False
  | .completeZeroPayoutShutdown => False
  | _ => True

def Harmless (effects : List Effect) : Prop := ∀ e ∈ effects, e.Harmless

theorem harmless_nil : Harmless [] := fun _ h => by cases h

theorem Harmless.append {xs ys : List Effect} (hx : Harmless xs) (hy : Harmless ys) :
    Harmless (xs ++ ys) := fun e he => (List.mem_append.mp he).elim (hx e) (hy e)

theorem Harmless.cons {e : Effect} {xs : List Effect} (he : e.Harmless) (hx : Harmless xs) :
    Harmless (e :: xs) := fun e' he' => (List.mem_cons.mp he').elim (fun heq => heq ▸ he) (hx e')

theorem harmless_notify (ns : List GameNotification) : Harmless (ns.map .notify) := by
  intro e he
  obtain ⟨n, -, rfl⟩ := List.mem_map.mp he
  trivial

/-- A spend of the channel coin by a solution of the list, with a full signature for it. -/
structure Authorised (E : ChannelEnv) (ch : ChannelState) (solutions : List Clvm) (spend : CoinSpend) :
    Prop where
  coin : spend.coin = ch.channelCoin
  puzzle : spend.bundle.puzzle = .standard ch.getAggregateChannelPublicKey
  agreed : spend.bundle.solution ∈ solutions
  signed : ∃ conditions, spend.bundle.solution = solutionForConditions conditions ∧
    verify ch.getAggregateChannelPublicKey
      (channelSpendMessage E (ch.channelCoin.toCoinId E.sha256) conditions) spend.bundle.signature

/-- The shutdown that we have asked for, and the one that the message asks us for. -/
def agreedSolutions (pending : Option Clvm) : PeerMessage → List Clvm
  | .batch b => pending.toList ++ (b.cleanShutdown.map fun s => solutionForConditions s.2).toList
  | _ => pending.toList

/-- Every transaction that is emitted is authorised, and a shutdown that was not asked for changes
nothing. -/
def Lawful (E : ChannelEnv) (ch : ChannelState) (pending : Option Clvm) (msg : PeerMessage)
    (effects : List Effect) : Prop :=
  (∀ spends, .spendTransaction spends ∈ effects →
    ∀ spend ∈ spends, Authorised E ch (agreedSolutions pending msg) spend) ∧
  ∀ coinSpend, msg = .cleanShutdownComplete coinSpend → pending = none → Harmless effects

theorem Harmless.lawful {E : ChannelEnv} {ch : ChannelState} {pending : Option Clvm}
    {msg : PeerMessage} {effects : List Effect} (h : Harmless effects) :
    Lawful E ch pending msg effects :=
  ⟨fun _ hmem => (h _ hmem).elim, fun _ _ _ => h⟩

/-- After the channel coin is spent only the end of a shutdown is listened to. -/
def SpendChannelCoinPhase.receivedMessagePassive (_ : SpendChannelCoinPhase) :
    PeerMessage → List Effect
  | .cleanShutdownComplete coinSpend => [.spendTransaction [coinSpend]]
  | _ => []

namespace OffChainPhase

variable {E : ChannelEnv}

/-! Where no transaction comes from. -/

theorem Yields.bind {α β : Type} {Q : α → Prop} {R : β → Prop} {x : Act Error OffChainPhase α}
    {f : α → Act Error OffChainPhase β} (hx : Yields Q x) (hf : ∀ a, Q a → Yields R (f a)) :
    Yields R (x >>= f) := by
  intro p p' b hr
  obtain ⟨a, p₁, ha, hrest⟩ := Act.bind_eq_ok.mp hr
  exact hf a (hx p p₁ a ha) p₁ p' b hrest

def Drain.Harmless (d : Drain) : Prop := ChiaGaming.Harmless d.effects

theorem Drain.Harmless.notify {d : Drain} (h : d.Harmless) (ns : List GameNotification) :
    (d.notify ns).Harmless := h.append (harmless_notify ns)

theorem drainAction_harmless {d : Drain} (h : d.Harmless) (action : GameAction) :
    Yields Drain.Harmless (drainAction E d action) := by
  cases action with
  | move gameId readableMove newEntropy =>
    refine yields_bind _ fun ch => yields_ite (yields_pure h) ?_
    intro p p' d' hr
    dsimp only at hr
    split at hr
    · cases hr
      exact h
    · cases hr
      exact h.notify _
    · cases hr
  | acceptSettlement gameId => exact yields_bind _ fun _ => yields_pure h
  | cleanShutdown =>
    exact yields_bind _ fun _ => yields_ite (yields_throw _) (yields_bind _ fun _ =>
      yields_bind _ fun _ => yields_bind _ fun _ => yields_pure (h.notify _))
  | sendPotato => exact yields_throw _
  | queuedProposalGroup myGames theirWire =>
    intro p p' d' hr
    simp only [drainAction, drainProposalGroup] at hr
    split at hr
    · cases hr
      exact h
    · cases hr
  | queuedAcceptProposal gameId =>
    refine yields_bind _ fun ch => ?_
    split
    · exact yields_throw _
    · exact yields_ite (yields_throw _) (yields_ite
        (yields_bind _ fun _ => yields_pure (h.notify _))
        (yields_bind _ fun _ => yields_pure (h.notify _)))
  | queuedCancelProposal gameId =>
    exact yields_bind _ fun _ => yields_ite (yields_throw _)
      (yields_bind _ fun _ => yields_pure (h.notify _))
  | queuedCancelProposalSilently gameId =>
    exact yields_bind _ fun _ => yields_ite (yields_throw _)
      (yields_bind _ fun _ => yields_pure (h.notify _))
  | cheat gameId moverShare entropy =>
    exact yields_bind _ fun _ => yields_ite (yields_pure h)
      (yields_bind _ fun _ => yields_bind _ fun _ => yields_pure h)

theorem drainActions_harmless {d : Drain} (h : d.Harmless) (queue : List GameAction) :
    Yields Drain.Harmless (drainActions E d queue) := by
  induction queue generalizing d with
  | nil => exact yields_pure h
  | cons action rest ih =>
    exact yields_bind _ fun _ => (drainAction_harmless h action).bind fun d₁ h₁ => ih h₁

theorem drainQueueIntoBatch_harmless :
    Yields (fun result => Harmless result.2) (drainQueueIntoBatch E) := by
  have hempty : Drain.Harmless .empty := harmless_nil
  refine yields_bind _ fun _ => yields_ite (yields_throw _) (yields_bind _ fun p => ?_)
  refine (drainActions_harmless hempty p.gameActionQueue).bind fun d h => ?_
  refine yields_bind _ fun _ => yields_ite (yields_bind _ fun _ => yields_pure h) ?_
  exact yields_bind _ fun signatures => yields_bind _ fun _ =>
    yields_pure (h.append (harmless_nil.cons trivial))

theorem drainAfterReceive_harmless : Yields
    (fun r => Harmless r.2 ∧ ∀ result, r.1 = some result → Harmless result.2) (drainAfterReceive E) := by
  intro p p' r hr
  rw [drainAfterReceive] at hr
  cases hdrain : drainQueueIntoBatch E p with
  | ok result p₁ =>
    rw [hdrain] at hr
    cases hr
    refine ⟨harmless_nil, fun result' heq => ?_⟩
    cases heq
    exact drainQueueIntoBatch_harmless p _ result hdrain
  | error e p₁ =>
    simp only [hdrain] at hr
    split at hr
    · cases hr
      exact ⟨harmless_nil.cons trivial, fun result heq => by cases heq⟩
    · cases hr

theorem passPotato_harmless : Yields Harmless (passPotato E) :=
  yields_bind _ fun _ => yields_bind _ fun _ => yields_pure (harmless_nil.cons trivial)

theorem notifySettlements_harmless : Yields Harmless notifySettlements := by
  refine yields_bind _ fun settled => yields_pure ?_
  intro e he
  obtain ⟨s, -, rfl⟩ := List.mem_map.mp he
  trivial

theorem passBack_harmless {settled : List Effect} {r : Option (Bool × List Effect) × List Effect}
    (hsettled : Harmless settled) (hfailed : Harmless r.2)
    (hdrained : ∀ result, r.1 = some result → Harmless result.2) (sendBack : Bool) :
    Yields Harmless (passBack E sendBack settled r) := by
  obtain ⟨_ | ⟨sent, batchEffects⟩, failed⟩ := r
  · exact yields_pure (hsettled.append hfailed)
  · have hbatch : Harmless batchEffects := hdrained (sent, batchEffects) rfl
    have hpassed : Yields Harmless (do
        let passed ← passPotato E
        pure (settled ++ batchEffects ++ passed)) :=
      passPotato_harmless.bind fun passed hpassed =>
        yields_pure ((hsettled.append hbatch).append hpassed)
    exact yields_ite (yields_pure (hsettled.append hbatch)) (yields_bind _ fun p =>
      yields_ite (yields_bind _ fun _ => hpassed)
        (yields_ite hpassed (yields_pure (hsettled.append hbatch))))

theorem updateChannelCoinAfterReceive_harmless (spend : ChannelCoinSpendInfo) (sendBack : Bool) :
    Yields Harmless (updateChannelCoinAfterReceive E spend sendBack) := by
  intro p p' effects hr
  cases hch : p.channelState with
  | none =>
    rw [updateChannelCoinAfterReceive, bind_of_ok (modify_apply _ p)] at hr
    obtain ⟨settled, p₁, hsettled, -⟩ := Act.bind_eq_ok.mp hr
    obtain ⟨pairs, p₂, hdrain, -⟩ := Act.bind_eq_ok.mp hsettled
    rw [onChannel] at hdrain
    simp only [hch] at hdrain
    cases hdrain
  | some ch =>
    obtain ⟨ns, heq⟩ := updateChannelCoinAfterReceive_eq (E := E) hch spend sendBack
    rw [heq] at hr
    have hyields : Yields Harmless (drainAfterReceive E >>= passBack E sendBack (ns.map .notify)) :=
      drainAfterReceive_harmless.bind fun r h => passBack_harmless (harmless_notify ns) h.1 h.2 _
    exact hyields _ p' effects hr

theorem applyActions_harmless (actions : List BatchAction) :
    Yields Harmless (applyActions E actions) := by
  intro p p' effects hr e he
  have htells := applyActions_told actions p p' effects hr e he
  cases e with
  | notify n => trivial
  | peerGameMessage gameId data => trivial
  | _ => exact htells.elim

theorem passOnMessage_harmless (gameId : GameID) (data : Bytes) :
    Yields Harmless (passOnMessage E gameId data) := by
  refine yields_bind _ fun decoded => yields_bind _ fun ch => ?_
  split
  · exact yields_pure (harmless_nil.cons trivial)
  · exact yields_throw _

/-! Where the transactions come from. -/

/-- What two states of a channel agree on, they agree to spend. -/
theorem Authorised.of_core {ch ch' : ChannelState} {solutions : List Clvm} {spend : CoinSpend}
    (hcore : ch'.core = ch.core) (h : Authorised E ch' solutions spend) :
    Authorised E ch solutions spend := by
  have hcoin : ch'.channelCoin = ch.channelCoin := (congrArg ChannelState.channelCoin hcore :)
  have hkey : ch'.getAggregateChannelPublicKey = ch.getAggregateChannelPublicKey :=
    (congrArg ChannelState.getAggregateChannelPublicKey hcore :)
  obtain ⟨hspent, hpuzzle, hagreed, hsigned⟩ := h
  rw [hcoin] at hspent hsigned
  rw [hkey] at hpuzzle hsigned
  exact ⟨hspent, hpuzzle, hagreed, hsigned⟩

theorem evolves_core {p p' : OffChainPhase} {ch ch' : ChannelState} (h : Evolves E p p')
    (hch : p.channelState = some ch) (hch' : p'.channelState = some ch') : ch'.core = ch.core := by
  rcases h with heq | ⟨ch₁, ch₂, hch₁, hch₂, hsteps⟩
  · rw [heq, hch] at hch'
    cases hch'
    rfl
  · obtain rfl : ch₁ = ch := Option.some.inj (hch₁.symm.trans hch)
    obtain rfl : ch₂ = ch' := Option.some.inj (hch₂.symm.trans hch')
    exact hsteps.core

theorem verifyChannelCoinFromPeerSignatures_ok {ch : ChannelState} {half : Aggsig}
    {conditions : Clvm} {spend : BrokenOutCoinSpendInfo}
    (h : ch.verifyChannelCoinFromPeerSignatures E half conditions = .ok spend) :
    spend.solution = solutionForConditions conditions ∧
      verify ch.getAggregateChannelPublicKey
        (channelSpendMessage E (ch.channelCoin.toCoinId E.sha256) conditions) spend.signature := by
  rw [ChannelState.verifyChannelCoinFromPeerSignatures, bind_eq_ok] at h
  obtain ⟨ours, hours, h⟩ := h
  rw [ChannelState.getSolutionAndSignatureFromConditions, standardSolutionPartial, bind_eq_ok] at hours
  obtain ⟨coins, -, hours⟩ := hours
  split at hours
  · cases hours
  cases hours
  dsimp only at h
  split at h
  · rename_i hverify
    cases h
    exact ⟨rfl, hverify⟩
  · cases h

/-- The transaction of a shutdown that the peer asks for is the one whose signature was verified. -/
theorem receiveCleanShutdown_spends {p p' : OffChainPhase} {ch : ChannelState} {sig : Aggsig}
    {conditions : Clvm} {effects : List Effect} (hch : p.channelState = some ch)
    (h : receiveCleanShutdown E sig conditions p = .ok effects p') :
    ∀ spends, .spendTransaction spends ∈ effects → ∀ spend ∈ spends,
      Authorised E ch [solutionForConditions conditions] spend := by
  intro spends hmem spend hspend
  rw [receiveCleanShutdown, bind_of_ok (channel_of_some hch)] at h
  split at h
  · cases h
  obtain ⟨cancelled, p₁, hcancel, h⟩ := Act.bind_eq_ok.mp h
  obtain ⟨ch₀, ch₁, hch₀, hcancelled, rfl⟩ := onChannel_eq_ok_iff.mp hcancel
  rw [bind_of_ok (channel_of_some rfl)] at h
  obtain ⟨checked, p₂, hchecked, h⟩ := Act.bind_eq_ok.mp h
  obtain ⟨-, rfl⟩ := lift_eq_ok.mp hchecked
  obtain ⟨full, p₃, hfull, h⟩ := Act.bind_eq_ok.mp h
  obtain ⟨hverified, rfl⟩ := lift_eq_ok.mp hfull
  obtain ⟨settled, p₄, hsettled, h⟩ := Act.bind_eq_ok.mp h
  obtain ⟨p₅, p₆, -, h⟩ := Act.bind_eq_ok.mp h
  have hcore : ch₁.core = ch.core := by
    obtain rfl : ch = ch₀ := Option.some.inj (hch.symm.trans hch₀)
    exact ChannelState.keeps_core_cancelAllProposals.ok hcancelled
  obtain ⟨hsolution, hverify⟩ := verifyChannelCoinFromPeerSignatures_ok hverified
  refine Authorised.of_core hcore ?_
  cases h
  rw [List.mem_append, List.mem_append] at hmem
  rcases hmem with (hmem | hmem) | hmem
  · obtain ⟨id, -, heq⟩ := List.mem_map.mp hmem
    cases heq
  · exact (notifySettlements_harmless _ _ _ hsettled _ hmem).elim
  · split at hmem
    · cases List.mem_singleton.mp hmem
    · rcases List.mem_cons.mp hmem with heq | hmem
      · cases heq
        obtain rfl := List.mem_singleton.mp hspend
        refine ⟨rfl, rfl, ?_, conditions, hsolution, hverify⟩
        rw [hsolution]
        exact List.mem_singleton_self _
      · cases List.mem_singleton.mp hmem

theorem processReceivedBatch_lawful {p p' : OffChainPhase} {ch : ChannelState} {b : PeerBatch}
    {effects : List Effect} {pending : Option Clvm} (hch : p.channelState = some ch)
    (h : processReceivedBatch E b p = .ok effects p') : Lawful E ch pending (.batch b) effects := by
  obtain ⟨applied, p₁, happlied, hrest⟩ := Act.bind_eq_ok.mp h
  have hharmless := applyActions_harmless b.actions p p₁ applied happlied
  have hevolves : Evolves E p p₁ := by
    have hmoves := moves_applyActions (E := E) b.actions p
    rwa [after_of_ok happlied] at hmoves
  cases hb : b.cleanShutdown with
  | none =>
    rw [hb] at hrest
    have hyields : Yields Harmless (do
        let spendInfo ← onChannel (ChannelState.verifyReceivedBatchSignatures E b.signatures)
        let after ← updateChannelCoinAfterReceive E spendInfo (b.actions.any isAcceptSettlement)
        pure (applied ++ after)) :=
      yields_bind _ fun spendInfo => (updateChannelCoinAfterReceive_harmless _ _).bind
        fun after hafter => yields_pure (hharmless.append hafter)
    exact (hyields p₁ p' effects hrest).lawful
  | some shutdown =>
    rw [hb] at hrest
    obtain ⟨after, p₂, hshutdown, hpure⟩ := Act.bind_eq_ok.mp hrest
    cases hpure
    refine ⟨fun spends hmem spend hspend => ?_, fun coinSpend heq => by cases heq⟩
    rcases List.mem_append.mp hmem with hmem | hmem
    · exact (hharmless _ hmem).elim
    · have hsome : ∃ ch₁, p₁.channelState = some ch₁ := by
        rcases hevolves with heq | ⟨-, ch₁, -, hch₁, -⟩
        · exact ⟨ch, heq.trans hch⟩
        · exact ⟨ch₁, hch₁⟩
      obtain ⟨ch₁, hch₁⟩ := hsome
      obtain ⟨hcoin, hpuzzle, hagreed, hsigned⟩ := Authorised.of_core (evolves_core hevolves hch hch₁)
        (receiveCleanShutdown_spends hch₁ hshutdown spends hmem spend hspend)
      refine ⟨hcoin, hpuzzle, ?_, hsigned⟩
      rw [agreedSolutions, hb]
      exact List.mem_append_right _ hagreed

theorem passOnCleanShutdownComplete_effects (coinSpend : CoinSpend) (p : OffChainPhase) :
    ∃ p', passOnCleanShutdownComplete coinSpend p =
      .ok (if p.channelState.any ChannelState.hasZeroPayout then [.completeZeroPayoutShutdown]
        else [.spendTransaction [coinSpend]]) p' := by
  rw [passOnCleanShutdownComplete, bind_of_ok (get_apply p)]
  cases hpending : p.pendingCleanShutdown with
  | none =>
    simp only
    split
    · exact ⟨_, rfl⟩
    · exact ⟨_, rfl⟩
  | some pending =>
    simp only [bind_of_ok (set_apply _ _)]
    split
    · exact ⟨_, rfl⟩
    · exact ⟨_, rfl⟩

/-- Any other message is lawful. -/
theorem processMessage_lawful {p p' : OffChainPhase} {ch : ChannelState} {msg : PeerMessage}
    {effects : List Effect} {pending : Option Clvm} (hch : p.channelState = some ch)
    (hmsg : ∀ coinSpend, msg ≠ .cleanShutdownComplete coinSpend)
    (h : processMessage E msg p = .ok effects p') : Lawful E ch pending msg effects := by
  cases msg with
  | batch b =>
    rw [processMessage_batch] at h
    split at h
    · cases h
    split at h
    · cases h
    rw [passOnBatch] at h
    cases hr : processReceivedBatch E b p with
    | error e p₁ =>
      rw [hr] at h
      cases h
    | ok effects₁ p₁ =>
      rw [hr] at h
      cases h
      exact processReceivedBatch_lawful hch hr
  | handshakeF =>
    rw [processMessage_handshakeF] at h
    split at h
    · cases h
    · cases h
      exact harmless_nil.lawful
  | handshake =>
    rw [processMessage_handshake] at h
    split at h
    · cases h
    · cases h
  | cleanShutdownComplete coinSpend => exact absurd rfl (hmsg coinSpend)
  | requestPotato =>
    rw [processMessage_requestPotato] at h
    split at h
    · cases h
      exact harmless_nil.lawful
    split at h
    · have hyields : Yields Harmless (do
          let passed ← passPotato E
          modify fun p => { p with peerWantsPotato := false }
          pure passed) :=
        passPotato_harmless.bind fun passed hpassed => yields_bind _ fun _ => yields_pure hpassed
      exact (hyields _ p' effects h).lawful
    · cases h
      exact harmless_nil.lawful
  | message gameId data =>
    rw [processMessage_message] at h
    split at h
    · cases h
    · exact (passOnMessage_harmless gameId data p p' effects h).lawful

end OffChainPhase

/-- The phases in which the peer is listened to while the channel coin is about to be spent. -/
inductive ChannelPhase where
  | offChain (p : OffChainPhase)
  | spendChannelCoin (q : SpendChannelCoinPhase)

namespace ChannelPhase

def channelState : ChannelPhase → Option ChannelState
  | .offChain p => p.channelState
  | .spendChannelCoin q => q.channelState

/-- The solution of the shutdown that we have asked for. -/
def pending : ChannelPhase → Option Clvm
  | .offChain p => p.pendingCleanShutdown.map Prod.snd
  | .spendChannelCoin q => q.expectedCleanShutdownSolution

/-- The message that is handled when one comes in: the oldest that is unread. -/
def handled (msg : PeerMessage) : ChannelPhase → PeerMessage
  | .offChain p => p.incomingMessages.headD msg
  | .spendChannelCoin _ => msg

def receivedMessage (E : ChannelEnv) (msg : PeerMessage) : ChannelPhase → List Effect
  | .offChain p =>
    match OffChainPhase.receivedMessage E msg p with
    | .ok effects _ => effects
    | .error _ _ => []
  | .spendChannelCoin q => q.receivedMessagePassive msg

/-- Off chain a player without a payout emits nothing. -/
def silent (ch : ChannelState) : ChannelPhase → Bool
  | .offChain _ => ch.hasZeroPayout
  | .spendChannelCoin _ => false

/-- The end of a shutdown comes only if it was asked for, with the spend that was agreed on. -/
def Solicited (E : ChannelEnv) (ch : ChannelState) (φ : ChannelPhase) (msg : PeerMessage) : Prop :=
  ∀ coinSpend, msg = .cleanShutdownComplete coinSpend → ∃ solution, φ.pending = some solution ∧
    (φ.silent ch ∨ Authorised E ch [solution] coinSpend)

variable {E : ChannelEnv} {ch : ChannelState}

theorem lawful_cleanShutdownComplete {pending : Option Clvm} {coinSpend : CoinSpend} (silent : Bool) :
    Lawful E ch pending (.cleanShutdownComplete coinSpend)
        (if silent then [.completeZeroPayoutShutdown] else [.spendTransaction [coinSpend]]) ↔
      ∃ solution, pending = some solution ∧ (silent ∨ Authorised E ch [solution] coinSpend) := by
  constructor
  · rintro ⟨hspends, hquiet⟩
    cases pending with
    | none =>
      have hharmless := hquiet coinSpend rfl rfl
      cases silent with
      | true => exact (hharmless _ (List.mem_singleton_self _)).elim
      | false => exact (hharmless _ (List.mem_singleton_self _)).elim
    | some solution =>
      refine ⟨solution, rfl, ?_⟩
      cases silent with
      | true => exact .inl rfl
      | false =>
        exact .inr (hspends [coinSpend] (List.mem_singleton_self _) coinSpend
          (List.mem_singleton_self _))
  · rintro ⟨solution, rfl, hagreed⟩
    refine ⟨fun spends hmem spend hspend => ?_, fun _ _ h => by cases h⟩
    cases silent with
    | true => cases List.mem_singleton.mp hmem
    | false =>
      cases List.mem_singleton.mp hmem
      obtain rfl := List.mem_singleton.mp hspend
      exact hagreed.resolve_left Bool.false_ne_true

theorem solicited_cleanShutdownComplete {φ : ChannelPhase} {coinSpend : CoinSpend} :
    φ.Solicited E ch (.cleanShutdownComplete coinSpend) ↔ ∃ solution, φ.pending = some solution ∧
      (φ.silent ch ∨ Authorised E ch [solution] coinSpend) := by
  constructor
  · intro h
    exact h coinSpend rfl
  · intro h coinSpend' heq
    cases heq
    exact h

theorem processQueued_lawful {p : OffChainPhase} (hch : p.channelState = some ch) (msg : PeerMessage)
    (hmsg : ∀ coinSpend, (ChannelPhase.offChain p).handled msg ≠ .cleanShutdownComplete coinSpend)
    (pending : Option Clvm) : Lawful E ch pending ((ChannelPhase.offChain p).handled msg)
      ((ChannelPhase.offChain p).receivedMessage E msg) := by
  rw [receivedMessage, OffChainPhase.receivedMessage]
  cases hr : OffChainPhase.processQueuedMessage E
      { p with incomingMessages := p.incomingMessages ++ [msg] } with
  | error e p' => exact (harmless_nil.cons (e := .goOnChainAfterPeerError) trivial).lawful
  | ok effects p' =>
    rcases OffChainPhase.processQueuedMessage_ok hr with ⟨hnil, -⟩ | ⟨first, rest, hmessages, hok⟩
    · exact absurd hnil (List.append_ne_nil_of_right_ne_nil _ (List.cons_ne_nil _ _))
    · have hfirst : (ChannelPhase.offChain p).handled msg = first := by
        rw [handled]
        cases hincoming : p.incomingMessages with
        | nil =>
          simp only [hincoming, List.nil_append, List.cons.injEq] at hmessages
          exact hmessages.1
        | cons oldest more =>
          simp only [hincoming, List.cons_append, List.cons.injEq] at hmessages
          exact hmessages.1
      rw [hfirst] at hmsg ⊢
      have hrest : OffChainPhase.channelState { p with incomingMessages := rest } = some ch := hch
      exact OffChainPhase.processMessage_lawful hrest hmsg hok

theorem receivedMessage_cleanShutdownComplete {p : OffChainPhase} (hch : p.channelState = some ch)
    {msg : PeerMessage} {coinSpend : CoinSpend}
    (hmsg : (ChannelPhase.offChain p).handled msg = .cleanShutdownComplete coinSpend) :
    (ChannelPhase.offChain p).receivedMessage E msg =
      if ch.hasZeroPayout then [.completeZeroPayoutShutdown] else [.spendTransaction [coinSpend]] := by
  obtain ⟨rest, hmessages⟩ : ∃ rest, p.incomingMessages ++ [msg] =
      .cleanShutdownComplete coinSpend :: rest := by
    rw [handled] at hmsg
    cases hincoming : p.incomingMessages with
    | nil =>
      rw [hincoming] at hmsg
      exact ⟨[], congrArg (fun m => [m]) hmsg⟩
    | cons oldest more =>
      rw [hincoming] at hmsg
      exact ⟨more ++ [msg], congrArg (fun m => m :: (more ++ [msg])) hmsg⟩
  obtain ⟨p', hok⟩ := OffChainPhase.passOnCleanShutdownComplete_effects coinSpend
    { p with incomingMessages := rest }
  have hqueued : OffChainPhase.processQueuedMessage E
      { p with incomingMessages := p.incomingMessages ++ [msg] } =
      OffChainPhase.passOnCleanShutdownComplete coinSpend { p with incomingMessages := rest } := by
    rw [OffChainPhase.processQueuedMessage, bind_of_ok (get_apply _)]
    simp only [hmessages, bind_of_ok (modify_apply _ _)]
    exact OffChainPhase.processMessage_cleanShutdownComplete _ coinSpend
  rw [receivedMessage, OffChainPhase.receivedMessage, hqueued, hok]
  simp only [hch, Option.any_some]

/-- What a peer's message lets us emit is authorised if and only if the end of a shutdown comes with
the spend that was agreed on, or not at all. -/
theorem lawful_iff_solicited {φ : ChannelPhase} (hch : φ.channelState = some ch) (msg : PeerMessage) :
    Lawful E ch φ.pending (φ.handled msg) (φ.receivedMessage E msg) ↔
      φ.Solicited E ch (φ.handled msg) := by
  by_cases hcomplete : ∃ coinSpend, φ.handled msg = .cleanShutdownComplete coinSpend
  · obtain ⟨coinSpend, hmsg⟩ := hcomplete
    rw [hmsg, solicited_cleanShutdownComplete]
    cases φ with
    | offChain p =>
      rw [receivedMessage_cleanShutdownComplete hch hmsg]
      exact lawful_cleanShutdownComplete _
    | spendChannelCoin q =>
      obtain rfl : msg = .cleanShutdownComplete coinSpend := hmsg
      exact lawful_cleanShutdownComplete false
  · have hmsg : ∀ coinSpend, φ.handled msg ≠ .cleanShutdownComplete coinSpend :=
      fun coinSpend heq => hcomplete ⟨coinSpend, heq⟩
    refine iff_of_true ?_ fun coinSpend heq => absurd heq (hmsg coinSpend)
    cases φ with
    | offChain p => exact processQueued_lawful hch msg hmsg _
    | spendChannelCoin q =>
      have hnone : q.receivedMessagePassive msg = [] := by
        cases msg with
        | cleanShutdownComplete coinSpend => exact absurd rfl (hmsg coinSpend)
        | _ => rfl
      rw [receivedMessage, hnone]
      exact harmless_nil.lawful

end ChannelPhase

/-! A shutdown that nobody asked for, and one that is carried through. -/

namespace Steady

def opened : OffChainPhase := OffChainPhase.fromCompletedHandshake (opening true) [] []

/-- The spend of a coin that has nothing to do with the channel. -/
def strangeSpend : CoinSpend := ⟨⟨[1], [2], 3⟩, .standard 0, .nil, 0⟩

def shutdownConditions : Clvm := (opening true).channel.getConditionsWithChannelState

/-- The spend that both players have signed. -/
def agreedSpend : CoinSpend where
  coin := (opening true).channel.channelCoin
  bundle := ⟨.standard (opening true).channel.getAggregateChannelPublicKey,
    solutionForConditions shutdownConditions,
    fullSignature (opening true).channel.getAggregateChannelPublicKey
      (channelSpendMessage channelEnv ((opening true).channel.channelCoin.toCoinId channelEnv.sha256)
        shutdownConditions)⟩

def shuttingDown : OffChainPhase :=
  { opened with
    pendingCleanShutdown :=
      some ((opening true).channel.channelCoin, solutionForConditions shutdownConditions) }

end Steady

theorem unsolicited_shutdown_spends : ¬ ∀ (p : OffChainPhase) (ch : ChannelState) (msg : PeerMessage),
    OffChainPhase.Reach Steady.channelEnv (Steady.opening true) p → p.channelState = some ch →
      Lawful Steady.channelEnv ch (ChannelPhase.offChain p).pending
        ((ChannelPhase.offChain p).handled msg)
        ((ChannelPhase.offChain p).receivedMessage Steady.channelEnv msg) := by
  intro h
  have hlawful := h Steady.opened _ (.cleanShutdownComplete Steady.strangeSpend) (.start [] []) rfl
  exact hlawful.2 Steady.strangeSpend rfl rfl (.spendTransaction [Steady.strangeSpend])
    (List.mem_singleton_self _)

theorem lawful_iff_solicited_agreed :
    Lawful Steady.channelEnv (Steady.opening true).channel
      (some (solutionForConditions Steady.shutdownConditions))
      (.cleanShutdownComplete Steady.agreedSpend)
      ((ChannelPhase.offChain Steady.shuttingDown).receivedMessage Steady.channelEnv
        (.cleanShutdownComplete Steady.agreedSpend)) := by
  have hkey : (Steady.opening true).channel.getAggregateChannelPublicKey ≠ 0 := by decide
  refine (ChannelPhase.lawful_iff_solicited (φ := .offChain Steady.shuttingDown) rfl
    (.cleanShutdownComplete Steady.agreedSpend)).mpr ?_
  intro coinSpend heq
  cases heq
  exact ⟨_, rfl, .inr ⟨rfl, rfl, List.mem_singleton_self _, Steady.shutdownConditions, rfl,
    verify_iff.mpr ⟨hkey, rfl⟩⟩⟩

end ChiaGaming
