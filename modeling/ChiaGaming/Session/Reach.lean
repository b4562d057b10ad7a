import ChiaGaming.Channel.History
import ChiaGaming.Session.Runs

namespace ChiaGaming

namespace OffChainPhase

open Act

variable {E : ChannelEnv}

/-- The phase after the handshake.  The initiator has the potato. -/
def fromCompletedHandshake (o : Opening E) (gameTypes : List (Bytes × Option Clvm))
    (incomingMessages : List PeerMessage) : OffChainPhase where
  initiator := o.initiator
  havePotato := if o.initiator then .present else .absent
  gameActionQueue := []
  lastFailedQueuedAction := none
  channelState := some o.channel
  gameTypes
  incomingMessages
  peerWantsPotato := false
  lastChannelCoinSpendInfo :=
    some ((ChannelState.opened E o.setup).publishAt E 0 o.signatures)
  pendingCleanShutdown := none
  channelSpendNextPhase := none

/-- The runs of a player against any peer, until the channel goes on chain or is shut down: the
local player does what it likes, and the messages are accepted. -/
inductive Reach (E : ChannelEnv) (o : Opening E) : OffChainPhase → Prop where
  | start (gameTypes : List (Bytes × Option Clvm)) (incomingMessages : List PeerMessage) :
      Reach E o (fromCompletedHandshake o gameTypes incomingMessages)
  | act {p : OffChainPhase} (h : Reach E o p) (input : LocalInput) :
      Reach E o ((runLocal E input).after p)
  | receive {p p' : OffChainPhase} (h : Reach E o p) (msg : PeerMessage) {effects : List Effect}
      (hok : processQueuedMessage E { p with incomingMessages := p.incomingMessages ++ [msg] } =
        .ok effects p') (hnext : p'.channelSpendNextPhase = none) : Reach E o p'
  | queued {p p' : OffChainPhase} (h : Reach E o p) {effects : List Effect}
      (hok : processQueuedMessage E p = .ok effects p') (hnext : p'.channelSpendNextPhase = none) :
      Reach E o p'

/-- A message is taken from the queue, if there is one. -/
theorem processQueuedMessage_ok {p p' : OffChainPhase} {effects : List Effect}
    (h : processQueuedMessage E p = .ok effects p') :
    p.incomingMessages = [] ∧ p' = p ∧ effects = [] ∨ ∃ msg rest, p.incomingMessages = msg :: rest ∧
      processMessage E msg { p with incomingMessages := rest } = .ok effects p' := by
  rw [processQueuedMessage, bind_of_ok (get_apply p)] at h
  cases hmessages : p.incomingMessages with
  | nil =>
    rw [hmessages] at h
    cases h
    exact .inl ⟨rfl, rfl, rfl⟩
  | cons msg rest =>
    rw [hmessages] at h
    exact .inr ⟨msg, rest, rfl, h⟩

/-- The channel state of a phase is one that some run of the potato leads to. -/
def Holds (E : ChannelEnv) (o : Opening E) (p : OffChainPhase) : Prop :=
  ∃ ch signed, p.channelState = some ch ∧ Held E o p.hasPotato ch signed

section Holds

variable {o : Opening E} {p p' : OffChainPhase}

theorem Holds.asks (h : Holds E o p) {messages : List PeerMessage} (hasks : Asks E p p' messages) :
    Holds E o p' := by
  obtain ⟨ch, signed, hch, hheld⟩ := h
  have hpotato : p'.hasPotato = p.hasPotato := by
    rcases hasks.potato with ⟨heq, -⟩ | ⟨hp, hp', -⟩
    · rw [hasPotato, heq, hasPotato]
    · rw [hasPotato, hp', hasPotato, hp]
      rfl
  rw [Holds, hpotato]
  rcases hasks.evolves with heq | ⟨ch₁, ch₂, hch₁, hch₂, hsteps⟩
  · exact ⟨ch, signed, heq.trans hch, hheld⟩
  · obtain rfl : ch = ch₁ := Option.some.inj (hch.symm.trans hch₁)
    exact ⟨ch₂, signed, hch₂, hheld.steps hsteps⟩

theorem Holds.sends (h : Holds E o p) {b : PeerBatch} (hsends : Sends E p p' b) : Holds E o p' := by
  obtain ⟨ch, signed, hch, hheld⟩ := h
  obtain ⟨ch₁, ch₂, hch₁, hsteps, hch₂, -⟩ := hsends.channel
  obtain rfl : ch = ch₁ := Option.some.inj (hch.symm.trans hch₁)
  have hp : p.hasPotato = true := decide_eq_true hsends.present
  have hp' : p'.hasPotato = false := by rw [hasPotato, hsends.absent]; rfl
  rw [hp] at hheld
  rw [Holds, hp']
  exact ⟨_, _, hch₂, (hheld.steps hsteps).sent⟩

theorem Holds.receives (h : Holds E o p) {b : PeerBatch} (hreceives : Receives E p p' b) :
    Holds E o p' := by
  obtain ⟨ch, signed, hch, hheld⟩ := h
  obtain ⟨ch₁, ch₂, ch₃, hch₁, hsteps, hverifies, hsteps', hch₃⟩ := hreceives.channel
  obtain rfl : ch = ch₁ := Option.some.inj (hch.symm.trans hch₁)
  have hp : p.hasPotato = false := decide_eq_false hreceives.missing
  have hp' : p'.hasPotato = true := decide_eq_true hreceives.present
  rw [hp] at hheld
  rw [Holds, hp']
  exact ⟨_, _, hch₃, ((hheld.steps hsteps).received hverifies).steps hsteps'⟩

theorem Holds.reception (h : Holds E o p) {messages : List PeerMessage} {msg : PeerMessage}
    (hreception : Reception E p p' messages msg) : Holds E o p' := by
  cases hreception with
  | quiet _ _ _ hasks _ => exact h.asks hasks
  | ignored _ hp _ => exact hp ▸ h
  | noted _ hp _ => exact hp ▸ h
  | passed b hsends _ _ => exact h.sends hsends
  | kept b hreceives _ => exact h.receives hreceives
  | returned b b' p₁ hreceives hsends _ => exact (h.receives hreceives).sends hsends

theorem Holds.processQueuedMessage (h : Holds E o p) {effects : List Effect}
    (hok : processQueuedMessage E p = .ok effects p') (hnext : p'.channelSpendNextPhase = none) :
    Holds E o p' := by
  rcases processQueuedMessage_ok hok with ⟨-, rfl, -⟩ | ⟨msg, rest, -, hmessage⟩
  · exact h
  · have hrest : Holds E o { p with incomingMessages := rest } := h
    exact hrest.reception (processMessage_ok hmessage hnext)

theorem Reach.holds (h : Reach E o p) : Holds E o p := by
  induction h with
  | start gameTypes incomingMessages =>
    have hp : (fromCompletedHandshake o gameTypes incomingMessages).hasPotato = o.initiator := by
      rw [hasPotato, fromCompletedHandshake]
      cases o.initiator <;> rfl
    rw [Holds, hp]
    exact ⟨_, _, rfl, Held.start⟩
  | @act p _ input ih =>
    cases hr : runLocal E input p with
    | ok effects p' =>
      rw [after_of_ok hr]
      cases runLocal_ok hr with
      | asks hasks => exact ih.asks hasks
      | sends b hsends _ _ => exact ih.sends hsends
    | error e p' =>
      rw [after_of_error hr]
      exact ih.asks (runLocal_error hr)
  | @receive p p' _ msg effects hok hnext ih =>
    have hqueued : Holds E o { p with incomingMessages := p.incomingMessages ++ [msg] } := ih
    exact hqueued.processQueuedMessage hok hnext
  | queued _ hok hnext ih => exact ih.processQueuedMessage hok hnext

end Holds

/-- A message that is refused leaves the channel state as it was. -/
theorem processMessage_error {msg : PeerMessage} {p p' : OffChainPhase} {e : Error}
    (h : processMessage E msg p = .error e p') : p'.channelState = p.channelState := by
  cases msg with
  | batch b =>
    rw [processMessage_batch] at h
    split at h
    · cases h
      rfl
    split at h
    · cases h
      rfl
    rw [passOnBatch] at h
    cases hr : processReceivedBatch E b p with
    | ok effects p₁ =>
      rw [hr] at h
      cases h
    | error e₁ p₁ =>
      rw [hr] at h
      cases h
      rfl
  | handshakeF =>
    rw [processMessage_handshakeF] at h
    split at h
    · cases h
      rfl
    · cases h
  | handshake =>
    rw [processMessage_handshake] at h
    split at h
    · cases h
      rfl
    · cases h
      rfl
  | cleanShutdownComplete coinSpend =>
    rw [processMessage_cleanShutdownComplete, passOnCleanShutdownComplete,
      bind_of_ok (get_apply p)] at h
    cases hpending : p.pendingCleanShutdown with
    | some pending =>
      simp only [hpending, bind_of_ok (set_apply _ _)] at h
      split at h
      · cases h
      · cases h
    | none =>
      simp only [hpending] at h
      split at h
      · cases h
      · cases h
  | requestPotato =>
    rw [processMessage_requestPotato] at h
    split at h
    · cases h
    split at h
    · cases hch : p.channelState with
      | none =>
        have hpass : passPotato E { p with peerWantsPotato := true } =
            .error (.strErr "no channel handler" []) { p with peerWantsPotato := true } := by
          rw [passPotato, bind_apply, onChannel]
          simp only [hch]
        rw [bind_of_error hpass] at h
        cases h
        exact hch
      | some ch =>
        rw [bind_of_ok (passPotato_of_some (p := { p with peerWantsPotato := true }) hch)] at h
        cases h
    · cases h
  | message gameId data =>
    rw [processMessage_message] at h
    split at h
    · cases h
      rfl
    have hreads : Keeps (fun ch : ChannelState => ch) (ChannelState.receivedMessage E gameId data) :=
      keeps_get.bind fun _ => (keeps_lift _).bind fun _ => keeps_lift _
    have hkeeps : Keeps OffChainPhase.channelState (passOnMessage E gameId data) := by
      refine Keeps.bind ?_ fun decoded => keeps_channel.bind fun ch => ?_
      · intro p
        rw [after_onChannel]
        cases p.channelState with
        | none => rfl
        | some ch => exact congrArg some (hreads ch)
      · split
        · exact keeps_pure _
        · exact keeps_throw _
    exact hkeeps.onError p p' e h

/-- The channel states that a dispute can be fought with: those of the runs, also when a message of
the peer was refused, and without their proposals once the channel goes on chain. -/
inductive Disputed (E : ChannelEnv) (o : Opening E) : ChannelState → Prop where
  | running {p : OffChainPhase} {ch : ChannelState} (h : Reach E o p)
      (hch : p.channelState = some ch) : Disputed E o ch
  | refused {p p' : OffChainPhase} {ch : ChannelState} (h : Reach E o p) (msg : PeerMessage)
      {e : Error} (herror : processMessage E msg p = .error e p')
      (hch : p'.channelState = some ch) : Disputed E o ch
  | onChain {ch : ChannelState} (h : Disputed E o ch) :
      Disputed E o (ChannelState.cancelAllProposals.after ch)

theorem Disputed.held {o : Opening E} {ch : ChannelState} (h : Disputed E o ch) :
    ∃ potato signed, Held E o potato ch signed := by
  have hrunning : ∀ {p : OffChainPhase} {ch : ChannelState}, Reach E o p →
      p.channelState = some ch → ∃ potato signed, Held E o potato ch signed := by
    intro p ch hreach hch
    obtain ⟨ch', signed, hch', hheld⟩ := hreach.holds
    obtain rfl : ch = ch' := Option.some.inj (hch.symm.trans hch')
    exact ⟨_, signed, hheld⟩
  induction h with
  | running hreach hch => exact hrunning hreach hch
  | refused hreach msg herror hch => exact hrunning hreach (processMessage_error herror ▸ hch)
  | @onChain ch _ ih =>
    obtain ⟨potato, signed, hheld⟩ := ih
    exact ⟨potato, signed, hheld.steps (GameOp.Steps.single ch .cancelAllProposals)⟩

end OffChainPhase

end ChiaGaming
