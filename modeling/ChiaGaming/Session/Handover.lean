import ChiaGaming.Session.Payouts

namespace ChiaGaming

namespace OffChainPhase

open Act

variable {E : ChannelEnv} {o : Opening E} {p p' : OffChainPhase} {ch : ChannelState}

/-! The end of play off chain. -/

theorem next_of_custody (h : p'.custody = p.custody) :
    p'.channelSpendNextPhase = p.channelSpendNextPhase := (congrArg (fun c => c.2.2.2) h :)

theorem Reception.next {messages : List PeerMessage} {msg : PeerMessage}
    (h : Reception E p p' messages msg) : p'.channelSpendNextPhase = p.channelSpendNextPhase := by
  cases h with
  | quiet _ _ _ hasks _ => exact next_of_custody hasks.custody
  | ignored _ hp _ => rw [hp]
  | noted _ hp _ => rw [hp]
  | passed b hsends _ _ => exact hsends.next
  | kept b hreceives _ => exact next_of_custody hreceives.custody
  | returned b b' p₁ hreceives hsends _ => exact hsends.next.trans (next_of_custody hreceives.custody)

/-- A phase that plays on has handed nothing over. -/
theorem Reach.next (h : Reach E o p) : p.channelSpendNextPhase = none := by
  induction h with
  | start gameTypes incomingMessages => rfl
  | @act p _ input ih =>
    cases hr : runLocal E input p with
    | ok effects p' =>
      rw [after_of_ok hr]
      cases runLocal_ok hr with
      | asks hasks => exact (next_of_custody hasks.custody).trans ih
      | sends b hsends _ _ => exact hsends.next.trans ih
    | error e p' =>
      rw [after_of_error hr]
      exact (next_of_custody (runLocal_error hr).custody).trans ih
  | receive _ msg hok hnext ih => exact hnext
  | queued _ hok hnext ih => exact hnext

/-- The last batch of a channel, up to its signature: no game is live after it, and the proposals and
the settlements on record are gone. -/
theorem receiveCleanShutdown_handover {sig : Aggsig} {conditions : Clvm} {effects : List Effect}
    {s : SpendChannelCoinPhase} (hch : p.channelState = some ch)
    (h : receiveCleanShutdown E sig conditions p = .ok effects p')
    (hnext : p'.channelSpendNextPhase = some s) :
    ch.liveGames = [] ∧ s.channelState = some (settledState { ch with proposedGames := [] }) := by
  rw [receiveCleanShutdown, bind_of_ok (channel_of_some hch)] at h
  split at h
  · cases h
  rename_i hgames
  obtain ⟨cancelled, p₁, hcancel, h⟩ := Act.bind_eq_ok.mp h
  obtain ⟨ch₀, ch₁, hch₀, hcancelled, rfl⟩ := onChannel_eq_ok_iff.mp hcancel
  obtain rfl := Option.some.inj (hch.symm.trans hch₀)
  cases hcancelled
  rw [bind_of_ok (channel_of_some rfl)] at h
  obtain ⟨checked, p₂, hcheck, h⟩ := Act.bind_eq_ok.mp h
  obtain ⟨-, rfl⟩ := lift_eq_ok.mp hcheck
  obtain ⟨spend, p₃, hspend, h⟩ := Act.bind_eq_ok.mp h
  obtain ⟨-, rfl⟩ := lift_eq_ok.mp hspend
  obtain ⟨settled, p₄, hsettle, h⟩ := Act.bind_eq_ok.mp h
  obtain ⟨ns, hns⟩ := notifySettlements_of_some
    (p := { p with channelState := some { ch with proposedGames := [] } }) rfl
  rw [hns] at hsettle
  cases hsettle
  cases h
  cases hnext
  refine ⟨?_, rfl⟩
  simpa [ChannelState.hasActiveGames] using hgames

/-- What the receipt of a message hands over: the channel state as it is, or as a last batch has
left it. -/
theorem processMessage_handover {msg : PeerMessage} {effects : List Effect}
    {s : SpendChannelCoinPhase} (hch : p.channelState = some ch)
    (hnone : p.channelSpendNextPhase = none) (h : processMessage E msg p = .ok effects p')
    (hnext : p'.channelSpendNextPhase = some s) :
    s.channelState = some ch ∨ ∃ actions ch₁ queue,
      ApplyRun E p.gameTypes ch p.gameActionQueue actions ch₁ queue ∧ ch₁.liveGames = [] ∧
        s.channelState = some (settledState { ch₁ with proposedGames := [] }) := by
  have hquiet : ∀ {messages : List PeerMessage}, Reception E p p' messages msg → False := by
    intro messages hreception
    have hsame := hreception.next
    rw [hnext, hnone] at hsame
    cases hsame
  cases msg with
  | batch b =>
    rw [processMessage_batch] at h
    split at h
    · cases h
    split at h
    · cases h
    rename_i hp
    rw [passOnBatch] at h
    cases hr : processReceivedBatch E b p with
    | error e p₁ =>
      rw [hr] at h
      cases h
    | ok effects₁ p₁ =>
      rw [hr] at h
      cases h
      cases hb : b.cleanShutdown with
      | none => exact (hquiet (processReceivedBatch_ok hb hp hr)).elim
      | some shutdown =>
        obtain ⟨applied, p₂, happlied, hrest⟩ := Act.bind_eq_ok.mp hr
        rw [hb] at hrest
        obtain ⟨after, p₃, hshutdown, hpure⟩ := Act.bind_eq_ok.mp hrest
        cases hpure
        obtain ⟨-, -, ch₁, queue, hrun, hp₂⟩ := applyActions_eq_ok hch happlied
        have hch₁ : p₂.channelState = some ch₁ := by
          rcases hp₂ with rfl | rfl
          · rfl
          · rfl
        obtain ⟨hlive, hs⟩ := receiveCleanShutdown_handover hch₁ hshutdown hnext
        exact .inr ⟨b.actions, ch₁, queue, hrun, hlive, hs⟩
  | handshakeF =>
    rw [processMessage_handshakeF] at h
    split at h
    · cases h
    · cases h
      rw [hnone] at hnext
      cases hnext
  | handshake =>
    rw [processMessage_handshake] at h
    split at h
    · cases h
    · cases h
  | cleanShutdownComplete coinSpend =>
    rw [processMessage_cleanShutdownComplete, passOnCleanShutdownComplete,
      bind_of_ok (get_apply p)] at h
    cases hpending : p.pendingCleanShutdown with
    | some pending =>
      simp only [hpending, bind_of_ok (set_apply _ _)] at h
      left
      split at h
      · cases h
        cases hnext
        exact hch
      · cases h
        cases hnext
        exact hch
    | none =>
      simp only [hpending] at h
      split at h
      · cases h
        rw [hnone] at hnext
        cases hnext
      · cases h
        rw [hnone] at hnext
        cases hnext
  | requestPotato =>
    rw [processMessage_requestPotato] at h
    split at h
    · cases h
      rw [hnone] at hnext
      cases hnext
    split at h
    · obtain ⟨passed, p₁, hpass, hrest⟩ := Act.bind_eq_ok.mp h
      rw [passPotato_of_some (p := { p with peerWantsPotato := true }) hch] at hpass
      cases hpass
      cases hrest
      cases hnone.symm.trans hnext
    · cases h
      cases hnone.symm.trans hnext
  | message gameId data =>
    rw [processMessage_message] at h
    split at h
    · cases h
    have hkeeps : Keeps OffChainPhase.channelSpendNextPhase (passOnMessage E gameId data) := by
      have hon := keeps_onChannel (ChannelState.receivedMessage E gameId data)
      refine Keeps.bind (hon.mono fun _ _ h => (congrArg (fun x => x.1.channelSpendNextPhase) h :))
        fun decoded => keeps_channel.bind fun ch => ?_
      split
      · exact keeps_pure _
      · exact keeps_throw _
    rw [hkeeps.ok h, hnone] at hnext
    cases hnext

/-- The channel states that play on chain can start from: those that a dispute can be fought with, and
those that a message has handed over, with their proposals or without. -/
inductive Carried (E : ChannelEnv) (o : Opening E) : ChannelState → Prop where
  | disputed {ch : ChannelState} (h : Disputed E o ch) : Carried E o ch
  | shut {p p' : OffChainPhase} {ch : ChannelState} (h : Reach E o p) (messages : List PeerMessage)
      {effects : List Effect} {s : SpendChannelCoinPhase}
      (hok : processQueuedMessage E { p with incomingMessages := messages } = .ok effects p')
      (hnext : p'.channelSpendNextPhase = some s) (hch : s.channelState = some ch) : Carried E o ch
  | onChain {ch : ChannelState} (h : Carried E o ch) :
      Carried E o (ChannelState.cancelAllProposals.after ch)

/-- A channel state at the end of a run, or after the last batch that a run ends with. -/
inductive Last (E : ChannelEnv) (o : Opening E) : ChannelState → Prop where
  | turned {gameTypes : List (Bytes × Option Clvm)} {t : Desk} {events : List Event}
      (h : Turns E gameTypes (Desk.opening o) events t) : Last E o t.channel
  | shut {gameTypes : List (Bytes × Option Clvm)} {t : Desk} {events : List Event}
      (h : Turns E gameTypes (Desk.opening o) events t) {actions : List BatchAction}
      {ch₁ : ChannelState} {queue : List GameAction}
      (hrun : ApplyRun E gameTypes t.channel t.queue actions ch₁ queue) (hlive : ch₁.liveGames = []) :
      Last E o (settledState { ch₁ with proposedGames := [] })
  | cancelled {ch : ChannelState} (h : Last E o ch) : Last E o { ch with proposedGames := [] }

theorem Reach.last (h : Reach E o p) (hch : p.channelState = some ch) : Last E o ch := by
  obtain ⟨t, events, ht, hturns⟩ := h.turns
  obtain rfl : t.channel = ch := Option.some.inj (ht.channel.symm.trans hch)
  exact .turned hturns

theorem Disputed.last (h : Disputed E o ch) : Last E o ch := by
  induction h with
  | running hreach hch => exact hreach.last hch
  | refused hreach msg herror hch => exact hreach.last (processMessage_error herror ▸ hch)
  | onChain _ ih => exact ih.cancelled

theorem Carried.last (h : Carried E o ch) : Last E o ch := by
  induction h with
  | disputed h => exact h.last
  | @shut p p' ch hreach messages effects s hok hnext hch =>
    obtain ⟨t, events, ht, hturns⟩ := hreach.turns
    rcases processQueuedMessage_ok hok with ⟨-, rfl, -⟩ | ⟨msg, rest, -, hmessage⟩
    · cases hreach.next.symm.trans hnext
    · have hchannel : channelState { p with incomingMessages := rest } = some t.channel := ht.channel
      rcases processMessage_handover hchannel hreach.next hmessage hnext with
        hsame | ⟨actions, ch₁, queue, hrun, hlive, hlast⟩
      · obtain rfl := Option.some.inj (hsame.symm.trans hch)
        exact .turned hturns
      · obtain rfl := Option.some.inj (hlast.symm.trans hch)
        exact .shut hturns (ht.queue ▸ hrun) hlive
  | onChain _ ih => exact ih.cancelled

end OffChainPhase

end ChiaGaming
