import ChiaGaming.Session.Actions
import ChiaGaming.Session.Reach

namespace ChiaGaming

namespace OffChainPhase

open Act

/-! Everything that a player does, in terms of its channel state and its queue. -/

/-- What an action that fails leaves of the channel state. -/
inductive Failed (ch : ChannelState) : GameAction → ChannelState → Prop where
  | same (action : GameAction) : Failed ch action ch
  | settle (gameId : GameID) : Failed ch (.acceptSettlement gameId)
      ((ChannelState.sendAcceptSettlementNoFinalize gameId).after ch)
  | cheat (gameId : GameID) (moverShare : ℕ) (entropy : Hash) :
      Failed ch (.cheat gameId moverShare entropy)
        ((ChannelState.enableCheatingForGame gameId [0x80] moverShare).after ch)
  | shutdown : Failed ch .cleanShutdown { ch with proposedGames := [] }

variable {E : ChannelEnv} {p p' : OffChainPhase} {ch : ChannelState} {d d' : Drain}

theorem onChannel_eq_error {α : Type} {x : Act Error ChannelState α} {e : Error}
    (hch : p.channelState = some ch) (h : onChannel x p = .error e p') :
    ∃ ch', x ch = .error e ch' ∧ p' = { p with channelState := some ch' } := by
  rw [onChannel] at h
  simp only [hch] at h
  cases hx : x ch with
  | ok a ch' =>
    rw [hx] at h
    cases h
  | error e' ch' =>
    rw [hx] at h
    cases h
    exact ⟨ch', rfl, rfl⟩

theorem removeProposal_eq_error {text : String} {gameId : GameID} {e : Error} {ch ch' : ChannelState}
    (h : ChannelState.removeProposal text gameId ch = .error e ch') : ch' = ch := by
  rw [ChannelState.removeProposal, bind_of_ok (get_apply ch)] at h
  split_ifs at h
  · cases h
  · cases h
    rfl

theorem sendAcceptProposal_eq_error {gameId : GameID} {e : Error} {ch ch' : ChannelState}
    (h : ChannelState.sendAcceptProposal gameId ch = .error e ch') : ch' = ch := by
  rw [ChannelState.sendAcceptProposal] at h
  rcases Act.bind_eq_error.mp h with hinner | ⟨u, ch₁, -, hpush⟩
  · rcases GameOp.acceptProposalInner_after ch gameId with ⟨u, hok, -⟩ | ⟨e', herror⟩
    · rw [hok] at hinner
      cases hinner
    · rw [herror] at hinner
      cases hinner
      rfl
  · cases hpush

theorem drainMove_eq_error {gameId : GameID} {readableMove : Clvm} {newEntropy : Hash} {e : Error}
    (hch : p.channelState = some ch)
    (h : drainMove E d gameId readableMove newEntropy p = .error e p') : p' = p := by
  rw [drainMove, bind_of_ok (channel_of_some hch)] at h
  rcases ite_eq_error.mp h with ⟨-, h⟩ | ⟨-, h⟩
  · cases h
  dsimp only [onChannel] at h
  rw [hch] at h
  cases hmove : ChannelState.sendMoveNoFinalize E gameId readableMove newEntropy ch with
  | ok result ch' =>
    simp only [hmove] at h
    cases h
  | error e' ch' =>
    obtain rfl := sendMoveNoFinalize_error hmove
    simp only [hmove] at h
    have hsame : { p with channelState := some ch' } = p := by rw [← hch]
    cases e' with
    | gameMoveRejected tag message => cases h
    | strErr text values =>
      cases h
      exact hsame
    | channel text =>
      cases h
      exact hsame
    | clvmErr =>
      cases h
      exact hsame
    | panic =>
      cases h
      exact hsame

theorem drainCheat_eq_error {gameId : GameID} {moverShare : ℕ} {entropy : Hash} {e : Error}
    (hch : p.channelState = some ch) (h : drainCheat E d gameId moverShare entropy p = .error e p') :
    ∃ ch', Failed ch (.cheat gameId moverShare entropy) ch' ∧
      p' = { p with channelState := some ch' } := by
  rw [drainCheat, bind_of_ok (channel_of_some hch)] at h
  rcases ite_eq_error.mp h with ⟨-, h⟩ | ⟨-, h⟩
  · cases h
  rcases Act.bind_eq_error.mp h with hcheat | ⟨enabled, p₁, hcheat, h⟩
  · obtain ⟨ch', hcheated, rfl⟩ := onChannel_eq_error hch hcheat
    exact ⟨ch', after_of_error hcheated ▸ .cheat gameId moverShare entropy, rfl⟩
  obtain ⟨ch₀, ch₁, hch₀, henabled, rfl⟩ := onChannel_eq_ok_iff.mp hcheat
  obtain rfl := Option.some.inj (hch.symm.trans hch₀)
  rcases Act.bind_eq_error.mp h with hmove | ⟨result, p₂, -, h⟩
  · obtain ⟨ch', hmoved, rfl⟩ := onChannel_eq_error rfl hmove
    obtain rfl := sendMoveNoFinalize_error hmoved
    exact ⟨_, after_of_ok henabled ▸ .cheat gameId moverShare entropy, rfl⟩
  · cases h

theorem drainAcceptProposal_eq_error {gameId : GameID} {e : Error} (hch : p.channelState = some ch)
    (h : drainAcceptProposal d gameId p = .error e p') : p' = p := by
  have hsame : { p with channelState := some ch } = p := by rw [← hch]
  rw [drainAcceptProposal, bind_of_ok (channel_of_some hch)] at h
  cases hfind : ch.findProposal gameId with
  | none =>
    rw [hfind] at h
    cases h
    rfl
  | some proposal =>
    rw [hfind] at h
    dsimp only at h
    split_ifs at h
    · cases h
      rfl
    · rcases Act.bind_eq_error.mp h with hcancel | ⟨u, p₁, -, h⟩
      · obtain ⟨ch', hremoved, rfl⟩ := onChannel_eq_error hch hcancel
        obtain rfl := removeProposal_eq_error hremoved
        exact hsame
      · cases h
    · rcases Act.bind_eq_error.mp h with haccept | ⟨u, p₁, -, h⟩
      · obtain ⟨ch', haccepted, rfl⟩ := onChannel_eq_error hch haccept
        obtain rfl := sendAcceptProposal_eq_error haccepted
        exact hsame
      · cases h

theorem drainCancelProposal_eq_error {text : String} {gameId : GameID} {ns : List GameNotification}
    {e : Error} (hch : p.channelState = some ch)
    (h : drainCancelProposal text d gameId ns p = .error e p') : p' = p := by
  rw [drainCancelProposal, bind_of_ok (channel_of_some hch)] at h
  split_ifs at h
  · rcases Act.bind_eq_error.mp h with hcancel | ⟨u, p₁, -, h⟩
    · obtain ⟨ch', hremoved, rfl⟩ := onChannel_eq_error hch hcancel
      obtain rfl := removeProposal_eq_error hremoved
      rw [← hch]
    · cases h
  · cases h
    rfl

theorem drainCleanShutdown_eq_error {e : Error} (hch : p.channelState = some ch)
    (h : drainCleanShutdown E d p = .error e p') :
    ∃ ch', Failed ch .cleanShutdown ch' ∧ p' = { p with channelState := some ch' } := by
  rw [drainCleanShutdown, bind_of_ok (channel_of_some hch)] at h
  split_ifs at h
  · cases h
    exact ⟨ch, .same _, by rw [← hch]⟩
  rcases Act.bind_eq_error.mp h with hcancel | ⟨ids, p₁, hcancel, h⟩
  · obtain ⟨ch', hcancelled, -⟩ := onChannel_eq_error hch hcancel
    cases hcancelled
  obtain ⟨ch₀, ch₁, hch₀, hcancelled, rfl⟩ := onChannel_eq_ok_iff.mp hcancel
  obtain rfl := Option.some.inj (hch.symm.trans hch₀)
  cases hcancelled
  rw [bind_of_ok (channel_of_some rfl)] at h
  rcases Act.bind_eq_error.mp h with hspend | ⟨spend, p₂, -, h⟩
  · cases hsigned : ChannelState.sendPotatoCleanShutdown E { ch with proposedGames := [] }
        (ChannelState.getConditionsWithChannelState { ch with proposedGames := [] }) with
    | ok spend =>
      rw [hsigned] at hspend
      cases hspend
    | error e' =>
      rw [hsigned] at hspend
      cases hspend
      exact ⟨_, .shutdown, rfl⟩
  · cases h

theorem drainAction_eq_error {action : GameAction} {e : Error} (hch : p.channelState = some ch)
    (h : drainAction E d action p = .error e p') :
    ∃ ch', Failed ch action ch' ∧ p' = { p with channelState := some ch' } := by
  have hsame : ∀ {p' : OffChainPhase}, p' = p →
      ∃ ch', Failed ch action ch' ∧ p' = { p with channelState := some ch' } := by
    rintro p' rfl
    exact ⟨ch, .same action, by rw [← hch]⟩
  cases action with
  | move gameId readableMove newEntropy => exact hsame (drainMove_eq_error hch h)
  | acceptSettlement gameId =>
    rcases Act.bind_eq_error.mp h with hsettle | ⟨amount, p₁, -, h⟩
    · obtain ⟨ch', hsettled, rfl⟩ := onChannel_eq_error hch hsettle
      exact ⟨ch', after_of_error hsettled ▸ .settle gameId, rfl⟩
    · cases h
  | cleanShutdown => exact drainCleanShutdown_eq_error hch h
  | sendPotato =>
    cases h
    exact hsame rfl
  | queuedProposalGroup myGames theirWire =>
    simp only [drainAction, drainProposalGroup, onChannel, hch] at h
    cases hpropose : each (fun game => do
        ChannelState.sendProposeGame E game theirWire.groupId
        pure ([] : List Unit)) myGames ch with
    | ok units ch' =>
      rw [hpropose] at h
      cases h
    | error e' ch' =>
      rw [hpropose] at h
      cases h
      exact ⟨ch, .same _, rfl⟩
  | queuedAcceptProposal gameId => exact hsame (drainAcceptProposal_eq_error hch h)
  | queuedCancelProposal gameId => exact hsame (drainCancelProposal_eq_error hch h)
  | queuedCancelProposalSilently gameId => exact hsame (drainCancelProposal_eq_error hch h)
  | cheat gameId moverShare entropy => exact drainCheat_eq_error hch h

/-! Runs of a drain. -/

/-- The actions of a queue in order, with the batch that comes of them. -/
inductive DrainRun (E : ChannelEnv) :
    ChannelState → List GameAction → List BatchAction → ChannelState → Prop where
  | nil (ch : ChannelState) : DrainRun E ch [] [] ch
  | cons {ch ch₁ ch' : ChannelState} {action : GameAction} {rest : List GameAction}
      {out : Option BatchAction} {outs : List BatchAction} (h : Drained E ch action out ch₁)
      (hrest : DrainRun E ch₁ rest outs ch') : DrainRun E ch (action :: rest) (out.toList ++ outs) ch'

theorem drainActions_eq_ok {queue : List GameAction} (hch : p.channelState = some ch)
    (h : drainActions E d queue p = .ok d' p') :
    ∃ outs ch', DrainRun E ch queue outs ch' ∧ d'.batchActions = d.batchActions ++ outs ∧
      (∀ a ∈ d'.deferred, a ∈ d.deferred ∨ a.isPlay = true) ∧
      (d'.cleanShutdownData.isSome ↔ d.cleanShutdownData.isSome ∨ .cleanShutdown ∈ queue) ∧
      p'.channelState = some ch' ∧ p'.shell = p.shell := by
  induction queue generalizing d p ch with
  | nil =>
    cases h
    exact ⟨[], ch, .nil ch, by simp, fun _ ha => .inl ha, by simp, hch, rfl⟩
  | cons action rest ih =>
    rw [drainActions_cons] at h
    obtain ⟨d₁, p₁, hfirst, hrest⟩ := Act.bind_eq_ok.mp h
    obtain ⟨out, ch₁, hdrained, rfl, hadds⟩ := drainAction_eq_ok (p := popped action rest p) hch hfirst
    obtain ⟨outs, ch', hrun, hactions, hdeferred, hshutdown, hch', hshell⟩ := ih rfl hrest
    refine ⟨out.toList ++ outs, ch', .cons hdrained hrun, ?_, ?_, ?_, hch', hshell⟩
    · rw [hactions, hadds.actions, List.append_assoc]
    · intro a ha
      rcases hdeferred a ha with ha | ha
      · exact hadds.deferred a ha
      · exact .inr ha
    · rw [hshutdown, List.mem_cons]
      rcases hadds.shutdown with ⟨hne, hsame⟩ | ⟨rfl, hsome⟩
      · rw [hsame]
        have hne' : GameAction.cleanShutdown ≠ action := fun heq => hne heq.symm
        simp [hne']
      · simp [hsome]

/-- A drain that fails has come to an action that fails, and leaves what is behind it. -/
theorem drainActions_eq_error {queue : List GameAction} {e : Error} (hch : p.channelState = some ch)
    (h : drainActions E d queue p = .error e p') :
    ∃ done action rest outs ch₁ ch', queue = done ++ action :: rest ∧ DrainRun E ch done outs ch₁ ∧
      Failed ch₁ action ch' ∧ p'.channelState = some ch' ∧ p'.gameActionQueue = rest ∧
      p'.shell = p.shell := by
  induction queue generalizing d p ch with
  | nil => cases h
  | cons action rest ih =>
    rw [drainActions_cons] at h
    rcases Act.bind_eq_error.mp h with hfirst | ⟨d₁, p₁, hfirst, hrest⟩
    · obtain ⟨ch', hfailed, rfl⟩ := drainAction_eq_error (p := popped action rest p) hch hfirst
      exact ⟨[], action, rest, [], ch, ch', rfl, .nil ch, hfailed, rfl, rfl, rfl⟩
    · obtain ⟨out, ch₁, hdrained, rfl, -⟩ := drainAction_eq_ok (p := popped action rest p) hch hfirst
      obtain ⟨done, failing, rest', outs, ch₂, ch', rfl, hrun, hfailed, hch', hqueue, hshell⟩ :=
        ih rfl hrest
      exact ⟨action :: done, failing, rest', _, ch₂, ch', rfl, .cons hdrained hrun, hfailed, hch',
        hqueue, hshell⟩

/-- The receipt of the actions of a batch in order, with what it does to the queue. -/
inductive ApplyRun (E : ChannelEnv) (gameTypes : List (Bytes × Option Clvm)) :
    ChannelState → List GameAction → List BatchAction → ChannelState → List GameAction → Prop where
  | nil (ch : ChannelState) (queue : List GameAction) : ApplyRun E gameTypes ch queue [] ch queue
  | cons {ch ch₁ ch' : ChannelState} {queue queue₁ queue' : List GameAction} {action : BatchAction}
      {rest : List BatchAction} (h : Applied E gameTypes ch action ch₁)
      (hqueue : Requeued queue action queue₁)
      (hrest : ApplyRun E gameTypes ch₁ queue₁ rest ch' queue') :
      ApplyRun E gameTypes ch queue (action :: rest) ch' queue'

theorem each_applyBatchAction_eq_ok {actions : List BatchAction} {effects : List Effect}
    (hch : p.channelState = some ch) (h : each (applyBatchAction E) actions p = .ok effects p') :
    ∃ ch' queue, ApplyRun E p.gameTypes ch p.gameActionQueue actions ch' queue ∧
      p' = { p with channelState := some ch', gameActionQueue := queue } := by
  induction actions generalizing p ch effects with
  | nil =>
    cases h
    exact ⟨ch, _, .nil _ _, by rw [← hch]⟩
  | cons action rest ih =>
    obtain ⟨effects₁, p₁, hfirst, h⟩ := Act.bind_eq_ok.mp h
    obtain ⟨effects₂, p₂, hrest, h⟩ := Act.bind_eq_ok.mp h
    cases h
    obtain ⟨ch₁, queue₁, happlied, hqueue, rfl⟩ := applyBatchAction_eq_ok hch hfirst
    obtain ⟨ch', queue', hrun, rfl⟩ := ih rfl hrest
    exact ⟨ch', queue', .cons happlied hqueue hrun, rfl⟩

/-- The checks on groups and the actions; a batch with new games takes a shutdown off the queue. -/
theorem applyActions_eq_ok {actions : List BatchAction} {effects : List Effect}
    (hch : p.channelState = some ch) (h : applyActions E actions p = .ok effects p') :
    checkGroups ch "accept" (acceptedIds actions) = .ok () ∧
      checkGroups ch "cancel" (cancelledIds actions) = .ok () ∧
      ∃ ch' queue, ApplyRun E p.gameTypes ch p.gameActionQueue actions ch' queue ∧
        (p' = { p with channelState := some ch', gameActionQueue := queue } ∨
          p' = { p with
            channelState := some ch'
            gameActionQueue := queue.filter fun action => action ≠ .cleanShutdown }) := by
  rw [applyActions, bind_of_ok (channel_of_some hch)] at h
  obtain ⟨u, p₁, haccept, h₁⟩ := Act.bind_eq_ok.mp h
  obtain ⟨haccepted, rfl⟩ := lift_eq_ok.mp haccept
  obtain ⟨u', p₂, hcancel, h₂⟩ := Act.bind_eq_ok.mp h₁
  obtain ⟨hcancelled, rfl⟩ := lift_eq_ok.mp hcancel
  obtain ⟨effects₁, p₃, heach, h₃⟩ := Act.bind_eq_ok.mp h₂
  obtain ⟨ch', queue, hrun, rfl⟩ := each_applyBatchAction_eq_ok hch heach
  refine ⟨haccepted, hcancelled, ch', queue, hrun, ?_⟩
  split at h₃
  · cases h₃
    exact .inr rfl
  · cases h₃
    exact .inl rfl

/-! Turns. -/

/-- What a player works on. -/
structure Desk where
  channel : ChannelState
  queue : List GameAction
  potato : Bool

/-- The batches that go to the peer and come from it, the numbers given to games of our own, and the
failures of queued actions. -/
inductive Event where
  | sends (b : PeerBatch)
  | receives (b : PeerBatch)
  | grants (ids : List GameID)
  | fails

/-- The next numbers for games of our own. -/
def nextNonces (nonce k : ℕ) : List GameID := (List.range k).map fun i => nonce + 2 * i

/-- A proposal as it waits in the queue. -/
def proposalGroup (start : GameProposal) (games : List FactoryGame) (nonce : ℕ) : GameAction :=
  let ids := nextNonces nonce games.length
  .queuedProposalGroup
    ((games.zip ids).map fun pair => pair.1.gameStart pair.2 start.timeout true)
    ⟨start, (games.zip ids).map fun pair => pair.1.wireSpec pair.2, ids.headD 0⟩

/-- What our factory answers to a proposal. -/
def FactoryAnswer (E : ChannelEnv) (gameTypes : List (Bytes × Option Clvm)) (start : GameProposal)
    (games : List FactoryGame) : Prop :=
  ∃ program, gameTypes.lookup start.gameType = some (some program) ∧
    runFactory E program start.parameters = .ok games

/-- The actions that are put into the queue one at a time. -/
def isPlain : GameAction → Bool
  | .move _ _ _ => true
  | .cheat _ _ _ => true
  | .acceptSettlement _ => true
  | .cleanShutdown => true
  | _ => false

/-- The answers to a proposal. -/
def IsAnswer (action : GameID → GameAction) : Prop :=
  action = .queuedAcceptProposal ∨ action = .queuedCancelProposal ∨
    action = .queuedCancelProposalSilently

/-- Everything that a player does to its channel state and its queue. -/
inductive Turn (E : ChannelEnv) (gameTypes : List (Bytes × Option Clvm)) (t : Desk) :
    List Event → Desk → Prop where
  | push (action : GameAction) (h : isPlain action = true) :
      Turn E gameTypes t [] { t with queue := t.queue ++ [action] }
  | strip : Turn E gameTypes t []
      { t with queue := t.queue.filter fun action => action ≠ .cleanShutdown }
  | answer (gameId : GameID) (ids : List GameID) (action : GameID → GameAction)
      (h : t.channel.groupMemberIds gameId = .ok ids) (haction : IsAnswer action) :
      Turn E gameTypes t [] { t with queue := t.queue ++ ids.map action }
  | allocate : Turn E gameTypes t [.grants [t.channel.myNextNonce]]
      { t with channel := { t.channel with myNextNonce := t.channel.myNextNonce + 2 } }
  | propose (start : GameProposal) (games : List FactoryGame) (hgames : games ≠ [])
      (h : FactoryAnswer E gameTypes start games) : Turn E gameTypes t
        [.grants (nextNonces t.channel.myNextNonce games.length)]
        { t with
          channel := { t.channel with myNextNonce := t.channel.myNextNonce + 2 * games.length }
          queue := t.queue ++ [proposalGroup start games t.channel.myNextNonce] }
  | idle (ch' : ChannelState) (deferred : List GameAction) (hpotato : t.potato = true)
      (h : DrainRun E t.channel t.queue [] ch') (hshutdown : .cleanShutdown ∉ t.queue)
      (hdeferred : ∀ a ∈ deferred, a.isPlay = true) :
      Turn E gameTypes t [] { t with channel := ch', queue := deferred }
  | send (outs : List BatchAction) (ch' : ChannelState) (deferred : List GameAction)
      (shutdown : Option (Aggsig × Clvm)) (hpotato : t.potato = true)
      (h : DrainRun E t.channel t.queue outs ch')
      (hshutdown : shutdown.isSome ↔ .cleanShutdown ∈ t.queue)
      (hdeferred : ∀ a ∈ deferred, a.isPlay = true) :
      Turn E gameTypes t [.sends ⟨outs, ch'.signaturesAt E (ch'.stateNumber + 1), shutdown⟩]
        ⟨ch'.sent E, deferred, false⟩
  | fail (done : List GameAction) (action : GameAction) (rest : List GameAction)
      (outs : List BatchAction) (ch₁ ch' : ChannelState) (hpotato : t.potato = true)
      (hqueue : t.queue = done ++ action :: rest) (h : DrainRun E t.channel done outs ch₁)
      (hfailed : Failed ch₁ action ch') :
      Turn E gameTypes t [.fails] { t with channel := ch', queue := rest }
  | pass (hpotato : t.potato = true) : Turn E gameTypes t
      [.sends ⟨[], t.channel.signaturesAt E (t.channel.stateNumber + 1), none⟩]
      { t with channel := t.channel.sent E, potato := false }
  | receive (b : PeerBatch) (ch₁ : ChannelState) (queue₁ : List GameAction)
      (hpotato : t.potato = false) (hlast : b.cleanShutdown = none)
      (haccept : checkGroups t.channel "accept" (acceptedIds b.actions) = .ok ())
      (hcancel : checkGroups t.channel "cancel" (cancelledIds b.actions) = .ok ())
      (h : ApplyRun E gameTypes t.channel t.queue b.actions ch₁ queue₁)
      (hverifies : ch₁.Verifies E (ch₁.stateNumber + 1) b.signatures) :
      Turn E gameTypes t [.receives b] ⟨settledState (ch₁.received E b.signatures), queue₁, true⟩

inductive Turns (E : ChannelEnv) (gameTypes : List (Bytes × Option Clvm)) (t : Desk) :
    List Event → Desk → Prop where
  | refl : Turns E gameTypes t [] t
  | step {events events' : List Event} {t₁ t₂ : Desk} (h : Turns E gameTypes t events t₁)
      (hturn : Turn E gameTypes t₁ events' t₂) : Turns E gameTypes t (events ++ events') t₂

theorem Turn.turns {gameTypes : List (Bytes × Option Clvm)} {t t' : Desk} {events : List Event}
    (h : Turn E gameTypes t events t') : Turns E gameTypes t events t' := .step .refl h

theorem Turns.trans {gameTypes : List (Bytes × Option Clvm)} {t t₁ t₂ : Desk}
    {events events' : List Event} (h : Turns E gameTypes t events t₁)
    (h' : Turns E gameTypes t₁ events' t₂) : Turns E gameTypes t (events ++ events') t₂ := by
  induction h' with
  | refl =>
    rw [List.append_nil]
    exact h
  | step _ hturn ih =>
    rw [← List.append_assoc]
    exact .step ih hturn

/-- A player at its desk. -/
structure At (p : OffChainPhase) (t : Desk) : Prop where
  channel : p.channelState = some t.channel
  queue : p.gameActionQueue = t.queue
  potato : p.hasPotato = t.potato

/-- A step of a player is a number of turns. -/
def Works (E : ChannelEnv) (p p' : OffChainPhase) (events : List Event) : Prop :=
  ∀ t, p.At t → p'.gameTypes = p.gameTypes ∧ ∃ t', p'.At t' ∧ Turns E p.gameTypes t events t'

theorem Works.refl (p : OffChainPhase) : Works E p p [] := fun t ht => ⟨rfl, t, ht, .refl⟩

theorem Works.trans {p p₁ p₂ : OffChainPhase} {events events' : List Event}
    (h : Works E p p₁ events) (h' : Works E p₁ p₂ events') : Works E p p₂ (events ++ events') := by
  intro t ht
  obtain ⟨htypes, t₁, ht₁, hturns⟩ := h t ht
  obtain ⟨htypes', t₂, ht₂, hturns'⟩ := h' t₁ ht₁
  exact ⟨htypes'.trans htypes, t₂, ht₂, hturns.trans (htypes ▸ hturns')⟩

/-- A step that leaves the desk as it is. -/
theorem works_of_desk (htypes : p'.gameTypes = p.gameTypes)
    (hch : p'.channelState = p.channelState) (hqueue : p'.gameActionQueue = p.gameActionQueue)
    (hpotato : p'.hasPotato = p.hasPotato) : Works E p p' [] := fun t ht =>
  ⟨htypes, t, ⟨hch.trans ht.channel, hqueue.trans ht.queue, hpotato.trans ht.potato⟩, .refl⟩

def batchesOf (messages : List PeerMessage) : List PeerBatch :=
  messages.filterMap fun msg =>
    match msg with
    | .batch b => some b
    | _ => none

@[simp] theorem batchesOf_append (xs ys : List PeerMessage) :
    batchesOf (xs ++ ys) = batchesOf xs ++ batchesOf ys := List.filterMap_append

/-- The batches among the messages of a step. -/
def sentEvents (effects : List Effect) : List Event := (batchesOf (messagesOf effects)).map .sends

theorem sentEvents_append (xs ys : List Effect) :
    sentEvents (xs ++ ys) = sentEvents xs ++ sentEvents ys := by
  simp [sentEvents]

theorem drainQueueIntoBatch_works {sent : Bool} {effects : List Effect}
    (h : drainQueueIntoBatch E p = .ok (sent, effects) p') : Works E p p' (sentEvents effects) := by
  intro t ht
  by_cases hp : p.havePotato = .present
  · rw [drainQueueIntoBatch_eq hp] at h
    obtain ⟨d, p₁, hd, hpackage⟩ := Act.bind_eq_ok.mp h
    obtain ⟨outs, ch', hrun, hactions, hdeferred, hshutdown, hch', hshell⟩ :=
      drainActions_eq_ok ht.channel hd
    have htypes : p₁.gameTypes = p.gameTypes := (congrArg OffChainPhase.gameTypes hshell :)
    have hsame : p₁.hasPotato = p.hasPotato := (congrArg hasPotato hshell :)
    have hpotato : t.potato = true := ht.potato.symm.trans (decide_eq_true hp)
    have hplays : ∀ a ∈ d.deferred, a.isPlay = true := fun a ha =>
      (hdeferred a ha).resolve_left (by simp [Drain.empty])
    have htidy := drainActions_tidy Drain.tidy_empty p.gameActionQueue p p₁ d hd
    replace hactions : d.batchActions = outs := hactions
    rw [ht.queue] at hrun hshutdown
    replace hshutdown : d.cleanShutdownData.isSome ↔ .cleanShutdown ∈ t.queue := by
      simpa [Drain.empty] using hshutdown
    by_cases hempty : d.batchActions = [] ∧ d.cleanShutdownData = none
    · rw [packageBatch_nothing hempty] at hpackage
      cases hpackage
      have hsent : sentEvents d.effects = [] := by
        rw [sentEvents, htidy.messages]
        rfl
      rw [hsent]
      refine ⟨htypes, { t with channel := ch', queue := d.deferred },
        ⟨hch', rfl, hsame.trans ht.potato⟩, (Turn.idle ch' d.deferred hpotato ?_ ?_ hplays).turns⟩
      · rw [← hempty.1, hactions]
        exact hrun
      · rw [← hshutdown, hempty.2]
        simp
    · rw [packageBatch_sent hempty hch'] at hpackage
      cases hpackage
      have hsent : sentEvents (d.effects ++ [.peerBatch ⟨d.batchActions,
          ch'.signaturesAt E (ch'.stateNumber + 1), d.cleanShutdownData⟩]) =
            [.sends ⟨outs, ch'.signaturesAt E (ch'.stateNumber + 1), d.cleanShutdownData⟩] := by
        rw [sentEvents, messagesOf_append, htidy.messages, hactions]
        rfl
      rw [hsent]
      exact ⟨htypes, ⟨ch'.sent E, d.deferred, false⟩, ⟨rfl, rfl, rfl⟩,
        (Turn.send outs ch' d.deferred d.cleanShutdownData hpotato hrun hshutdown hplays).turns⟩
  · rw [drainQueueIntoBatch, bind_of_ok (get_apply p), if_pos hp] at h
    cases h

/-- A number of failures. -/
def Lapses (events : List Event) : Prop := ∀ event ∈ events, event = .fails

theorem drainQueueIntoBatch_works_error {e : Error} (h : drainQueueIntoBatch E p = .error e p') :
    ∃ lapses, Lapses lapses ∧ Works E p p' lapses := by
  by_cases hp : p.havePotato = .present
  · refine ⟨[.fails], by simp [Lapses], fun t ht => ?_⟩
    rw [drainQueueIntoBatch_eq hp] at h
    rcases Act.bind_eq_error.mp h with hd | ⟨d, p₁, hd, hpackage⟩
    · obtain ⟨done, action, rest, outs, ch₁, ch', hqueue, hrun, hfailed, hch', hrest, hshell⟩ :=
        drainActions_eq_error ht.channel hd
      have htypes : p'.gameTypes = p.gameTypes := (congrArg OffChainPhase.gameTypes hshell :)
      have hsame : p'.hasPotato = p.hasPotato := (congrArg hasPotato hshell :)
      have hpotato : t.potato = true := ht.potato.symm.trans (decide_eq_true hp)
      have hturn : Turn E p.gameTypes t [.fails] { t with channel := ch', queue := rest } :=
        .fail done action rest outs ch₁ ch' hpotato (ht.queue ▸ hqueue) hrun hfailed
      exact ⟨htypes, { t with channel := ch', queue := rest }, ⟨hch', hrest, hsame.trans ht.potato⟩,
        hturn.turns⟩
    · obtain ⟨outs, ch', -, -, -, -, hch', -⟩ := drainActions_eq_ok ht.channel hd
      obtain ⟨result, p₂, hok⟩ := packageBatch_of_some (E := E) d (p := p₁) (by simp [hch'])
      rw [hok] at hpackage
      cases hpackage
  · rw [drainQueueIntoBatch, bind_of_ok (get_apply p), if_pos hp] at h
    cases h
    exact ⟨[], by simp [Lapses], Works.refl p⟩

/-! What the local player asks for. -/

/-- The messages of an action that is put into the queue. -/
theorem doGameAction_eq (action : GameAction) (p : OffChainPhase) :
    ∃ effects potato, doGameAction action p = .ok effects { p with
        gameActionQueue := p.gameActionQueue ++ [action]
        havePotato := potato } ∧ sentEvents effects = [] ∧
      (potato = .present ↔ p.havePotato = .present) := by
  cases hp : p.havePotato with
  | absent =>
    refine ⟨[.peerRequestPotato], .requested, ?_, rfl, by simp⟩
    simp only [doGameAction, pushAction, sendPotatoRequestIfNeeded, bind_apply, modify_apply,
      get_apply, hp, pure_apply]
  | requested =>
    refine ⟨[], .requested, ?_, rfl, by simp⟩
    simp only [doGameAction, pushAction, sendPotatoRequestIfNeeded, bind_apply, modify_apply,
      get_apply, hp, pure_apply]
  | present =>
    refine ⟨[], .present, ?_, rfl, by simp⟩
    simp only [doGameAction, pushAction, sendPotatoRequestIfNeeded, bind_apply, modify_apply,
      get_apply, hp, pure_apply]

theorem each_doGameAction_eq (action : GameID → GameAction) (ids : List GameID) (p : OffChainPhase) :
    ∃ effects potato, each (fun id => doGameAction (action id)) ids p = .ok effects { p with
        gameActionQueue := p.gameActionQueue ++ ids.map action
        havePotato := potato } ∧ sentEvents effects = [] ∧
      (potato = .present ↔ p.havePotato = .present) := by
  induction ids generalizing p with
  | nil => exact ⟨[], p.havePotato, by simp [each], rfl, Iff.rfl⟩
  | cons id ids ih =>
    obtain ⟨effects, potato, hfirst, hsent, hpotato⟩ := doGameAction_eq (action id) p
    obtain ⟨effects', potato', hrest, hsent', hpotato'⟩ := ih { p with
      gameActionQueue := p.gameActionQueue ++ [action id]
      havePotato := potato }
    refine ⟨effects ++ effects', potato', ?_, ?_, hpotato'.trans hpotato⟩
    · rw [each, bind_of_ok hfirst, bind_of_ok hrest]
      simp [List.append_assoc]
    · rw [sentEvents_append, hsent, hsent']
      rfl

theorem doGameAction_works {action : GameAction} {effects : List Effect}
    (hplain : isPlain action = true) (h : doGameAction action p = .ok effects p') :
    Works E p p' (sentEvents effects) := by
  obtain ⟨effects', potato, heq, hsent, hpotato⟩ := doGameAction_eq action p
  rw [heq] at h
  cases h
  rw [hsent]
  intro t ht
  refine ⟨rfl, { t with queue := t.queue ++ [action] }, ⟨ht.channel, ?_, ?_⟩,
    (Turn.push action hplain).turns⟩
  · exact congrArg (· ++ [action]) ht.queue
  · exact (decide_eq_decide.mpr hpotato).trans ht.potato

theorem each_allocateMyNonce {α : Type} (xs : List α) (ch : ChannelState) :
    each (fun _ : α => do
        let n ← ChannelState.allocateMyNonce
        pure [n]) xs ch = .ok (nextNonces ch.myNextNonce xs.length)
          { ch with myNextNonce := ch.myNextNonce + 2 * xs.length } := by
  induction xs generalizing ch with
  | nil => rfl
  | cons x xs ih =>
    have hfirst : (do
        let n ← ChannelState.allocateMyNonce
        pure [n] : Act Error ChannelState (List ℕ)) ch =
          .ok [ch.myNextNonce] { ch with myNextNonce := ch.myNextNonce + 2 } := rfl
    rw [each, bind_of_ok hfirst, bind_of_ok (ih _)]
    have hnext : ch.myNextNonce + 2 + 2 * xs.length = ch.myNextNonce + 2 * (x :: xs).length := by
      rw [List.length_cons]
      omega
    have hids : [ch.myNextNonce] ++ nextNonces (ch.myNextNonce + 2) xs.length =
        nextNonces ch.myNextNonce (x :: xs).length := by
      rw [nextNonces, nextNonces, List.length_cons, List.range_succ_eq_map, List.map_cons,
        List.map_map, List.singleton_append]
      refine congrArg (ch.myNextNonce :: ·) (List.map_congr_left fun i _ => ?_)
      show ch.myNextNonce + 2 + 2 * i = ch.myNextNonce + 2 * (i + 1)
      omega
    simp only [pure_apply, hids, hnext]

theorem factoryGames_eq_ok {start : GameProposal} {games : List FactoryGame}
    (h : factoryGames E start p = .ok games p') :
    p' = p ∧ FactoryAnswer E p.gameTypes start games := by
  refine ⟨(keeps_factoryGames start).ok h, ?_⟩
  rw [factoryGames, bind_of_ok (get_apply p)] at h
  cases hlookup : p.gameTypes.lookup start.gameType with
  | none =>
    rw [hlookup] at h
    cases h
  | some factory =>
    cases factory with
    | none =>
      rw [hlookup] at h
      cases h
    | some program =>
      rw [hlookup] at h
      exact ⟨program, hlookup, (lift_eq_ok.mp h).1⟩

theorem sendPotatoRequestIfNeeded_eq (p : OffChainPhase) :
    ∃ effects potato, sendPotatoRequestIfNeeded p = .ok effects { p with havePotato := potato } ∧
      sentEvents effects = [] ∧ (potato = .present ↔ p.havePotato = .present) := by
  rw [sendPotatoRequestIfNeeded, bind_of_ok (get_apply p)]
  cases hp : p.havePotato with
  | absent => exact ⟨[.peerRequestPotato], .requested, rfl, rfl, by simp⟩
  | requested => exact ⟨[], .requested, by simp [← hp], rfl, by simp⟩
  | present => exact ⟨[], .present, by simp [← hp], rfl, by simp⟩

/-- The phase without a shutdown in its queue. -/
def stripped (p : OffChainPhase) : OffChainPhase :=
  { p with gameActionQueue := p.gameActionQueue.filter fun action => action ≠ .cleanShutdown }

theorem proposeGame_eq (start : GameProposal) {ch : ChannelState} (hch : p.channelState = some ch) :
    proposeGame E start p = (if ch.pendingPeerProposalIds ≠ [] then do
        let cancelledId ← onChannel ChannelState.allocateMyNonce
        pure ([cancelledId], [.notify (.proposalCancelled cancelledId .peerProposalPending)])
      else do
        let games ← factoryGames E start
        if games = [] then
          throw (.strErr "propose_games: factory returned empty proposal group" [])
        else
          let ids ← onChannel (Act.each (fun _ => do
            let n ← ChannelState.allocateMyNonce
            pure [n]) games)
          pushAction (.queuedProposalGroup
            ((games.zip ids).map fun pair => pair.1.gameStart pair.2 start.timeout true)
            ⟨start, (games.zip ids).map fun pair => pair.1.wireSpec pair.2, ids.headD 0⟩)
          let effects ← sendPotatoRequestIfNeeded
          pure (ids, effects) : Act Error OffChainPhase (List GameID × List Effect)) p.stripped := by
  rw [proposeGame, bind_of_ok (modify_apply _ _)]
  exact bind_of_ok (channel_of_some (p := p.stripped) hch) _

/-- A proposal is put into the queue under the next numbers, or one number is used up. -/
theorem proposeGame_eq_ok {start : GameProposal} {ids : List GameID} {effects : List Effect}
    (hch : p.channelState = some ch) (h : proposeGame E start p = .ok (ids, effects) p') :
    sentEvents effects = [] ∧
      (ids = [ch.myNextNonce] ∧ p' = { p.stripped with
          channelState := some { ch with myNextNonce := ch.myNextNonce + 2 } } ∨
        ∃ games potato, (potato = .present ↔ p.havePotato = .present) ∧ games ≠ [] ∧
          FactoryAnswer E p.gameTypes start games ∧
          ids = nextNonces ch.myNextNonce games.length ∧ p' = { p.stripped with
            channelState := some { ch with myNextNonce := ch.myNextNonce + 2 * games.length }
            gameActionQueue := p.stripped.gameActionQueue ++
              [proposalGroup start games ch.myNextNonce]
            havePotato := potato }) := by
  rw [proposeGame_eq start hch] at h
  rcases ite_eq_ok.mp h with ⟨-, h⟩ | ⟨-, h⟩
  · obtain ⟨id, p₁, hallocate, h⟩ := Act.bind_eq_ok.mp h
    obtain ⟨ch₀, ch₁, hch₀, hallocated, rfl⟩ := onChannel_eq_ok_iff.mp hallocate
    obtain rfl := Option.some.inj (hch.symm.trans hch₀)
    cases hallocated
    cases h
    exact ⟨rfl, .inl ⟨rfl, rfl⟩⟩
  · obtain ⟨games, p₁, hfactory, h₁⟩ := Act.bind_eq_ok.mp h
    obtain ⟨rfl, hanswer⟩ := factoryGames_eq_ok hfactory
    rcases ite_eq_ok.mp h₁ with ⟨-, h₂⟩ | ⟨hgames, h₂⟩
    · cases h₂
    obtain ⟨ids', p₂, hallocate, h₃⟩ := Act.bind_eq_ok.mp h₂
    obtain ⟨ch₀, ch₁, hch₀, hallocated, rfl⟩ := onChannel_eq_ok_iff.mp hallocate
    obtain rfl := Option.some.inj (hch.symm.trans hch₀)
    rw [each_allocateMyNonce] at hallocated
    cases hallocated
    rw [pushAction, bind_of_ok (modify_apply _ _)] at h₃
    obtain ⟨effects', p₃, hrequest, h₄⟩ := Act.bind_eq_ok.mp h₃
    obtain ⟨effects₁, potato, heq, hsent, hpotato⟩ := sendPotatoRequestIfNeeded_eq { p.stripped with
      channelState := some { ch with myNextNonce := ch.myNextNonce + 2 * games.length }
      gameActionQueue := p.stripped.gameActionQueue ++ [proposalGroup start games ch.myNextNonce] }
    cases h₄
    cases heq.symm.trans hrequest
    exact ⟨hsent, .inr ⟨games, potato, hpotato, hgames, hanswer, rfl, rfl⟩⟩

theorem proposeGame_eq_error {start : GameProposal} {e : Error} (hch : p.channelState = some ch)
    (h : proposeGame E start p = .error e p') : p' = p.stripped := by
  rw [proposeGame_eq start hch] at h
  rcases ite_eq_error.mp h with ⟨-, h⟩ | ⟨-, h⟩
  · rcases Act.bind_eq_error.mp h with hallocate | ⟨id, p₁, -, h⟩
    · obtain ⟨ch', hallocated, -⟩ := onChannel_eq_error (p := p.stripped) hch hallocate
      cases hallocated
    · cases h
  · rcases Act.bind_eq_error.mp h with hfactory | ⟨games, p₁, hfactory, h₁⟩
    · exact (keeps_factoryGames start).onError _ _ _ hfactory
    obtain ⟨rfl, -⟩ := factoryGames_eq_ok hfactory
    rcases ite_eq_error.mp h₁ with ⟨-, h₂⟩ | ⟨-, h₂⟩
    · cases h₂
      rfl
    rcases Act.bind_eq_error.mp h₂ with hallocate | ⟨ids, p₂, -, h₃⟩
    · obtain ⟨ch', hallocated, -⟩ := onChannel_eq_error (p := p.stripped) hch hallocate
      rw [each_allocateMyNonce] at hallocated
      cases hallocated
    rw [pushAction, bind_of_ok (modify_apply _ _)] at h₃
    obtain ⟨effects, potato, heq, -⟩ := sendPotatoRequestIfNeeded_eq { p₂ with
      gameActionQueue := p₂.gameActionQueue ++ [.queuedProposalGroup
        ((games.zip ids).map fun pair => pair.1.gameStart pair.2 start.timeout true)
        ⟨start, (games.zip ids).map fun pair => pair.1.wireSpec pair.2, ids.headD 0⟩] }
    rw [bind_of_ok heq] at h₃
    cases h₃

theorem stripped_works (p : OffChainPhase) : Works E p p.stripped [] := by
  intro t ht
  refine ⟨rfl, { t with queue := t.queue.filter fun action => action ≠ .cleanShutdown },
    ⟨ht.channel, ?_, ht.potato⟩, Turn.strip.turns⟩
  exact congrArg (List.filter fun action => decide (action ≠ GameAction.cleanShutdown)) ht.queue

theorem proposeGame_works {start : GameProposal} {ids : List GameID} {effects : List Effect}
    (h : proposeGame E start p = .ok (ids, effects) p') :
    Works E p p' (.grants ids :: sentEvents effects) := by
  intro t ht
  obtain ⟨hsent, hresult⟩ := proposeGame_eq_ok ht.channel h
  rw [hsent]
  obtain ⟨-, t₁, ht₁, hstrip⟩ := stripped_works (E := E) p t ht
  have hch₁ : t₁.channel = t.channel := Option.some.inj (ht₁.channel.symm.trans ht.channel)
  rcases hresult with ⟨hids, rfl⟩ | ⟨games, potato, hpotato, hgames, hanswer, hids, rfl⟩
  · refine ⟨rfl, { t₁ with
      channel := { t₁.channel with myNextNonce := t₁.channel.myNextNonce + 2 } }, ?_, ?_⟩
    · rw [hch₁]
      exact ⟨rfl, ht₁.queue, ht₁.potato⟩
    · rw [hids, ← hch₁]
      exact hstrip.step .allocate
  · refine ⟨rfl, { t₁ with
      channel := { t₁.channel with myNextNonce := t₁.channel.myNextNonce + 2 * games.length }
      queue := t₁.queue ++ [proposalGroup start games t₁.channel.myNextNonce] }, ?_, ?_⟩
    · rw [hch₁, ← ht₁.queue]
      exact ⟨rfl, rfl, (decide_eq_decide.mpr hpotato).trans ht₁.potato⟩
    · rw [hids, ← hch₁]
      exact hstrip.step (.propose start games hgames hanswer)

/-- The answers to a proposal are put into the queue for its whole group. -/
theorem answer_works (action : GameID → GameAction) (haction : IsAnswer action) {gameId : GameID}
    {ids : List GameID} {effects : List Effect} (hch : p.channelState = some ch)
    (hids : ch.groupMemberIds gameId = .ok ids)
    (h : each (fun id => doGameAction (action id)) ids p = .ok effects p') :
    sentEvents effects = [] ∧ Works E p p' [] := by
  obtain ⟨effects', potato, heq, hsent, hpotato⟩ := each_doGameAction_eq action ids p
  rw [heq] at h
  cases h
  refine ⟨hsent, fun t ht => ?_⟩
  have hch' : t.channel = ch := Option.some.inj (ht.channel.symm.trans hch)
  refine ⟨rfl, { t with queue := t.queue ++ ids.map action }, ⟨ht.channel, ?_, ?_⟩,
    (Turn.answer gameId ids action (hch' ▸ hids) haction).turns⟩
  · exact congrArg (· ++ ids.map action) ht.queue
  · exact (decide_eq_decide.mpr hpotato).trans ht.potato

theorem sentEvents_acceptedNotifications (ch : ChannelState) (ids : List GameID) :
    sentEvents (acceptedNotifications ch ids) = [] := by
  rw [sentEvents, messagesOf_acceptedNotifications]
  rfl

theorem acceptProposal_works {gameId : GameID} {effects : List Effect}
    (h : acceptProposal gameId p = .ok effects p') : Works E p p' (sentEvents effects) := by
  intro t ht
  rw [acceptProposal, bind_of_ok (channel_of_some ht.channel)] at h
  obtain ⟨ids, p₁, hlift, h₁⟩ := Act.bind_eq_ok.mp h
  obtain ⟨hids, rfl⟩ := lift_eq_ok.mp hlift
  obtain ⟨required, p₂, hlift', h₂⟩ := Act.bind_eq_ok.mp h₁
  obtain ⟨-, rfl⟩ := lift_eq_ok.mp hlift'
  rcases ite_eq_ok.mp h₂ with ⟨-, h₃⟩ | ⟨-, h₃⟩
  · obtain ⟨effects', p₃, heach, h₄⟩ := Act.bind_eq_ok.mp h₃
    cases h₄
    obtain ⟨hsent, hworks⟩ := answer_works (E := E) .queuedCancelProposalSilently
      (.inr (.inr rfl)) ht.channel hids heach
    have hnone : sentEvents (acceptedNotifications t.channel ids ++
        .notify (.insufficientBalance gameId (decide (required.1 > t.channel.myOutOfGameBalance))
          (decide (required.2 > t.channel.theirOutOfGameBalance))) :: effects') = [] := by
      rw [sentEvents_append, sentEvents_acceptedNotifications]
      exact hsent
    rw [hnone]
    exact hworks t ht
  · obtain ⟨hsent, hworks⟩ := answer_works (E := E) .queuedAcceptProposal (.inl rfl) ht.channel hids h₃
    rw [hsent]
    exact hworks t ht

theorem cancelProposal_works {gameId : GameID} {effects : List Effect}
    (h : cancelProposal gameId p = .ok effects p') : Works E p p' (sentEvents effects) := by
  intro t ht
  rw [cancelProposal, bind_of_ok (channel_of_some ht.channel)] at h
  obtain ⟨ids, p₁, hlift, h₁⟩ := Act.bind_eq_ok.mp h
  obtain ⟨hids, rfl⟩ := lift_eq_ok.mp hlift
  obtain ⟨hsent, hworks⟩ := answer_works (E := E) .queuedCancelProposal
    (.inr (.inl rfl)) ht.channel hids h₁
  rw [hsent]
  exact hworks t ht

theorem flushPendingActions_works {effects : List Effect}
    (h : flushPendingActions E p = .ok effects p') : Works E p p' (sentEvents effects) := by
  rw [flushPendingActions, bind_of_ok (modify_apply _ p), bind_of_ok (get_apply _)] at h
  split at h
  · cases h
    exact works_of_desk rfl rfl rfl rfl
  · obtain ⟨⟨sent, effects'⟩, p₁, hdrain, hpure⟩ := Act.bind_eq_ok.mp h
    cases hpure
    have hdesk : Works E p { p with lastFailedQueuedAction := none } [] := works_of_desk rfl rfl rfl rfl
    exact hdesk.trans (drainQueueIntoBatch_works hdrain)

/-- The numbers that a request of the player is given. -/
def grantedIds (E : ChannelEnv) (input : LocalInput) (p : OffChainPhase) : List GameID :=
  match input with
  | .propose start =>
    match proposeGame E start p with
    | .ok (ids, _) _ => ids
    | .error _ _ => []
  | _ => []

def Grants (events : List Event) (ids : List GameID) : Prop :=
  events = [] ∧ ids = [] ∨ events = [.grants ids]

theorem runLocal_works {input : LocalInput} {effects : List Effect}
    (h : runLocal E input p = .ok effects p') :
    ∃ grants, Grants grants (grantedIds E input p) ∧ Works E p p' (grants ++ sentEvents effects) := by
  have hnothing : Grants [] [] := .inl ⟨rfl, rfl⟩
  cases input with
  | propose start =>
    obtain ⟨⟨ids, effects'⟩, p₁, hpropose, hpure⟩ := Act.bind_eq_ok.mp h
    cases hpure
    refine ⟨[.grants ids], .inr ?_, proposeGame_works hpropose⟩
    rw [grantedIds]
    simp only [hpropose]
  | accept gameId => exact ⟨[], hnothing, acceptProposal_works h⟩
  | cancel gameId => exact ⟨[], hnothing, cancelProposal_works h⟩
  | move gameId readable newEntropy => exact ⟨[], hnothing, doGameAction_works rfl h⟩
  | settle gameId => exact ⟨[], hnothing, doGameAction_works rfl h⟩
  | shutDown => exact ⟨[], hnothing, doGameAction_works rfl h⟩
  | cheat gameId moverShare entropy => exact ⟨[], hnothing, doGameAction_works rfl h⟩
  | flush => exact ⟨[], hnothing, flushPendingActions_works h⟩

/-- A request of the player that fails before anything is drained. -/
theorem runLocal_works_refused {input : LocalInput} (hinput : input ≠ .flush) {e : Error}
    (h : runLocal E input p = .error e p') : Works E p p' [] := by
  have hplain : ∀ action, doGameAction action p ≠ .error e p' := by
    intro action herror
    obtain ⟨effects, potato, heq, -⟩ := doGameAction_eq action p
    rw [heq] at herror
    cases herror
  have heach : ∀ (action : GameID → GameAction) ids p₁,
      each (fun id => doGameAction (action id)) ids p₁ ≠ .error e p' := by
    intro action ids p₁ herror
    obtain ⟨effects, potato, heq, -⟩ := each_doGameAction_eq action ids p₁
    rw [heq] at herror
    cases herror
  intro t ht
  cases input with
  | propose start =>
    rcases Act.bind_eq_error.mp h with hpropose | ⟨result, p₁, -, hpure⟩
    · obtain rfl := proposeGame_eq_error ht.channel hpropose
      exact stripped_works p t ht
    · cases hpure
  | accept gameId =>
    rw [runLocal, acceptProposal, bind_of_ok (channel_of_some ht.channel)] at h
    rcases Act.bind_eq_error.mp h with hlift | ⟨ids, p₁, hlift, h₁⟩
    · obtain rfl := (keeps_lift (f := fun p => p) _).onError _ _ _ hlift
      exact Works.refl p' t ht
    obtain ⟨-, rfl⟩ := lift_eq_ok.mp hlift
    rcases Act.bind_eq_error.mp h₁ with hlift' | ⟨required, p₂, hlift', h₂⟩
    · obtain rfl := (keeps_lift (f := fun p => p) _).onError _ _ _ hlift'
      exact Works.refl p' t ht
    obtain ⟨-, rfl⟩ := lift_eq_ok.mp hlift'
    rcases ite_eq_error.mp h₂ with ⟨-, h₃⟩ | ⟨-, h₃⟩
    · rcases Act.bind_eq_error.mp h₃ with h₄ | ⟨effects, p₃, -, h₄⟩
      · exact absurd h₄ (heach _ _ _)
      · cases h₄
    · exact absurd h₃ (heach _ _ _)
  | cancel gameId =>
    rw [runLocal, cancelProposal, bind_of_ok (channel_of_some ht.channel)] at h
    rcases Act.bind_eq_error.mp h with hlift | ⟨ids, p₁, hlift, h₁⟩
    · obtain rfl := (keeps_lift (f := fun p => p) _).onError _ _ _ hlift
      exact Works.refl p' t ht
    · exact absurd h₁ (heach _ _ _)
  | move gameId readable newEntropy => exact absurd h (hplain _)
  | settle gameId => exact absurd h (hplain _)
  | shutDown => exact absurd h (hplain _)
  | cheat gameId moverShare entropy => exact absurd h (hplain _)
  | flush => exact absurd rfl hinput

theorem runLocal_works_error {input : LocalInput} {e : Error}
    (h : runLocal E input p = .error e p') : ∃ lapses, Lapses lapses ∧ Works E p p' lapses := by
  by_cases hinput : input = .flush
  · subst hinput
    rw [runLocal, flushPendingActions, bind_of_ok (modify_apply _ p), bind_of_ok (get_apply _)] at h
    split at h
    · cases h
    · rcases Act.bind_eq_error.mp h with hdrain | ⟨result, p₁, -, hpure⟩
      · have hdesk : Works E p { p with lastFailedQueuedAction := none } [] :=
          works_of_desk rfl rfl rfl rfl
        obtain ⟨lapses, hlapses, hworks⟩ := drainQueueIntoBatch_works_error hdrain
        exact ⟨lapses, hlapses, hdesk.trans hworks⟩
      · cases hpure
  · exact ⟨[], by simp [Lapses], runLocal_works_refused hinput h⟩

/-! A message from the peer. -/

theorem batchesOf_potatoMessages (messages : List PeerMessage) :
    batchesOf (potatoMessages messages) = batchesOf messages := by
  rw [batchesOf, potatoMessages, List.filterMap_filter, batchesOf]
  congr 1
  funext msg
  cases msg <;> rfl

theorem sentEvents_of_potatoless {effects : List Effect} (h : Potatoless effects) :
    sentEvents effects = [] := by
  rw [sentEvents, ← batchesOf_potatoMessages, h]
  rfl

theorem sentEvents_notify (ns : List GameNotification) : sentEvents (ns.map .notify) = [] :=
  sentEvents_of_potatoless (potatoless_notify ns)

theorem pass_works (hch : p.channelState = some ch) (hp : p.havePotato = .present) :
    Works E p { p with channelState := some (ch.sent E), havePotato := .absent }
      [.sends ⟨[], ch.signaturesAt E (ch.stateNumber + 1), none⟩] := by
  intro t ht
  obtain rfl : ch = t.channel := Option.some.inj (hch.symm.trans ht.channel)
  have hpotato : t.potato = true := ht.potato.symm.trans (decide_eq_true hp)
  exact ⟨rfl, { t with channel := t.channel.sent E, potato := false }, ⟨rfl, ht.queue, rfl⟩,
    (Turn.pass hpotato).turns⟩

/-- No queued action is reported to have failed. -/
def Unfailed (effects : List Effect) : Prop :=
  ∀ gameId action reason, .notify (.actionFailed gameId action reason) ∉ effects

theorem drainAfterReceive_works {drained : Option (Bool × List Effect)} {failed : List Effect}
    (h : drainAfterReceive E p = .ok (drained, failed) p') : sentEvents failed = [] ∧
      ((∃ result, drained = some result ∧ Works E p p' (sentEvents result.2)) ∨
        drained = none ∧ ¬ Unfailed failed ∧ ∃ lapses, Lapses lapses ∧ Works E p p' lapses) := by
  rw [drainAfterReceive] at h
  cases hr : drainQueueIntoBatch E p with
  | ok result p₁ =>
    obtain ⟨sent, effects⟩ := result
    rw [hr] at h
    cases h
    exact ⟨rfl, .inl ⟨_, rfl, drainQueueIntoBatch_works hr⟩⟩
  | error e p₁ =>
    simp only [hr] at h
    split at h
    · cases h
      have hdesk : Works E p₁ { p₁ with lastFailedQueuedAction := none } [] :=
        works_of_desk rfl rfl rfl rfl
      obtain ⟨lapses, hlapses, hworks⟩ := drainQueueIntoBatch_works_error hr
      refine ⟨rfl, .inr ⟨rfl, by simp [Unfailed], lapses, hlapses, ?_⟩⟩
      have htrans := hworks.trans hdesk
      rwa [List.append_nil] at htrans
    · cases h

/-- The turns of a step: the failures, of which there is none unless they are reported, and then the
batch. -/
def Proceeds (E : ChannelEnv) (p p' : OffChainPhase) (effects : List Effect) : Prop :=
  ∃ lapses, Lapses lapses ∧ (Unfailed effects → lapses = []) ∧
    Works E p p' (lapses ++ sentEvents effects)

theorem Works.proceeds {effects : List Effect} (h : Works E p p' (sentEvents effects)) :
    Proceeds E p p' effects := ⟨[], by simp [Lapses], fun _ => rfl, h⟩

theorem passBack_works {p₁ : OffChainPhase} {sendBack : Bool} {ns : List GameNotification}
    {r : Option (Bool × List Effect) × List Effect} {effects : List Effect}
    (hp : p.havePotato = .present) (hsome : p.channelState.isSome)
    (hdrain : drainAfterReceive E p = .ok r p₁)
    (h : passBack E sendBack (ns.map .notify) r p₁ = .ok effects p') : Proceeds E p p' effects := by
  obtain ⟨drained, failed⟩ := r
  obtain ⟨hfailed, hdrained⟩ := drainAfterReceive_works hdrain
  cases drained with
  | none =>
    cases h
    obtain ⟨-, hreported, lapses, hlapses, hworks⟩ :=
      hdrained.resolve_left (by rintro ⟨result, heq, -⟩; cases heq)
    refine ⟨lapses, hlapses, fun hunfailed => absurd (fun g a r hmem => ?_) hreported, ?_⟩
    · exact hunfailed g a r (List.mem_append_right _ hmem)
    · rw [sentEvents_append, sentEvents_notify, hfailed, List.append_nil, List.append_nil]
      exact hworks
  | some result =>
    obtain ⟨sent, batchEffects⟩ := result
    obtain ⟨result, heq, hworks⟩ := hdrained.resolve_right (by rintro ⟨heq, -⟩; cases heq)
    cases heq
    refine Works.proceeds ?_
    have hback : ∀ effects', sentEvents (ns.map Effect.notify ++ batchEffects ++ effects') =
        sentEvents batchEffects ++ sentEvents effects' := by
      intro effects'
      rw [sentEvents_append, sentEvents_append, sentEvents_notify]
      rfl
    have hstays : Works E p p₁ (sentEvents (ns.map Effect.notify ++ batchEffects)) := by
      rw [sentEvents_append, sentEvents_notify]
      exact hworks
    obtain ⟨ch, hch⟩ : ∃ ch, p₁.channelState = some ch := by
      rw [← Option.isSome_iff_exists, drainAfterReceive_isSome hdrain]
      exact hsome
    rw [passBack] at h
    rcases ite_eq_ok.mp h with ⟨-, h₁⟩ | ⟨hunsent, h₁⟩
    · cases h₁
      exact hstays
    have hp₁ : p₁.havePotato = .present := by
      rcases drainAfterReceive_ok hdrain with ⟨effects', b, heq, -⟩ | ⟨hasks, -⟩
      · cases heq
        exact absurd rfl hunsent
      · rcases hasks.potato with ⟨heq, -⟩ | ⟨heq, -⟩
        · exact heq.trans hp
        · cases hp.symm.trans heq
    rw [bind_of_ok (get_apply p₁)] at h₁
    rcases ite_eq_ok.mp h₁ with ⟨-, h₂⟩ | ⟨-, h₂⟩
    · rw [bind_of_ok (modify_apply _ _),
        bind_of_ok (passPotato_of_some (p := { p₁ with peerWantsPotato := false }) hch)] at h₂
      cases h₂
      have hdesk : Works E p₁ { p₁ with peerWantsPotato := false } [] := works_of_desk rfl rfl rfl rfl
      rw [hback]
      exact hworks.trans (hdesk.trans (pass_works hch hp₁))
    rcases ite_eq_ok.mp h₂ with ⟨-, h₃⟩ | ⟨-, h₃⟩
    · rw [bind_of_ok (passPotato_of_some hch)] at h₃
      cases h₃
      rw [hback]
      exact hworks.trans (pass_works hch hp₁)
    · cases h₃
      exact hstays

/-- The turns of the receipt of batches. -/
def Takes (E : ChannelEnv) (p p' : OffChainPhase) (batches : List PeerBatch)
    (effects : List Effect) : Prop :=
  ∃ lapses, Lapses lapses ∧ (Unfailed effects → lapses = []) ∧
    Works E p p' (batches.map .receives ++ lapses ++ sentEvents effects)

theorem processReceivedBatch_works {b : PeerBatch} {effects : List Effect}
    (hb : b.cleanShutdown = none) (hp : p.havePotato ≠ .present)
    (h : processReceivedBatch E b p = .ok effects p') : Takes E p p' [b] effects := by
  obtain ⟨applied, p₁, happlied, hrest⟩ := Act.bind_eq_ok.mp h
  rw [hb] at hrest
  obtain ⟨spend, p₂, hverify, hafter⟩ := Act.bind_eq_ok.mp hrest
  obtain ⟨ch₁, ch₂, hch₁, hverified, rfl⟩ := onChannel_eq_ok_iff.mp hverify
  obtain ⟨hverifies, rfl, rfl⟩ := (ch₁.verifyReceivedBatchSignatures_eq_ok_iff E).mp hverified
  obtain ⟨after, p₃, hupdate, hpure⟩ := Act.bind_eq_ok.mp hafter
  cases hpure
  obtain ⟨ns, heq⟩ := updateChannelCoinAfterReceive_eq (E := E)
    (p := { p₁ with channelState := some (ch₁.received E b.signatures) }) rfl
    (ch₁.publishAt E (ch₁.stateNumber + 1) b.signatures) (b.actions.any isAcceptSettlement)
  rw [heq] at hupdate
  obtain ⟨r, p₄, hdrain, hback⟩ := Act.bind_eq_ok.mp hupdate
  have hless := sentEvents_of_potatoless (applyActions_potatoless b.actions p p₁ applied happlied)
  obtain ⟨lapses, hlapses, hnone, hworks⟩ := passBack_works rfl rfl hdrain hback
  refine ⟨lapses, hlapses, fun hunfailed => hnone fun g a r hmem =>
    hunfailed g a r (List.mem_append_right _ hmem), fun t ht => ?_⟩
  have hpotato : t.potato = false := ht.potato.symm.trans (decide_eq_false hp)
  obtain ⟨haccept, hcancel, ch', queue, hrun, hp₁⟩ := applyActions_eq_ok ht.channel happlied
  rw [ht.queue] at hrun
  have hch' : ch' = ch₁ := by
    rcases hp₁ with rfl | rfl
    · exact Option.some.inj hch₁
    · exact Option.some.inj hch₁
  subst hch'
  have htypes : p₁.gameTypes = p.gameTypes := by
    rcases hp₁ with rfl | rfl
    · rfl
    · rfl
  have hreceive : Turns E p.gameTypes t [.receives b]
      ⟨settledState (ch'.received E b.signatures), p₁.gameActionQueue, true⟩ := by
    have hturn := Turn.receive (E := E) b ch' queue hpotato hb haccept hcancel hrun hverifies
    rcases hp₁ with rfl | rfl
    · exact hturn.turns
    · exact hturn.turns.step .strip
  -- the potato may bring a shutdown with it
  have hpush : ∃ t₁, (aboutToDrain (ch'.publishAt E (ch'.stateNumber + 1) b.signatures)
      (b.actions.any isAcceptSettlement) (ch'.received E b.signatures)
      { p₁ with channelState := some (ch'.received E b.signatures) }).At t₁ ∧
        Turns E p.gameTypes t [.receives b] t₁ := by
    rw [aboutToDrain]
    split
    · exact ⟨_, ⟨rfl, rfl, rfl⟩, hreceive.step (.push .cleanShutdown rfl)⟩
    · exact ⟨_, ⟨rfl, rfl, rfl⟩, hreceive⟩
  obtain ⟨t₁, ht₁, hturns⟩ := hpush
  obtain ⟨htypes', t₂, ht₂, hturns'⟩ := hworks t₁ ht₁
  refine ⟨htypes'.trans htypes, t₂, ht₂, ?_⟩
  rw [sentEvents_append, hless, List.nil_append, List.append_assoc]
  have hsame : (aboutToDrain (ch'.publishAt E (ch'.stateNumber + 1) b.signatures)
      (b.actions.any isAcceptSettlement) (ch'.received E b.signatures)
      { p₁ with channelState := some (ch'.received E b.signatures) }).gameTypes = p.gameTypes :=
    htypes
  rw [hsame] at hturns'
  exact hturns.trans hturns'

theorem Works.takes {effects : List Effect} (h : Works E p p' (sentEvents effects)) :
    Takes E p p' [] effects := ⟨[], by simp [Lapses], fun _ => rfl, h⟩

/-- A message that is accepted is a number of turns, as long as the phase goes on. -/
theorem processMessage_works {msg : PeerMessage} {effects : List Effect}
    (h : processMessage E msg p = .ok effects p') (hnext : p'.channelSpendNextPhase = none) :
    Takes E p p' (batchesOf [msg]) effects := by
  cases msg with
  | batch b =>
    obtain ⟨hb, hp, hr⟩ := processMessage_batch_ok h hnext
    exact processReceivedBatch_works hb hp hr
  | handshakeF =>
    rw [processMessage_handshakeF] at h
    split at h
    · cases h
    · cases h
      exact (Works.refl p).takes
  | handshake =>
    rw [processMessage_handshake] at h
    split at h
    · cases h
    · cases h
  | cleanShutdownComplete coinSpend =>
    rw [processMessage_cleanShutdownComplete, passOnCleanShutdownComplete,
      bind_of_ok (get_apply p)] at h
    cases hpending : p.pendingCleanShutdown with
    | some pending =>
      simp only [hpending, bind_of_ok (set_apply _ _)] at h
      split at h
      · cases h
        cases hnext
      · cases h
        cases hnext
    | none =>
      simp only [hpending] at h
      split at h
      · cases h
        exact (Works.refl p).takes
      · cases h
        exact (Works.refl p).takes
  | requestPotato =>
    rw [processMessage_requestPotato] at h
    split at h
    · cases h
      exact (Works.refl p).takes
    split at h
    · rename_i hp
      obtain ⟨passed, p₁, hpass, hrest⟩ := Act.bind_eq_ok.mp h
      cases hch : p.channelState with
      | none =>
        rw [passPotato, bind_apply, onChannel] at hpass
        simp only [hch] at hpass
        cases hpass
      | some ch =>
        rw [passPotato_of_some (p := { p with peerWantsPotato := true }) hch] at hpass
        cases hpass
        cases hrest
        exact Works.takes ((pass_works hch hp).trans (works_of_desk rfl rfl rfl rfl))
    · cases h
      refine Works.takes ?_
      exact works_of_desk rfl rfl rfl rfl
  | message gameId data =>
    rw [processMessage_message] at h
    split at h
    · cases h
    obtain ⟨decoded, p₁, hdecoded, hrest⟩ := Act.bind_eq_ok.mp h
    obtain ⟨ch, p₂, hchannel, hrest⟩ := Act.bind_eq_ok.mp hrest
    have hreads : Keeps (fun ch : ChannelState => ch) (ChannelState.receivedMessage E gameId data) :=
      keeps_get.bind fun _ => (keeps_lift _).bind fun _ => keeps_lift _
    obtain ⟨ch₀, ch₁, hch₀, hread, rfl⟩ := onChannel_eq_ok_iff.mp hdecoded
    obtain rfl : ch₁ = ch₀ := hreads.ok hread
    rw [channel_of_some rfl] at hchannel
    cases hchannel
    cases hturn : ch.gameIsMyTurn gameId with
    | some myTurn =>
      rw [hturn] at hrest
      cases hrest
      refine Works.takes ?_
      exact works_of_desk rfl hch₀.symm rfl rfl
    | none =>
      rw [hturn] at hrest
      cases hrest

theorem processQueuedMessage_works {effects : List Effect}
    (h : processQueuedMessage E p = .ok effects p') (hnext : p'.channelSpendNextPhase = none) :
    ∃ batches, batchesOf p.incomingMessages = batches ++ batchesOf p'.incomingMessages ∧
      Takes E p p' batches effects := by
  rcases processQueuedMessage_ok h with ⟨-, rfl, rfl⟩ | ⟨msg, rest, hincoming, hmessage⟩
  · exact ⟨[], rfl, (Works.refl p').takes⟩
  · have hrest : p'.incomingMessages = rest := (processMessage_ok hmessage hnext).incoming
    refine ⟨batchesOf [msg], ?_, ?_⟩
    · rw [hincoming, hrest, ← batchesOf_append]
      rfl
    · obtain ⟨lapses, hlapses, hnone, hworks⟩ := processMessage_works hmessage hnext
      have hdesk : Works E p { p with incomingMessages := rest } [] := works_of_desk rfl rfl rfl rfl
      exact ⟨lapses, hlapses, hnone, hdesk.trans hworks⟩

/-- The desk at the end of the handshake. -/
def Desk.opening (o : Opening E) : Desk := ⟨o.channel, [], o.initiator⟩

/-- A run of a player is a number of turns from the end of the handshake. -/
theorem Reach.turns {o : Opening E} (h : Reach E o p) :
    ∃ t events, p.At t ∧ Turns E p.gameTypes (Desk.opening o) events t := by
  have hstep : ∀ {p p' : OffChainPhase} {events : List Event},
      (∃ t events, p.At t ∧ Turns E p.gameTypes (Desk.opening o) events t) → Works E p p' events →
      ∃ t events, p'.At t ∧ Turns E p'.gameTypes (Desk.opening o) events t := by
    rintro p p' events ⟨t, before, ht, hturns⟩ hworks
    obtain ⟨htypes, t', ht', hturns'⟩ := hworks t ht
    exact ⟨t', _, ht', htypes ▸ hturns.trans hturns'⟩
  induction h with
  | start gameTypes incomingMessages =>
    refine ⟨_, [], ⟨rfl, rfl, ?_⟩, .refl⟩
    rw [hasPotato, fromCompletedHandshake, Desk.opening]
    cases o.initiator <;> rfl
  | @act p _ input ih =>
    cases hr : runLocal E input p with
    | ok effects p' =>
      rw [after_of_ok hr]
      obtain ⟨grants, -, hworks⟩ := runLocal_works hr
      exact hstep ih hworks
    | error e p' =>
      rw [after_of_error hr]
      obtain ⟨lapses, -, hworks⟩ := runLocal_works_error hr
      exact hstep ih hworks
  | @receive p p' _ msg effects hok hnext ih =>
    obtain ⟨batches, -, lapses, -, -, hworks⟩ := processQueuedMessage_works hok hnext
    have hdesk : Works E p { p with incomingMessages := p.incomingMessages ++ [msg] } [] :=
      works_of_desk rfl rfl rfl rfl
    exact hstep ih (hdesk.trans hworks)
  | @queued p p' _ effects hok hnext ih =>
    obtain ⟨batches, -, lapses, -, -, hworks⟩ := processQueuedMessage_works hok hnext
    exact hstep ih hworks

end OffChainPhase

end ChiaGaming
