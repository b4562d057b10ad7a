import ChiaGaming.Session.Frame

namespace ChiaGaming

/-! What one step of a session does to the potato. -/

/-- The message that an effect sends to the peer, if it does. -/
def Effect.message? : Effect → Option PeerMessage
  | .peerBatch b => some (.batch b)
  | .peerRequestPotato => some .requestPotato
  | .peerGameMessage gameId data => some (.message gameId data)
  | .peerCleanShutdownComplete coinSpend => some (.cleanShutdownComplete coinSpend)
  | .queueTerminalHandoff coinSpend => some (.cleanShutdownComplete coinSpend)
  | _ => none

def messagesOf (effects : List Effect) : List PeerMessage := effects.filterMap Effect.message?

@[simp] theorem messagesOf_nil : messagesOf [] = [] := rfl

@[simp] theorem messagesOf_append (xs ys : List Effect) :
    messagesOf (xs ++ ys) = messagesOf xs ++ messagesOf ys := List.filterMap_append

@[simp] theorem messagesOf_notify (ns : List GameNotification) :
    messagesOf (ns.map .notify) = [] := by
  simp [messagesOf, List.filterMap_map, Effect.message?]

/-- What the local player may ask for, and the flush that follows. -/
inductive LocalInput where
  | propose (start : GameProposal)
  | accept (gameId : GameID)
  | cancel (gameId : GameID)
  | move (gameId : GameID) (readable : Clvm) (newEntropy : Hash)
  | settle (gameId : GameID)
  | shutDown
  | cheat (gameId : GameID) (moverShare : ℕ) (entropy : Hash)
  | flush
  deriving DecidableEq

namespace OffChainPhase

open Act

def runLocal (E : ChannelEnv) : LocalInput → Act Error OffChainPhase (List Effect)
  | .propose start => do
    let (_, effects) ← proposeGame E start
    pure effects
  | .accept gameId => acceptProposal gameId
  | .cancel gameId => cancelProposal gameId
  | .move gameId readable newEntropy => makeMove gameId readable newEntropy
  | .settle gameId => acceptSettlement gameId
  | .shutDown => shutDown
  | .cheat gameId moverShare entropy => cheatGame gameId moverShare entropy
  | .flush => flushPendingActions E

variable {E : ChannelEnv}

/-- Who is owed the potato and what is still to be read. -/
def custody (p : OffChainPhase) :
    Bool × Option (CoinString × Clvm) × List PeerMessage × Option SpendChannelCoinPhase :=
  (p.peerWantsPotato, p.pendingCleanShutdown, p.incomingMessages, p.channelSpendNextPhase)

/-- A step that asks for the potato at most. -/
structure Asks (E : ChannelEnv) (p p' : OffChainPhase) (messages : List PeerMessage) : Prop where
  evolves : Evolves E p p'
  custody : p'.custody = p.custody
  potato : p'.havePotato = p.havePotato ∧ messages = [] ∨
    p.havePotato = .absent ∧ p'.havePotato = .requested ∧ messages = [.requestPotato]

theorem Asks.refl (p : OffChainPhase) : Asks E p p [] := ⟨Std.Refl.refl p, rfl, .inl ⟨rfl, rfl⟩⟩

theorem Asks.trans {p p₁ p₂ : OffChainPhase} {messages messages' : List PeerMessage}
    (h : Asks E p p₁ messages) (h' : Asks E p₁ p₂ messages') :
    Asks E p p₂ (messages ++ messages') := by
  refine ⟨IsTrans.trans _ _ _ h.evolves h'.evolves, h'.custody.trans h.custody, ?_⟩
  rcases h.potato with ⟨hp, rfl⟩ | ⟨hp, hp₁, rfl⟩
  · rcases h'.potato with ⟨hp', rfl⟩ | ⟨hp', hp₂, rfl⟩
    · exact .inl ⟨hp'.trans hp, rfl⟩
    · exact .inr ⟨hp ▸ hp', hp₂, rfl⟩
  · rcases h'.potato with ⟨hp', rfl⟩ | ⟨hp', hp₂, rfl⟩
    · exact .inr ⟨hp, hp'.trans hp₁, rfl⟩
    · rw [hp₁] at hp'
      cases hp'

/-- The potato and what goes with it stay as they are. -/
def watch (p : OffChainPhase) := (p.havePotato, p.custody)

/-- An action that only works on the channel state and the queue. -/
structure Quiet {α : Type} (E : ChannelEnv) (x : Act Error OffChainPhase α) : Prop where
  moves : Moves (Evolves E) x
  keeps : Keeps watch x

theorem Quiet.bind {α β : Type} {x : Act Error OffChainPhase α} {f : α → Act Error OffChainPhase β}
    (hx : Quiet E x) (hf : ∀ a, Quiet E (f a)) : Quiet E (x >>= f) :=
  ⟨hx.moves.bind fun a => (hf a).moves, hx.keeps.bind fun a => (hf a).keeps⟩

theorem quiet_lift {α : Type} (x : Except Error α) : Quiet E (Act.lift x) :=
  ⟨moves_lift x, keeps_lift x⟩

theorem quiet_channel : Quiet E channel := ⟨moves_channel, keeps_channel⟩

theorem quiet_modify {f : OffChainPhase → OffChainPhase}
    (hch : ∀ p, (f p).channelState = p.channelState) (hw : ∀ p, (f p).watch = p.watch) :
    Quiet E (modify f : Act Error OffChainPhase PUnit) := ⟨fun p => .inl (hch p), hw⟩

theorem watch_of_shell {p p' : OffChainPhase} (h : p.shell = p'.shell) : p.watch = p'.watch :=
  (congrArg watch h :)

theorem keeps_watch_onChannel {α : Type} (x : Act Error ChannelState α) :
    Keeps watch (onChannel x) := (keeps_shell_onChannel x).mono fun _ _ => watch_of_shell

theorem Quiet.asks {α : Type} {x : Act Error OffChainPhase α} (hx : Quiet E x) (p : OffChainPhase) :
    Asks E p (x.after p) [] :=
  ⟨hx.moves p, congrArg Prod.snd (hx.keeps p), .inl ⟨congrArg Prod.fst (hx.keeps p), rfl⟩⟩

/-- An action of the local player: an error changes nothing but the channel state and the queue,
a success asks for the potato at most. -/
structure Asking {α : Type} (E : ChannelEnv) (effectsOf : α → List Effect)
    (x : Act Error OffChainPhase α) : Prop where
  ok : ∀ p p' a, x p = .ok a p' → Asks E p p' (messagesOf (effectsOf a))
  error : ∀ p p' e, x p = .error e p' → Asks E p p' []

theorem Quiet.asking {α β : Type} {x : Act Error OffChainPhase α}
    {f : α → Act Error OffChainPhase β} {effectsOf : β → List Effect} (hx : Quiet E x)
    (hf : ∀ a, Asking E effectsOf (f a)) : Asking E effectsOf (x >>= f) := by
  constructor
  · intro p p' b h
    obtain ⟨a, p₁, hr, hok⟩ := Act.bind_eq_ok.mp h
    have hasks := hx.asks p
    rw [after_of_ok hr] at hasks
    exact hasks.trans ((hf a).ok p₁ p' b hok)
  · intro p p' e h
    rcases Act.bind_eq_error.mp h with hr | ⟨a, p₁, hr, herror⟩
    · have hasks := hx.asks p
      rwa [after_of_error hr] at hasks
    · have hasks := hx.asks p
      rw [after_of_ok hr] at hasks
      exact hasks.trans ((hf a).error p₁ p' e herror)

theorem asking_throw {α : Type} {effectsOf : α → List Effect} (e : Error) :
    Asking E effectsOf (throw e) := by
  constructor
  · intro p p' a h
    cases h
  · intro p p' e' h
    cases h
    exact Asks.refl p

theorem asking_pure {α : Type} {effectsOf : α → List Effect} {a : α}
    (h : messagesOf (effectsOf a) = []) : Asking E effectsOf (pure a) := by
  constructor
  · intro p p' b hok
    cases hok
    rw [h]
    exact Asks.refl p
  · intro p p' e herror
    cases herror

theorem asking_ite {α : Type} {effectsOf : α → List Effect} {c : Prop} [Decidable c]
    {x y : Act Error OffChainPhase α} (hx : Asking E effectsOf x) (hy : Asking E effectsOf y) :
    Asking E effectsOf (if c then x else y) := by
  split
  · exact hx
  · exact hy

/-- Asking for the potato succeeds. -/
def AskingOk (E : ChannelEnv) (x : Act Error OffChainPhase (List Effect)) : Prop :=
  ∀ p, ∃ effects p', x p = .ok effects p' ∧ Asks E p p' (messagesOf effects)

/-- What is asked for is passed on, beside notifications. -/
theorem AskingOk.asking {α : Type} {x : Act Error OffChainPhase (List Effect)}
    {effectsOf : α → List Effect} {f : List Effect → α} (hx : AskingOk E x)
    (hf : ∀ effects, messagesOf (effectsOf (f effects)) = messagesOf effects) :
    Asking E effectsOf (x >>= fun effects => pure (f effects)) := by
  constructor
  · intro p p' b h
    obtain ⟨effects, p₁, hr, hasks⟩ := hx p
    rw [bind_of_ok hr] at h
    cases h
    rw [hf]
    exact hasks
  · intro p p' e h
    obtain ⟨effects, p₁, hr, -⟩ := hx p
    rw [bind_of_ok hr] at h
    cases h

theorem askingOk_sendPotatoRequestIfNeeded : AskingOk E sendPotatoRequestIfNeeded := by
  intro p
  rw [sendPotatoRequestIfNeeded, bind_of_ok (get_apply p)]
  cases hp : p.havePotato with
  | absent =>
    exact ⟨[.peerRequestPotato], { p with havePotato := .requested }, rfl, .inl rfl, rfl,
      .inr ⟨hp, rfl, rfl⟩⟩
  | requested => exact ⟨[], p, rfl, Asks.refl p⟩
  | present => exact ⟨[], p, rfl, Asks.refl p⟩

theorem askingOk_doGameAction (action : GameAction) : AskingOk E (doGameAction action) := by
  intro p
  obtain ⟨effects, p', hr, hasks⟩ := askingOk_sendPotatoRequestIfNeeded (E := E)
    { p with gameActionQueue := p.gameActionQueue ++ [action] }
  exact ⟨effects, p', hr, hasks.evolves, hasks.custody, hasks.potato⟩

theorem askingOk_each {f : GameID → Act Error OffChainPhase (List Effect)}
    (hf : ∀ id, AskingOk E (f id)) (ids : List GameID) : AskingOk E (each f ids) := by
  induction ids with
  | nil => exact fun p => ⟨[], p, rfl, Asks.refl p⟩
  | cons id ids ih =>
    intro p
    obtain ⟨effects, p₁, hr, hasks⟩ := hf id p
    obtain ⟨effects', p₂, hr', hasks'⟩ := ih p₁
    refine ⟨effects ++ effects', p₂, ?_, ?_⟩
    · rw [each, bind_of_ok hr, bind_of_ok hr']
      rfl
    · rw [messagesOf_append]
      exact hasks.trans hasks'

theorem quiet_factoryGames (start : GameProposal) : Quiet E (factoryGames E start) := by
  refine Quiet.bind ⟨moves_get, keeps_get⟩ fun p => ?_
  split
  · exact ⟨moves_throw _, keeps_throw _⟩
  · exact ⟨moves_throw _, keeps_throw _⟩
  · exact quiet_lift _

theorem quiet_op {α : Type} {x : Act Error ChannelState α} (op : GameOp)
    (hx : ∀ ch, x.after ch = GameOp.step E ch op) : Quiet E (onChannel x) :=
  ⟨moves_op op hx, keeps_watch_onChannel x⟩

theorem asking_proposeGame (start : GameProposal) :
    Asking E Prod.snd (proposeGame E start) := by
  refine Quiet.asking (quiet_modify (fun _ => rfl) fun _ => rfl) fun _ =>
    quiet_channel.asking fun ch => asking_ite ?_ ?_
  · exact (quiet_op .allocateMyNonce fun _ => rfl).asking fun id => asking_pure rfl
  · refine (quiet_factoryGames start).asking fun games => asking_ite (asking_throw _) ?_
    have hids : Quiet E (onChannel (each (fun _ : FactoryGame => do
        let n ← ChannelState.allocateMyNonce
        pure [n]) games)) :=
      ⟨moves_onChannel (moves_each (fun _ =>
        Moves.bind (fun ch => GameOp.Steps.single ch .allocateMyNonce) fun _ => moves_pure _) games),
        keeps_watch_onChannel _⟩
    refine hids.asking fun ids => Quiet.asking (quiet_modify (fun _ => rfl) fun _ => rfl) fun _ => ?_
    exact askingOk_sendPotatoRequestIfNeeded.asking fun _ => rfl

theorem AskingOk.asking_id {x : Act Error OffChainPhase (List Effect)} (hx : AskingOk E x) :
    Asking E id x := by
  constructor
  · intro p p' a h
    obtain ⟨effects, p₁, hr, hasks⟩ := hx p
    rw [hr] at h
    cases h
    exact hasks
  · intro p p' e h
    obtain ⟨effects, p₁, hr, -⟩ := hx p
    rw [hr] at h
    cases h

theorem messagesOf_acceptedNotifications (ch : ChannelState) (ids : List GameID) :
    messagesOf (acceptedNotifications ch ids) = [] := by
  rw [messagesOf, acceptedNotifications, List.filterMap_filterMap]
  refine List.filterMap_eq_nil_iff.mpr fun id _ => ?_
  cases ch.findProposal id with
  | none => rfl
  | some proposal => rfl

theorem asking_acceptProposal (gameId : GameID) : Asking E id (acceptProposal gameId) := by
  refine quiet_channel.asking fun ch => (quiet_lift _).asking fun groupIds =>
    (quiet_lift _).asking fun required => asking_ite ?_ ?_
  · refine (askingOk_each (fun _ => askingOk_doGameAction _) groupIds).asking fun effects => ?_
    simp [messagesOf_acceptedNotifications]
    rfl
  · exact (askingOk_each (fun _ => askingOk_doGameAction _) groupIds).asking_id

theorem asking_cancelProposal (gameId : GameID) : Asking E id (cancelProposal gameId) :=
  quiet_channel.asking fun _ => (quiet_lift _).asking fun groupIds =>
    (askingOk_each (fun _ => askingOk_doGameAction _) groupIds).asking_id

/-- Everything but the flush only asks for the potato. -/
theorem asking_runLocal {input : LocalInput} (h : input ≠ .flush) : Asking E id (runLocal E input) := by
  cases input with
  | propose start =>
    constructor
    · intro p p' effects hr
      obtain ⟨⟨ids, effects'⟩, p₁, hpropose, hpure⟩ := Act.bind_eq_ok.mp hr
      cases hpure
      exact (asking_proposeGame start).ok p _ _ hpropose
    · intro p p' e hr
      rcases Act.bind_eq_error.mp hr with hpropose | ⟨a, p₁, -, hpure⟩
      · exact (asking_proposeGame start).error p p' e hpropose
      · cases hpure
  | accept gameId => exact asking_acceptProposal gameId
  | cancel gameId => exact asking_cancelProposal gameId
  | move gameId readable newEntropy => exact (askingOk_doGameAction _).asking_id
  | settle gameId => exact (askingOk_doGameAction _).asking_id
  | shutDown => exact (askingOk_doGameAction _).asking_id
  | cheat gameId moverShare entropy => exact (askingOk_doGameAction _).asking_id
  | flush => exact absurd rfl h

/-! The drain. -/

/-- A drain under way has only notifications to its name, and plans a shutdown exactly if it sends
one. -/
structure Drain.Tidy (d : Drain) : Prop where
  messages : messagesOf d.effects = []
  shutdown : d.pendingShutdown.isSome = d.cleanShutdownData.isSome

theorem Drain.tidy_empty : Drain.Tidy .empty := ⟨rfl, rfl⟩

theorem Drain.Tidy.batch {d : Drain} (h : d.Tidy) (action : BatchAction) : (d.batch action).Tidy :=
  ⟨h.messages, h.shutdown⟩

theorem Drain.Tidy.defer {d : Drain} (h : d.Tidy) (action : GameAction) : (d.defer action).Tidy :=
  ⟨h.messages, h.shutdown⟩

theorem Drain.Tidy.notify {d : Drain} (h : d.Tidy) (ns : List GameNotification) :
    (d.notify ns).Tidy :=
  ⟨by simp [Drain.notify, h.messages], h.shutdown⟩

/-- A result that satisfies a condition, if there is one. -/
def Yields {α : Type} (Q : α → Prop) (x : Act Error OffChainPhase α) : Prop :=
  ∀ p p' a, x p = .ok a p' → Q a

theorem yields_pure {α : Type} {Q : α → Prop} {a : α} (h : Q a) : Yields Q (pure a) := by
  intro p p' b hr
  cases hr
  exact h

theorem yields_throw {α : Type} {Q : α → Prop} (e : Error) : Yields Q (throw e) := by
  intro p p' b hr
  cases hr

theorem yields_bind {α β : Type} {Q : β → Prop} (x : Act Error OffChainPhase α)
    {f : α → Act Error OffChainPhase β} (h : ∀ a, Yields Q (f a)) : Yields Q (x >>= f) := by
  intro p p' b hr
  obtain ⟨a, p₁, -, hf⟩ := Act.bind_eq_ok.mp hr
  exact h a p₁ p' b hf

theorem yields_ite {α : Type} {Q : α → Prop} {c : Prop} [Decidable c]
    {x y : Act Error OffChainPhase α} (hx : Yields Q x) (hy : Yields Q y) :
    Yields Q (if c then x else y) := by
  split
  · exact hx
  · exact hy

theorem drainAction_tidy {d : Drain} (h : d.Tidy) (action : GameAction) :
    Yields Drain.Tidy (drainAction E d action) := by
  cases action with
  | move gameId readableMove newEntropy =>
    refine yields_bind _ fun ch => yields_ite (yields_pure (h.defer _)) ?_
    intro p p' d' hr
    dsimp only at hr
    split at hr
    · cases hr
      exact h.batch _
    · cases hr
      exact h.notify _
    · cases hr
  | acceptSettlement gameId => exact yields_bind _ fun _ => yields_pure (h.batch _)
  | cleanShutdown =>
    exact yields_bind _ fun _ => yields_ite (yields_throw _) (yields_bind _ fun _ =>
      yields_bind _ fun _ => yields_bind _ fun _ => yields_pure ⟨(h.notify _).messages, rfl⟩)
  | sendPotato => exact yields_throw _
  | queuedProposalGroup myGames theirWire =>
    intro p p' d' hr
    simp only [drainAction, drainProposalGroup] at hr
    split at hr
    · cases hr
      exact h.batch _
    · cases hr
  | queuedAcceptProposal gameId =>
    refine yields_bind _ fun ch => ?_
    split
    · exact yields_throw _
    · exact yields_ite (yields_throw _) (yields_ite
        (yields_bind _ fun _ => yields_pure ((h.notify _).batch _))
        (yields_bind _ fun _ => yields_pure ((h.notify _).batch _)))
  | queuedCancelProposal gameId =>
    exact yields_bind _ fun _ => yields_ite (yields_throw _)
      (yields_bind _ fun _ => yields_pure ((h.notify _).batch _))
  | queuedCancelProposalSilently gameId =>
    exact yields_bind _ fun _ => yields_ite (yields_throw _)
      (yields_bind _ fun _ => yields_pure ((h.notify _).batch _))
  | cheat gameId moverShare entropy =>
    exact yields_bind _ fun _ => yields_ite (yields_pure (h.defer _))
      (yields_bind _ fun _ => yields_bind _ fun _ => yields_pure (h.batch _))

theorem drainActions_tidy {d : Drain} (h : d.Tidy) (queue : List GameAction) :
    Yields Drain.Tidy (drainActions E d queue) := by
  induction queue generalizing d with
  | nil => exact yields_pure h
  | cons action rest ih =>
    refine yields_bind _ fun _ => ?_
    intro p p' d' hr
    obtain ⟨d₁, p₁, hd₁, hrest⟩ := Act.bind_eq_ok.mp hr
    exact ih (drainAction_tidy h action p p₁ d₁ hd₁) p₁ p' d' hrest

theorem quiet_drainActions (d : Drain) (queue : List GameAction) :
    Quiet E (drainActions E d queue) :=
  ⟨moves_drainActions d queue, (keeps_shell_drainActions d queue).mono fun _ _ => watch_of_shell⟩

/-- The potato leaves with a batch. -/
structure Sends (E : ChannelEnv) (p p' : OffChainPhase) (b : PeerBatch) : Prop where
  present : p.havePotato = .present
  absent : p'.havePotato = .absent
  channel : ∃ ch ch₁, p.channelState = some ch ∧ GameOp.Steps E ch ch₁ ∧
    p'.channelState = some (ch₁.sent E) ∧ b.signatures = ch₁.signaturesAt E (ch₁.stateNumber + 1)
  messages : p'.incomingMessages = p.incomingMessages
  next : p'.channelSpendNextPhase = p.channelSpendNextPhase
  shutdown : p'.pendingCleanShutdown.isSome = (b.cleanShutdown.isSome || p.pendingCleanShutdown.isSome)

/-- A drain fails and changes nothing but the channel state and the queue, or it has nothing to
send, or it sends one batch. -/
theorem drainQueueIntoBatch_ok {p p' : OffChainPhase} {sent : Bool} {effects : List Effect}
    (h : drainQueueIntoBatch E p = .ok (sent, effects) p') :
    if sent then ∃ b, Sends E p p' b ∧ p'.peerWantsPotato = p.peerWantsPotato ∧
      messagesOf effects = [.batch b] else Asks E p p' [] ∧ messagesOf effects = [] := by
  by_cases hp : p.havePotato = .present
  · rw [drainQueueIntoBatch_eq hp] at h
    obtain ⟨d, p₁, hd, hpackage⟩ := Act.bind_eq_ok.mp h
    have htidy := drainActions_tidy Drain.tidy_empty p.gameActionQueue p p₁ d hd
    have hquiet := quiet_drainActions (E := E) .empty p.gameActionQueue
    have hasks := hquiet.asks p
    rw [after_of_ok hd] at hasks
    by_cases hempty : d.batchActions = [] ∧ d.cleanShutdownData = none
    · rw [packageBatch_nothing hempty] at hpackage
      cases hpackage
      exact ⟨⟨hasks.evolves, hasks.custody, hasks.potato⟩, htidy.messages⟩
    · cases hch₁ : p₁.channelState with
      | none =>
        exfalso
        simp only [packageBatch, bind_apply, modify_apply, if_neg hempty, onChannel, hch₁] at hpackage
        cases hpackage
      | some ch₁ =>
        rw [packageBatch_sent hempty hch₁] at hpackage
        cases hpackage
        obtain ⟨ch, hch, hsteps⟩ : ∃ ch, p.channelState = some ch ∧ GameOp.Steps E ch ch₁ := by
          rcases hasks.evolves with heq | ⟨ch, ch', hch, hch', hsteps⟩
          · exact ⟨ch₁, heq ▸ hch₁, Std.Refl.refl ch₁⟩
          · obtain rfl : ch' = ch₁ := Option.some.inj (hch'.symm.trans hch₁)
            exact ⟨ch, hch, hsteps⟩
        have hcustody := hasks.custody
        simp only [custody, Prod.mk.injEq] at hcustody
        obtain ⟨hwants, hpending, hincoming, hnext⟩ := hcustody
        refine ⟨⟨d.batchActions, ch₁.signaturesAt E (ch₁.stateNumber + 1), d.cleanShutdownData⟩,
          ⟨hp, rfl, ⟨ch, ch₁, hch, hsteps, rfl, rfl⟩, hincoming, hnext, ?_⟩, hwants, ?_⟩
        · have hshutdown := htidy.shutdown
          dsimp only
          rw [← hshutdown, hpending]
          cases d.pendingShutdown with
          | none => rfl
          | some shutdown => rfl
        · rw [messagesOf_append, htidy.messages]
          rfl
  · rw [drainQueueIntoBatch, bind_of_ok (get_apply p), if_pos hp] at h
    cases h

theorem drainQueueIntoBatch_error {p p' : OffChainPhase} {e : Error}
    (h : drainQueueIntoBatch E p = .error e p') : Asks E p p' [] := by
  by_cases hp : p.havePotato = .present
  · rw [drainQueueIntoBatch_eq hp] at h
    have hasks := (quiet_drainActions (E := E) .empty p.gameActionQueue).asks p
    rcases Act.bind_eq_error.mp h with hd | ⟨d, p₁, hd, hpackage⟩
    · rwa [after_of_error hd] at hasks
    · rw [after_of_ok hd] at hasks
      by_cases hempty : d.batchActions = [] ∧ d.cleanShutdownData = none
      · rw [packageBatch_nothing hempty] at hpackage
        cases hpackage
      · cases hch₁ : p₁.channelState with
        | none =>
          simp only [packageBatch, bind_apply, modify_apply, if_neg hempty, onChannel, hch₁] at hpackage
          cases hpackage
          have hevolves := hasks.evolves
          rw [Evolves, hch₁] at hevolves
          exact ⟨hevolves, hasks.custody, hasks.potato⟩
        | some ch₁ =>
          rw [packageBatch_sent hempty hch₁] at hpackage
          cases hpackage
  · rw [drainQueueIntoBatch, bind_of_ok (get_apply p), if_pos hp] at h
    cases h
    exact Asks.refl p

/-- What a step of the local player does: at most it asks for the potato or sends it. -/
inductive LocalStep (E : ChannelEnv) (p p' : OffChainPhase) (messages : List PeerMessage) : Prop where
  | asks (h : Asks E p p' messages)
  | sends (b : PeerBatch) (h : Sends E p p' b) (wants : p'.peerWantsPotato = p.peerWantsPotato)
      (hmessages : messages = [.batch b])

theorem flushPendingActions_ok {p p' : OffChainPhase} {effects : List Effect}
    (h : flushPendingActions E p = .ok effects p') : LocalStep E p p' (messagesOf effects) := by
  rw [flushPendingActions, bind_of_ok (modify_apply _ p), bind_of_ok (get_apply _)] at h
  split at h
  · cases h
    exact .asks ⟨.inl rfl, rfl, .inl ⟨rfl, rfl⟩⟩
  · obtain ⟨⟨sent, effects'⟩, p₁, hdrain, hpure⟩ := Act.bind_eq_ok.mp h
    cases hpure
    have hok := drainQueueIntoBatch_ok hdrain
    cases sent with
    | true =>
      obtain ⟨b, hsends, hwants, hmessages⟩ := hok
      exact .sends b ⟨hsends.present, hsends.absent, hsends.channel, hsends.messages, hsends.next,
        hsends.shutdown⟩ hwants hmessages
    | false =>
      obtain ⟨hasks, hmessages⟩ := hok
      rw [hmessages]
      exact .asks ⟨hasks.evolves, hasks.custody, hasks.potato⟩

theorem flushPendingActions_error {p p' : OffChainPhase} {e : Error}
    (h : flushPendingActions E p = .error e p') : Asks E p p' [] := by
  rw [flushPendingActions, bind_of_ok (modify_apply _ p), bind_of_ok (get_apply _)] at h
  split at h
  · cases h
  · rcases Act.bind_eq_error.mp h with hdrain | ⟨a, p₁, -, hpure⟩
    · have hasks := drainQueueIntoBatch_error hdrain
      exact ⟨hasks.evolves, hasks.custody, hasks.potato⟩
    · cases hpure

theorem runLocal_ok {input : LocalInput} {p p' : OffChainPhase} {effects : List Effect}
    (h : runLocal E input p = .ok effects p') : LocalStep E p p' (messagesOf effects) := by
  by_cases hflush : input = .flush
  · subst hflush
    exact flushPendingActions_ok h
  · exact .asks ((asking_runLocal hflush).ok p p' effects h)

theorem runLocal_error {input : LocalInput} {p p' : OffChainPhase} {e : Error}
    (h : runLocal E input p = .error e p') : Asks E p p' [] := by
  by_cases hflush : input = .flush
  · subst hflush
    exact flushPendingActions_error h
  · exact (asking_runLocal hflush).error p p' e h

/-! A message from the peer. -/

/-- The messages that the potato goes with or is asked for with. -/
def isPotatoMessage : PeerMessage → Bool
  | .batch _ => true
  | .requestPotato => true
  | _ => false

def potatoMessages (messages : List PeerMessage) : List PeerMessage := messages.filter isPotatoMessage

@[simp] theorem potatoMessages_nil : potatoMessages [] = [] := rfl

@[simp] theorem potatoMessages_append (xs ys : List PeerMessage) :
    potatoMessages (xs ++ ys) = potatoMessages xs ++ potatoMessages ys := List.filter_append ..

/-- Effects without the potato. -/
def Potatoless (effects : List Effect) : Prop := potatoMessages (messagesOf effects) = []

theorem Potatoless.append {xs ys : List Effect} (hx : Potatoless xs) (hy : Potatoless ys) :
    Potatoless (xs ++ ys) := by
  rw [Potatoless, messagesOf_append, potatoMessages_append, hx, hy]
  rfl

theorem potatoless_notify (ns : List GameNotification) : Potatoless (ns.map .notify) := by
  rw [Potatoless, messagesOf_notify]
  rfl

/-- An effect that tells the local player of something, and nobody else. -/
def Tells : Effect → Prop
  | .notify _ => True
  | .peerGameMessage _ _ => True
  | _ => False

def Told (effects : List Effect) : Prop := ∀ e ∈ effects, Tells e

theorem told_notify (n : GameNotification) : Told [.notify n] := by
  intro e he
  obtain rfl := List.mem_singleton.mp he
  trivial

theorem Told.append {xs ys : List Effect} (hx : Told xs) (hy : Told ys) : Told (xs ++ ys) :=
  fun e he => (List.mem_append.mp he).elim (hx e) (hy e)

theorem Told.potatoless {effects : List Effect} (h : Told effects) : Potatoless effects := by
  induction effects with
  | nil => rfl
  | cons e effects ih =>
    have hrest := ih fun e' he' => h e' (List.mem_cons_of_mem e he')
    have hfirst : Potatoless [e] := by
      have htells := h e List.mem_cons_self
      cases e with
      | notify n => rfl
      | peerGameMessage gameId data => rfl
      | _ => exact htells.elim
    exact hfirst.append hrest

theorem yields_each {α : Type} {f : α → Act Error OffChainPhase (List Effect)}
    (h : ∀ a, Yields Told (f a)) (as : List α) : Yields Told (each f as) := by
  induction as with
  | nil => exact yields_pure fun _ he => by cases he
  | cons a as ih =>
    intro p p' effects hr
    obtain ⟨xs, p₁, hx, hrest⟩ := Act.bind_eq_ok.mp hr
    obtain ⟨ys, p₂, hy, hpure⟩ := Act.bind_eq_ok.mp hrest
    cases hpure
    exact (h a p p₁ xs hx).append (ih p₁ _ ys hy)

theorem applyBatchAction_told (action : BatchAction) : Yields Told (applyBatchAction E action) := by
  cases action with
  | proposeGroup wire =>
    refine yields_bind _ fun p => yields_bind _ fun _ => yields_bind _ fun p' => ?_
    have hsuperseded : Told ((supersededIds p.gameActionQueue).map fun id =>
        Effect.notify (.proposalCancelled id .supersededByIncoming)) := by
      intro e he
      obtain ⟨id, -, rfl⟩ := List.mem_map.mp he
      trivial
    refine yields_ite (yields_pure hsuperseded) (yields_bind _ fun games => yields_bind _ fun _ => ?_)
    split
    · exact yields_throw _
    · exact yields_pure (hsuperseded.append (told_notify _))
  | acceptProposal gameId =>
    refine yields_bind _ fun ch => ?_
    split
    · exact yields_throw _
    · exact yields_bind _ fun _ => yields_pure (told_notify _)
  | cancelProposal gameId => exact yields_bind _ fun _ => yields_pure (told_notify _)
  | move gameId gameMove =>
    refine yields_bind _ fun result => yields_bind _ fun ch => yields_bind _ fun finished => ?_
    have hmessage : Told (if result.message ≠ [] then [.peerGameMessage gameId result.message]
        else []) := by
      intro e he
      split at he
      · obtain rfl := List.mem_singleton.mp he
        trivial
      · cases he
    have hmove := (told_notify (.gameStatus gameId true result.readableTheirMove
      (some result.moverShare) finished)).append hmessage
    exact yields_ite (yields_bind _ fun _ => yields_pure hmove) (yields_pure hmove)
  | acceptSettlement gameId amount => exact yields_bind _ fun _ => yields_pure (told_notify _)

theorem applyActions_told (actions : List BatchAction) : Yields Told (applyActions E actions) := by
  refine yields_bind _ fun ch => yields_bind _ fun _ => yields_bind _ fun _ => ?_
  intro p p' effects hr
  obtain ⟨xs, p₁, hx, hrest⟩ := Act.bind_eq_ok.mp hr
  have htold := yields_each applyBatchAction_told actions p p₁ xs hx
  split at hrest
  · cases hrest
    exact htold
  · cases hrest
    exact htold

theorem applyActions_potatoless (actions : List BatchAction) :
    Yields Potatoless (applyActions E actions) :=
  fun p p' effects hr => (applyActions_told actions p p' effects hr).potatoless

theorem quiet_applyActions (actions : List BatchAction) : Quiet E (applyActions E actions) :=
  ⟨moves_applyActions actions, (keeps_applyActions actions).mono fun _ _ => watch_of_shell⟩

/-- The potato comes with a batch. -/
structure Receives (E : ChannelEnv) (p p' : OffChainPhase) (b : PeerBatch) : Prop where
  missing : p.havePotato ≠ .present
  present : p'.havePotato = .present
  channel : ∃ ch ch₁ ch₂, p.channelState = some ch ∧ GameOp.Steps E ch ch₁ ∧
    ch₁.Verifies E (ch₁.stateNumber + 1) b.signatures ∧
      GameOp.Steps E (ch₁.received E b.signatures) ch₂ ∧ p'.channelState = some ch₂
  custody : p'.custody = p.custody

/-- What the receipt of a message does, as long as it neither fails nor ends the phase. -/
inductive Reception (E : ChannelEnv) (p p' : OffChainPhase) (messages : List PeerMessage) :
    PeerMessage → Prop where
  | quiet (msg : PeerMessage) (hbatch : ∀ b, msg ≠ .batch b) (hrequest : msg ≠ .requestPotato)
      (h : Asks E p p' []) (hmessages : potatoMessages messages = []) : Reception E p p' messages msg
  | ignored (h : p.pendingCleanShutdown.isSome) (hp : p' = p) (hmessages : messages = []) :
      Reception E p p' messages .requestPotato
  | noted (hmissing : p.havePotato ≠ .present) (hp : p' = { p with peerWantsPotato := true })
      (hmessages : messages = []) : Reception E p p' messages .requestPotato
  | passed (b : PeerBatch) (h : Sends E p p' b) (hwants : p'.peerWantsPotato = false)
      (hmessages : messages = [.batch b]) : Reception E p p' messages .requestPotato
  | kept (b : PeerBatch) (h : Receives E p p' b) (hmessages : potatoMessages messages = []) :
      Reception E p p' messages (.batch b)
  | returned (b b' : PeerBatch) (p₁ : OffChainPhase) (h : Receives E p p₁ b) (h' : Sends E p₁ p' b')
      (hmessages : potatoMessages messages = [.batch b']) : Reception E p p' messages (.batch b)

theorem Reception.incoming {p p' : OffChainPhase} {messages : List PeerMessage} {msg : PeerMessage}
    (h : Reception E p p' messages msg) : p'.incomingMessages = p.incomingMessages := by
  have hunread : ∀ {p p' : OffChainPhase}, p'.custody = p.custody →
      p'.incomingMessages = p.incomingMessages := fun h => (congrArg (fun c => c.2.2.1) h :)
  cases h with
  | quiet _ _ _ hasks _ => exact hunread hasks.custody
  | ignored _ hp _ => rw [hp]
  | noted _ hp _ => rw [hp]
  | passed b hsends _ _ => exact hsends.messages
  | kept b hreceives _ => exact hunread hreceives.custody
  | returned b b' p₁ hreceives hsends _ => exact hsends.messages.trans (hunread hreceives.custody)

theorem passPotato_sends {p : OffChainPhase} {ch : ChannelState} (hp : p.havePotato = .present)
    (hch : p.channelState = some ch) :
    Sends E p { p with channelState := some (ch.sent E), havePotato := .absent }
      ⟨[], ch.signaturesAt E (ch.stateNumber + 1), none⟩ :=
  ⟨hp, rfl, ⟨ch, ch, hch, Std.Refl.refl ch, rfl, rfl⟩, rfl, rfl, by simp⟩

theorem Receives.asks {p p₁ p₂ : OffChainPhase} {b : PeerBatch} (h : Receives E p p₁ b)
    (h' : Asks E p₁ p₂ []) : Receives E p p₂ b := by
  have hpotato : p₂.havePotato = p₁.havePotato := by
    rcases h'.potato with ⟨heq, -⟩ | ⟨-, -, hmessages⟩
    · exact heq
    · cases hmessages
  refine ⟨h.missing, hpotato.trans h.present, ?_, h'.custody.trans h.custody⟩
  obtain ⟨ch, ch₁, ch₂, hch, hsteps, hverifies, hsteps', hch₂⟩ := h.channel
  rcases h'.evolves with heq | ⟨ch₂', ch₃, hch₂', hch₃, hsteps''⟩
  · exact ⟨ch, ch₁, ch₂, hch, hsteps, hverifies, hsteps', heq.trans hch₂⟩
  · obtain rfl : ch₂ = ch₂' := Option.some.inj (hch₂.symm.trans hch₂')
    exact ⟨ch, ch₁, ch₃, hch, hsteps, hverifies, IsTrans.trans _ _ _ hsteps' hsteps'', hch₃⟩

theorem drainAfterReceive_ok {p p' : OffChainPhase} {drained : Option (Bool × List Effect)}
    {failed : List Effect} (h : drainAfterReceive E p = .ok (drained, failed) p') :
    (∃ effects b, drained = some (true, effects) ∧ Sends E p p' b ∧
        p'.peerWantsPotato = p.peerWantsPotato ∧ messagesOf effects = [.batch b]) ∨
      Asks E p p' [] ∧ messagesOf failed = [] ∧ ∀ sent effects, drained = some (sent, effects) →
        sent = false ∧ messagesOf effects = [] := by
  rw [drainAfterReceive] at h
  cases hr : drainQueueIntoBatch E p with
  | ok result p₁ =>
    obtain ⟨sent, effects⟩ := result
    have hok := drainQueueIntoBatch_ok hr
    rw [hr] at h
    cases h
    cases sent with
    | true =>
      obtain ⟨b, hsends, hwants, hmessages⟩ := hok
      exact .inl ⟨effects, b, rfl, hsends, hwants, hmessages⟩
    | false =>
      obtain ⟨hasks, hmessages⟩ := hok
      refine .inr ⟨hasks, rfl, ?_⟩
      intro sent' effects' heq
      obtain ⟨rfl, rfl⟩ := Prod.mk.inj (Option.some.inj heq)
      exact ⟨rfl, hmessages⟩
  | error e p₁ =>
    have hasks := drainQueueIntoBatch_error hr
    simp only [hr] at h
    split at h
    · cases h
      exact .inr ⟨⟨hasks.evolves, hasks.custody, hasks.potato⟩, rfl, fun _ _ heq => by cases heq⟩
    · cases h

/-- The end of a receipt: the potato stays or goes back. -/
theorem passBack_ok {p₁ p₃ p' : OffChainPhase} {sendBack : Bool} {ns : List GameNotification}
    {r : Option (Bool × List Effect) × List Effect} {effects : List Effect}
    (hp₁ : p₁.havePotato = .present) (hsome : p₁.channelState.isSome)
    (hdrain : drainAfterReceive E p₁ = .ok r p₃)
    (h : passBack E sendBack (ns.map .notify) r p₃ = .ok effects p') :
    Asks E p₁ p' [] ∧ messagesOf effects = [] ∨
      ∃ b p₂, Asks E p₁ p₂ [] ∧ Sends E p₂ p' b ∧ messagesOf effects = [.batch b] := by
  obtain ⟨drained, failed⟩ := r
  rcases drainAfterReceive_ok hdrain with
    ⟨batchEffects, b, rfl, hsends, -, hmessages⟩ | ⟨hasks, hfailed, hnothing⟩
  · cases h
    exact .inr ⟨b, p₁, Asks.refl p₁, hsends, by simp [hmessages]⟩
  have hp₃ : p₃.havePotato = .present := by
    rcases hasks.potato with ⟨heq, -⟩ | ⟨-, -, hmessages⟩
    · exact heq.trans hp₁
    · cases hmessages
  cases drained with
  | none =>
    cases h
    exact .inl ⟨hasks, by simp [hfailed]⟩
  | some result =>
    obtain ⟨sent, batchEffects⟩ := result
    obtain ⟨rfl, hmessages⟩ := hnothing sent batchEffects rfl
    obtain ⟨ch, hch⟩ : ∃ ch, p₃.channelState = some ch := by
      rw [← Option.isSome_iff_exists, drainAfterReceive_isSome hdrain]
      exact hsome
    have hsends := passPotato_sends (E := E) hp₃ hch
    rw [passBack, if_neg (by simp), bind_of_ok (get_apply p₃)] at h
    split at h
    · rw [bind_of_ok (modify_apply _ _),
        bind_of_ok (passPotato_of_some (p := { p₃ with peerWantsPotato := false }) hch)] at h
      cases h
      refine .inr ⟨_, p₃, hasks, ⟨hp₃, rfl, hsends.channel, rfl, rfl, hsends.shutdown⟩, ?_⟩
      simp [hmessages]
      rfl
    split at h
    · rw [bind_of_ok (passPotato_of_some hch)] at h
      cases h
      refine .inr ⟨_, p₃, hasks, hsends, ?_⟩
      simp [hmessages]
      rfl
    · cases h
      exact .inl ⟨hasks, by simp [hmessages]⟩

theorem processReceivedBatch_ok {p p' : OffChainPhase} {b : PeerBatch} {effects : List Effect}
    (hb : b.cleanShutdown = none) (hp : p.havePotato ≠ .present)
    (h : processReceivedBatch E b p = .ok effects p') :
    Reception E p p' (messagesOf effects) (.batch b) := by
  obtain ⟨applied, p₁, happlied, hrest⟩ := Act.bind_eq_ok.mp h
  rw [hb] at hrest
  obtain ⟨spend, p₂, hverify, hafter⟩ := Act.bind_eq_ok.mp hrest
  obtain ⟨ch₁, ch₁', hch₁, hverified, rfl⟩ := onChannel_eq_ok_iff.mp hverify
  obtain ⟨hverifies, rfl, rfl⟩ := (ch₁.verifyReceivedBatchSignatures_eq_ok_iff E).mp hverified
  obtain ⟨after, p₃, hupdate, hpure⟩ := Act.bind_eq_ok.mp hafter
  cases hpure
  obtain ⟨ns, heq⟩ := updateChannelCoinAfterReceive_eq (E := E)
    (p := { p₁ with channelState := some (ch₁.received E b.signatures) }) rfl
    (ch₁.publishAt E (ch₁.stateNumber + 1) b.signatures) (b.actions.any isAcceptSettlement)
  rw [heq] at hupdate
  obtain ⟨r, p₄, hdrain, hback⟩ := Act.bind_eq_ok.mp hupdate
  have hless := applyActions_potatoless b.actions p p₁ applied happlied
  have hquiet := (quiet_applyActions (E := E) b.actions).asks p
  rw [after_of_ok happlied] at hquiet
  have hreceives : Receives E p (aboutToDrain (ch₁.publishAt E (ch₁.stateNumber + 1) b.signatures)
      (b.actions.any isAcceptSettlement) (ch₁.received E b.signatures)
      { p₁ with channelState := some (ch₁.received E b.signatures) }) b := by
    refine ⟨hp, rfl, ?_, hquiet.custody⟩
    have hsettled : GameOp.Steps E (ch₁.received E b.signatures)
        (settledState (ch₁.received E b.signatures)) :=
      GameOp.Steps.single _ .drainCachedAcceptSettlements
    rcases hquiet.evolves with heq | ⟨ch, ch', hch, hch', hsteps⟩
    · exact ⟨ch₁, ch₁, _, heq ▸ hch₁, Std.Refl.refl ch₁, hverifies, hsettled, rfl⟩
    · obtain rfl : ch' = ch₁ := Option.some.inj (hch'.symm.trans hch₁)
      exact ⟨ch, ch', _, hch, hsteps, hverifies, hsettled, rfl⟩
  rcases passBack_ok rfl rfl hdrain hback with ⟨hasks, hmessages⟩ | ⟨b', p₅, hasks, hsends, hmessages⟩
  · refine .kept b (hreceives.asks hasks) ?_
    rw [messagesOf_append, potatoMessages_append, hless, hmessages]
    rfl
  · refine .returned b b' p₅ (hreceives.asks hasks) hsends ?_
    rw [messagesOf_append, potatoMessages_append, hless, hmessages]
    rfl

theorem receiveCleanShutdown_ok {p p' : OffChainPhase} {sig : Aggsig} {conditions : Clvm}
    {effects : List Effect} (h : receiveCleanShutdown E sig conditions p = .ok effects p') :
    p'.channelSpendNextPhase.isSome := by
  obtain ⟨ch, p₁, -, h⟩ := Act.bind_eq_ok.mp h
  split at h
  · cases h
  obtain ⟨cancelled, p₂, -, h⟩ := Act.bind_eq_ok.mp h
  obtain ⟨ch', p₃, -, h⟩ := Act.bind_eq_ok.mp h
  obtain ⟨-, p₄, -, h⟩ := Act.bind_eq_ok.mp h
  obtain ⟨spend, p₅, -, h⟩ := Act.bind_eq_ok.mp h
  obtain ⟨settled, p₆, -, h⟩ := Act.bind_eq_ok.mp h
  obtain ⟨p₇, p₈, -, h⟩ := Act.bind_eq_ok.mp h
  cases h
  rfl

section Messages

variable (p : OffChainPhase)

theorem processMessage_handshakeF : processMessage E .handshakeF p =
    if p.pendingCleanShutdown.isSome then .error (.strErr "expected CleanShutdownComplete" []) p
    else .ok [] p := by
  unfold processMessage
  rw [bind_of_ok (get_apply p)]
  split
  · rfl
  · rfl

theorem processMessage_handshake : processMessage E .handshake p =
    if p.pendingCleanShutdown.isSome then .error (.strErr "expected CleanShutdownComplete" []) p
    else .error (.strErr "unhandled passthrough message" []) p := by
  unfold processMessage
  rw [bind_of_ok (get_apply p)]
  split
  · rfl
  · rfl

theorem processMessage_cleanShutdownComplete (coinSpend : CoinSpend) :
    processMessage E (.cleanShutdownComplete coinSpend) p =
      passOnCleanShutdownComplete coinSpend p := by
  unfold processMessage
  rw [bind_of_ok (get_apply p)]
  split
  · rfl
  · rfl

theorem processMessage_requestPotato : processMessage E .requestPotato p =
    if p.pendingCleanShutdown.isSome then .ok [] p
    else if p.havePotato = .present then (do
        let passed ← passPotato E
        modify fun p => { p with peerWantsPotato := false }
        pure passed : Act Error OffChainPhase (List Effect)) { p with peerWantsPotato := true }
      else .ok [] { p with peerWantsPotato := true } := by
  unfold processMessage
  rw [bind_of_ok (get_apply p)]
  split
  · rfl
  · dsimp only
    rw [bind_of_ok (modify_apply _ _)]
    split
    · rfl
    · rfl

theorem processMessage_message (gameId : GameID) (data : Bytes) :
    processMessage E (.message gameId data) p =
      if p.pendingCleanShutdown.isSome then .error (.strErr "expected CleanShutdownComplete" []) p
      else passOnMessage E gameId data p := by
  unfold processMessage
  rw [bind_of_ok (get_apply p)]
  split
  · rfl
  · rfl

end Messages

/-- A batch that is accepted is applied, and does not shut the channel down if the phase goes on. -/
theorem processMessage_batch_ok {b : PeerBatch} {p p' : OffChainPhase} {effects : List Effect}
    (h : processMessage E (.batch b) p = .ok effects p') (hnext : p'.channelSpendNextPhase = none) :
    b.cleanShutdown = none ∧ p.havePotato ≠ .present ∧ processReceivedBatch E b p = .ok effects p' := by
  rw [processMessage_batch] at h
  split at h
  · cases h
  split at h
  · cases h
  rename_i hpending hp
  rw [passOnBatch] at h
  cases hr : processReceivedBatch E b p with
  | error e p₁ =>
    rw [hr] at h
    cases h
  | ok effects₁ p₁ =>
    rw [hr] at h
    cases h
    cases hb : b.cleanShutdown with
    | none => exact ⟨rfl, hp, rfl⟩
    | some shutdown =>
      exfalso
      obtain ⟨applied, p₂, -, hrest⟩ := Act.bind_eq_ok.mp hr
      rw [hb] at hrest
      obtain ⟨after, p₃, hshutdown, hpure⟩ := Act.bind_eq_ok.mp hrest
      cases hpure
      have hsome := receiveCleanShutdown_ok hshutdown
      rw [hnext] at hsome
      cases hsome

/-- Everything a message that is accepted can do. -/
theorem processMessage_ok {msg : PeerMessage} {p p' : OffChainPhase} {effects : List Effect}
    (h : processMessage E msg p = .ok effects p') (hnext : p'.channelSpendNextPhase = none) :
    Reception E p p' (messagesOf effects) msg := by
  cases msg with
  | batch b =>
    obtain ⟨hb, hp, hr⟩ := processMessage_batch_ok h hnext
    exact processReceivedBatch_ok hb hp hr
  | handshakeF =>
    rw [processMessage_handshakeF] at h
    split at h
    · cases h
    · cases h
      exact .quiet _ (fun b heq => by cases heq) (fun heq => by cases heq) (Asks.refl p) rfl
  | handshake =>
    rw [processMessage_handshake] at h
    split at h
    · cases h
    · cases h
  | cleanShutdownComplete coinSpend =>
    rw [processMessage_cleanShutdownComplete, passOnCleanShutdownComplete,
      bind_of_ok (get_apply p)] at h
    cases hpending : p.pendingCleanShutdown with
    | some pending =>
      simp only [hpending, bind_of_ok (set_apply _ _)] at h
      split at h
      · cases h
        cases hnext
      · cases h
        cases hnext
    | none =>
      simp only [hpending] at h
      split at h
      · cases h
        exact .quiet _ (fun b heq => by cases heq) (fun heq => by cases heq) (Asks.refl p) rfl
      · cases h
        exact .quiet _ (fun b heq => by cases heq) (fun heq => by cases heq) (Asks.refl p) rfl
  | requestPotato =>
    rw [processMessage_requestPotato] at h
    split at h
    · rename_i hpending
      cases h
      exact .ignored hpending rfl rfl
    split at h
    · rename_i hp
      obtain ⟨passed, p₁, hpass, hrest⟩ := Act.bind_eq_ok.mp h
      cases hch : p.channelState with
      | none =>
        rw [passPotato, bind_apply, onChannel] at hpass
        simp only [hch] at hpass
        cases hpass
      | some ch =>
        have hsends := passPotato_sends (E := E) hp hch
        rw [passPotato_of_some (p := { p with peerWantsPotato := true }) hch] at hpass
        cases hpass
        cases hrest
        exact .passed _ ⟨hp, rfl, hsends.channel, rfl, rfl, hsends.shutdown⟩ rfl rfl
    · rename_i hp
      cases h
      exact .noted hp rfl rfl
  | message gameId data =>
    rw [processMessage_message] at h
    split at h
    · cases h
    obtain ⟨decoded, p₁, hdecoded, hrest⟩ := Act.bind_eq_ok.mp h
    obtain ⟨ch, p₂, hchannel, hrest⟩ := Act.bind_eq_ok.mp hrest
    have hquiet : Quiet E (onChannel (ChannelState.receivedMessage E gameId data)) := by
      refine ⟨moves_onChannel ?_, keeps_watch_onChannel _⟩
      exact moves_get.bind fun _ => (moves_lift _).bind fun _ => moves_lift _
    have hasks := (hquiet.bind fun _ => quiet_channel).asks p
    rw [after_of_ok (Act.bind_eq_ok.mpr ⟨decoded, p₁, hdecoded, hchannel⟩)] at hasks
    cases hturn : ch.gameIsMyTurn gameId with
    | some myTurn =>
      rw [hturn] at hrest
      cases hrest
      exact .quiet _ (fun b heq => by cases heq) (fun heq => by cases heq) hasks rfl
    | none =>
      rw [hturn] at hrest
      cases hrest

end OffChainPhase

end ChiaGaming
