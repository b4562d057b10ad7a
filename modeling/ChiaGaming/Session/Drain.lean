import ChiaGaming.Channel.History
import ChiaGaming.Session.Receive

namespace ChiaGaming

namespace OffChainPhase

open Act

variable {E : ChannelEnv}

/-- The phase without its channel state, and whether it has one. -/
def apart (p : OffChainPhase) : OffChainPhase × Bool :=
  ({ p with channelState := none }, p.channelState.isSome)

theorem keeps_channel {γ : Type} {f : OffChainPhase → γ} : Keeps f channel :=
  keeps_get.bind fun _ => keeps_lift _

theorem after_onChannel {α : Type} (x : Act Error ChannelState α) (p : OffChainPhase) :
    (onChannel x).after p = { p with channelState := p.channelState.map x.after } := by
  have hmap : ∀ ch, p.channelState = some ch →
      (onChannel x).after p = { p with channelState := some (x.after ch) } := by
    intro ch hch
    simp only [after, onChannel, hch]
    cases x ch <;> rfl
  cases hch : p.channelState with
  | some ch => exact hmap ch hch
  | none =>
    simp only [after, onChannel, hch]
    rw [Option.map_none, ← hch]

theorem keeps_onChannel {α : Type} (x : Act Error ChannelState α) :
    Keeps apart (onChannel x) := by
  intro p
  rw [after_onChannel]
  simp [apart]

section Frame

theorem keeps_drainMove (d : Drain) (gameId : GameID) (readableMove : Clvm) (newEntropy : Hash) :
    Keeps apart (drainMove E d gameId readableMove newEntropy) := by
  refine keeps_channel.bind fun ch => keeps_ite (keeps_pure _) ?_
  intro p
  have h := keeps_onChannel (ChannelState.sendMoveNoFinalize E gameId readableMove newEntropy) p
  -- a rejection is turned into a success, the state stays
  simp only [after] at h ⊢
  split at h
  · rename_i hr
    simpa only [hr] using h
  · rename_i e p' hr
    simp only [hr]
    cases e <;> exact h

theorem keeps_drainCheat (d : Drain) (gameId : GameID) (moverShare : ℕ) (entropy : Hash) :
    Keeps apart (drainCheat E d gameId moverShare entropy) :=
  keeps_channel.bind fun _ => keeps_ite (keeps_pure _)
    ((keeps_onChannel _).bind fun _ => (keeps_onChannel _).bind fun _ => keeps_pure _)

theorem keeps_drainProposalGroup (d : Drain) (myGames : List GameStartInfo)
    (theirWire : WireProposalGroup) : Keeps apart (drainProposalGroup E d myGames theirWire) := by
  intro p
  have h := keeps_onChannel (each (fun game => do
    ChannelState.sendProposeGame E game theirWire.groupId
    pure ([] : List Unit)) myGames) p
  simp only [after, drainProposalGroup] at h ⊢
  split at h
  · rename_i hr
    simpa only [hr] using h
  · rename_i hr
    simp only [hr]
    simpa [apart] using (Prod.mk.inj h).1

theorem keeps_drainAcceptProposal (d : Drain) (gameId : GameID) :
    Keeps apart (drainAcceptProposal d gameId) := by
  refine keeps_channel.bind fun ch => ?_
  split
  · exact keeps_throw _
  · refine keeps_ite (keeps_throw _) (keeps_ite ?_ ?_)
    · exact (keeps_onChannel _).bind fun _ => keeps_pure _
    · exact (keeps_onChannel _).bind fun _ => keeps_pure _

theorem keeps_drainCancelProposal (text : String) (d : Drain) (gameId : GameID)
    (notifications : List GameNotification) :
    Keeps apart (drainCancelProposal text d gameId notifications) :=
  keeps_channel.bind fun _ => keeps_ite (keeps_throw _)
    ((keeps_onChannel _).bind fun _ => keeps_pure _)

theorem keeps_drainCleanShutdown (d : Drain) : Keeps apart (drainCleanShutdown E d) :=
  keeps_channel.bind fun _ => keeps_ite (keeps_throw _)
    ((keeps_onChannel _).bind fun _ => keeps_channel.bind fun _ =>
      (keeps_lift _).bind fun _ => keeps_pure _)

/-- An action of the queue works on the channel state alone. -/
theorem keeps_drainAction (d : Drain) (action : GameAction) : Keeps apart (drainAction E d action) := by
  cases action with
  | move gameId readableMove newEntropy => exact keeps_drainMove d gameId readableMove newEntropy
  | acceptSettlement gameId => exact (keeps_onChannel _).bind fun _ => keeps_pure _
  | cleanShutdown => exact keeps_drainCleanShutdown d
  | sendPotato => exact keeps_throw _
  | queuedProposalGroup myGames theirWire => exact keeps_drainProposalGroup d myGames theirWire
  | queuedAcceptProposal gameId => exact keeps_drainAcceptProposal d gameId
  | queuedCancelProposal gameId => exact keeps_drainCancelProposal _ d gameId _
  | queuedCancelProposalSilently gameId => exact keeps_drainCancelProposal _ d gameId _
  | cheat gameId moverShare entropy => exact keeps_drainCheat d gameId moverShare entropy

end Frame

/-- An action of the queue needs the channel state. -/
theorem drainAction_of_none {d : Drain} {action : GameAction} {p : OffChainPhase}
    (h : p.channelState = none) : ∃ e, drainAction E d action p = .error e p := by
  have hchannel : channel p = .error (.strErr "no channel handler" []) p := by
    simp [channel, bind_apply, h, orError]
  have hon : ∀ {α : Type} (x : Act Error ChannelState α),
      onChannel x p = .error (.strErr "no channel handler" []) p := by
    intro α x
    simp [onChannel, h]
  cases action with
  | move gameId readableMove newEntropy => simp [drainAction, drainMove, bind_apply, hchannel]
  | acceptSettlement gameId => simp [drainAction, bind_apply, hon]
  | cleanShutdown => simp [drainAction, drainCleanShutdown, bind_apply, hchannel]
  | sendPotato => exact ⟨_, rfl⟩
  | queuedProposalGroup myGames theirWire => simp [drainAction, drainProposalGroup, hon]
  | queuedAcceptProposal gameId => simp [drainAction, drainAcceptProposal, bind_apply, hchannel]
  | queuedCancelProposal gameId => simp [drainAction, drainCancelProposal, bind_apply, hchannel]
  | queuedCancelProposalSilently gameId =>
    simp [drainAction, drainCancelProposal, bind_apply, hchannel]
  | cheat gameId moverShare entropy => simp [drainAction, drainCheat, bind_apply, hchannel]

/-- The state in which a popped action runs. -/
def popped (action : GameAction) (rest : List GameAction) (p : OffChainPhase) : OffChainPhase :=
  { p with gameActionQueue := rest, lastFailedQueuedAction := failedAction action }

theorem drainActions_cons (d : Drain) (action : GameAction) (rest : List GameAction)
    (p : OffChainPhase) : drainActions E d (action :: rest) p =
      (drainAction E d action >>= fun d => drainActions E d rest) (popped action rest p) := rfl

theorem drainAction_gameActionQueue (d : Drain) (action : GameAction) (p : OffChainPhase) :
    ((drainAction E d action).after p).gameActionQueue = p.gameActionQueue :=
  congrArg (fun x : OffChainPhase × Bool => x.1.gameActionQueue) (keeps_drainAction d action p)

theorem drainAction_isSome (d : Drain) (action : GameAction) (p : OffChainPhase) :
    ((drainAction E d action).after p).channelState.isSome = p.channelState.isSome :=
  congrArg Prod.snd (keeps_drainAction d action p)

/-- An error leaves less of the queue than there was. -/
theorem drainActions_error_length {queue : List GameAction} {d : Drain} {p p' : OffChainPhase}
    {e : Error} (h : drainActions E d queue p = .error e p') :
    p'.gameActionQueue.length < queue.length := by
  induction queue generalizing d p with
  | nil => cases h
  | cons action rest ih =>
    rw [drainActions_cons] at h
    cases hr : drainAction E d action (popped action rest p) with
    | ok d₁ p₁ =>
      rw [bind_of_ok hr] at h
      have hlt := ih h
      rw [List.length_cons]
      omega
    | error e₁ p₁ =>
      rw [bind_of_error hr] at h
      obtain ⟨rfl, rfl⟩ : e₁ = e ∧ p₁ = p' := by simpa using h
      have hqueue := drainAction_gameActionQueue d action (popped action rest p) (E := E)
      rw [after_of_error hr] at hqueue
      simp [hqueue, popped]

theorem drainActions_isSome {queue : List GameAction} {d d' : Drain} {p p' : OffChainPhase}
    (h : drainActions E d queue p = .ok d' p') :
    p'.channelState.isSome = p.channelState.isSome := by
  induction queue generalizing d p with
  | nil =>
    obtain ⟨-, rfl⟩ : d = d' ∧ p = p' := by simpa [drainActions] using h
    rfl
  | cons action rest ih =>
    rw [drainActions_cons] at h
    cases hr : drainAction E d action (popped action rest p) with
    | ok d₁ p₁ =>
      rw [bind_of_ok hr] at h
      have hsome := drainAction_isSome d action (popped action rest p) (E := E)
      rw [after_of_ok hr] at hsome
      rw [ih h, hsome]
      rfl
    | error e₁ p₁ =>
      rw [bind_of_error hr] at h
      cases h

theorem packageBatch_nothing {d : Drain} (h : d.batchActions = [] ∧ d.cleanShutdownData = none)
    (p : OffChainPhase) : packageBatch E d p = .ok (false, d.effects)
      { p with gameActionQueue := d.deferred, lastFailedQueuedAction := none } := by
  rw [packageBatch]
  simp only [bind_apply, modify_apply, if_pos h, pure_apply]

theorem packageBatch_sent {d : Drain} (h : ¬ (d.batchActions = [] ∧ d.cleanShutdownData = none))
    {p : OffChainPhase} {ch : ChannelState} (hch : p.channelState = some ch) :
    packageBatch E d p = .ok (true, d.effects ++
        [.peerBatch ⟨d.batchActions, ch.signaturesAt E (ch.stateNumber + 1), d.cleanShutdownData⟩])
      { p with
        gameActionQueue := d.deferred
        channelState := some (ch.sent E)
        havePotato := .absent
        pendingCleanShutdown := d.pendingShutdown.orElse fun _ => p.pendingCleanShutdown
        lastFailedQueuedAction := none } := by
  rw [packageBatch]
  simp only [bind_apply, modify_apply, if_neg h, onChannel, hch,
    ChannelState.updateCachedUnrollState_eq, pure_apply]

theorem packageBatch_of_some (d : Drain) {p : OffChainPhase} (h : p.channelState.isSome) :
    ∃ result p', packageBatch E d p = .ok result p' := by
  obtain ⟨ch, hch⟩ := Option.isSome_iff_exists.mp h
  by_cases hempty : d.batchActions = [] ∧ d.cleanShutdownData = none
  · exact ⟨_, _, packageBatch_nothing hempty p⟩
  · exact ⟨_, _, packageBatch_sent hempty hch⟩

/-- A failed drain leaves the channel state and all but the failing action. -/
def DrainAtomic (E : ChannelEnv) (p : OffChainPhase) : Prop :=
  ∀ e p', drainQueueIntoBatch E p = .error e p' →
    p'.channelState = p.channelState ∧ ∃ i < p.gameActionQueue.length,
      (p.gameActionQueue.eraseIdx i).Subperm p'.gameActionQueue

/-- Only the first action of the queue fails, if any, and it has not touched the channel state. -/
def FailsAtHeadOnly (E : ChannelEnv) (p : OffChainPhase) : Prop :=
  ∀ action rest, p.gameActionQueue = action :: rest →
    match drainAction E .empty action (popped action rest p) with
    | .error _ p₁ => p₁.channelState = p.channelState
    | .ok d p₁ => ∀ e p₂, drainActions E d rest p₁ ≠ .error e p₂

theorem drainQueueIntoBatch_eq {p : OffChainPhase} (hp : p.havePotato = .present) :
    drainQueueIntoBatch E p = (drainActions E .empty p.gameActionQueue >>= packageBatch E) p := by
  rw [drainQueueIntoBatch]
  simp only [bind_apply, get_apply, hp, ne_eq, not_true_eq_false, if_false]

end OffChainPhase

/-! A channel in which the steady game is on our turn. -/

namespace Steady

def game : LiveGame where
  gameId := 1
  lastRefereePuzzleHash := (Referee.myTurn referee).outcomeRefereePuzzleHash env
  refereeMaker := .myTurn referee
  myContribution := 1
  theirContribution := 1

def channel : ChannelState :=
  { ChannelState.opened channelEnv setup with
    liveGames := [game]
    myOutOfGameBalance := 9
    theirOutOfGameBalance := 9
    myAllocatedBalance := 1
    theirAllocatedBalance := 1 }

/-- The potato is here, and the queue is waiting. -/
def phase (queue : List GameAction) : OffChainPhase where
  initiator := false
  havePotato := .present
  gameActionQueue := queue
  lastFailedQueuedAction := none
  channelState := some channel
  gameTypes := []
  incomingMessages := []
  peerWantsPotato := false
  lastChannelCoinSpendInfo := none
  pendingCleanShutdown := none
  channelSpendNextPhase := none

end Steady

end ChiaGaming
