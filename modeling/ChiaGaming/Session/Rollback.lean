import ChiaGaming.Session.Drain

namespace ChiaGaming

namespace OffChainPhase

open Act

variable {E : ChannelEnv}

/-! What a batch that fails leaves behind. -/

/-- The phase without its channel state and its queue. -/
def shell (p : OffChainPhase) : OffChainPhase :=
  { p with channelState := none, gameActionQueue := [], lastFailedQueuedAction := none }

theorem keeps_shell_onChannel {α : Type} (x : Act Error ChannelState α) :
    Keeps shell (onChannel x) := by
  intro p
  rw [after_onChannel]
  rfl

theorem keeps_pushAction (action : GameAction) : Keeps shell (pushAction action) := fun _ => rfl

theorem keeps_hydrateWireProposalGroup (wire : WireProposalGroup) :
    Keeps shell (hydrateWireProposalGroup E wire) := by
  refine Keeps.bind ?_ fun games => (keeps_lift _).bind fun ids =>
    keeps_ite (keeps_throw _) (keeps_pure _)
  refine keeps_get.bind fun p => ?_
  split
  · exact keeps_throw _
  · exact keeps_throw _
  · exact keeps_lift _

theorem keeps_applyProposeGroup (wire : WireProposalGroup) :
    Keeps shell (applyProposeGroup E wire) := by
  refine keeps_get.bind fun p => Keeps.bind (fun _ => rfl) fun _ => keeps_get.bind fun p' =>
    keeps_ite (keeps_pure _) ((keeps_hydrateWireProposalGroup wire).bind fun games =>
      (keeps_shell_onChannel _).bind fun _ => ?_)
  split
  · exact keeps_throw _
  · exact keeps_pure _

theorem keeps_applyMove (gameId : GameID) (gameMove : GameMoveDetails) :
    Keeps shell (applyMove E gameId gameMove) := by
  refine (keeps_shell_onChannel _).bind fun result => keeps_channel.bind fun ch =>
    (keeps_lift _).bind fun finished => ?_
  exact keeps_ite ((keeps_pushAction _).bind fun _ => keeps_pure _) (keeps_pure _)

theorem keeps_applyBatchAction (action : BatchAction) :
    Keeps shell (applyBatchAction E action) := by
  cases action with
  | proposeGroup wire => exact keeps_applyProposeGroup wire
  | acceptProposal gameId =>
    refine keeps_channel.bind fun ch => ?_
    split
    · exact keeps_throw _
    · exact (keeps_shell_onChannel _).bind fun _ => keeps_pure _
  | cancelProposal gameId => exact (keeps_shell_onChannel _).bind fun _ => keeps_pure _
  | move gameId gameMove => exact keeps_applyMove gameId gameMove
  | acceptSettlement gameId amount => exact (keeps_shell_onChannel _).bind fun _ => keeps_pure _

theorem keeps_applyActions (actions : List BatchAction) : Keeps shell (applyActions E actions) := by
  refine keeps_channel.bind fun ch => (keeps_lift _).bind fun _ => (keeps_lift _).bind fun _ =>
    (keeps_each keeps_applyBatchAction actions).bind fun effects => ?_
  refine keeps_ite (Keeps.bind ?_ fun _ => keeps_pure _) (keeps_pure _)
  exact fun _ => rfl

theorem keeps_notifySettlements : Keeps shell notifySettlements :=
  (keeps_shell_onChannel _).bind fun _ => keeps_pure _

/-- A shutdown fails before the phase hands anything over. -/
theorem receiveCleanShutdown_keepsOnError (sig : Aggsig) (conditions : Clvm) :
    KeepsOnError shell (receiveCleanShutdown E sig conditions) := by
  refine keeps_channel.bind_onError fun ch => keepsOnError_ite (keeps_throw _).onError ?_
  refine (keeps_shell_onChannel _).bind_onError fun cancelled => keeps_channel.bind_onError fun ch =>
    (keeps_lift _).bind_onError fun _ => (keeps_lift _).bind_onError fun spend =>
      keeps_notifySettlements.bind_onError fun settled => keeps_get.bind_onError fun p => ?_
  intro s s' e h
  cases h

theorem onChannel_eq_ok_iff {α : Type} {x : Act Error ChannelState α} {a : α}
    {p p' : OffChainPhase} : onChannel x p = .ok a p' ↔
      ∃ ch ch', p.channelState = some ch ∧ x ch = .ok a ch' ∧
        p' = { p with channelState := some ch' } := by
  rw [onChannel]
  cases hch : p.channelState with
  | none => simp
  | some ch =>
    cases hx : x ch with
    | ok b ch' => simp [eq_comm, hx]
    | error e ch' => simp [hx]

theorem channel_of_some {p : OffChainPhase} {ch : ChannelState} (h : p.channelState = some ch) :
    channel p = .ok ch p := by
  rw [channel, bind_apply, get_apply]
  simp [h, orError]

/-- The state after a receipt has told of the settlements it confirms. -/
def settledState (ch : ChannelState) : ChannelState :=
  ChannelState.drainCachedAcceptSettlements.after ch

theorem notifySettlements_of_some {p : OffChainPhase} {ch : ChannelState}
    (h : p.channelState = some ch) : ∃ ns : List GameNotification,
      notifySettlements p =
        .ok (ns.map .notify) { p with channelState := some (settledState ch) } := by
  obtain ⟨settled, hsettled⟩ : ∃ settled, onChannel ChannelState.drainCachedAcceptSettlements p =
      .ok settled { p with channelState := some (settledState ch) } :=
    ⟨_, onChannel_eq_ok_iff.mpr ⟨ch, _, h, rfl, rfl⟩⟩
  refine ⟨settled.map fun s => .gameSettled s.1 s.2.1, ?_⟩
  rw [notifySettlements, bind_of_ok hsettled, List.map_map]
  rfl

theorem keeps_isSome_onChannel {α : Type} (x : Act Error ChannelState α) :
    Keeps (fun p => p.channelState.isSome) (onChannel x) := by
  intro p
  rw [after_onChannel]
  simp

theorem keeps_isSome_drainActions (d : Drain) (queue : List GameAction) :
    Keeps (fun p => p.channelState.isSome) (drainActions E d queue) := by
  induction queue generalizing d with
  | nil => exact keeps_pure d
  | cons action rest ih =>
    refine Keeps.bind (fun _ => rfl) fun _ => Keeps.bind ?_ fun d => ih d
    exact fun p => drainAction_isSome d action p

theorem keeps_shell_drainActions (d : Drain) (queue : List GameAction) :
    Keeps shell (drainActions E d queue) := by
  induction queue generalizing d with
  | nil => exact keeps_pure d
  | cons action rest ih =>
    refine Keeps.bind (fun _ => rfl) fun _ => Keeps.bind ?_ fun d => ih d
    exact fun p => congrArg (fun x : OffChainPhase × Bool => x.1.shell) (keeps_drainAction d action p)

theorem keeps_isSome_drainQueueIntoBatch :
    Keeps (fun p => p.channelState.isSome) (drainQueueIntoBatch E) := by
  refine keeps_get.bind fun p => keeps_ite (keeps_throw _) (keeps_get.bind fun p' =>
    (keeps_isSome_drainActions _ _).bind fun d => Keeps.bind (fun _ => rfl) fun _ => keeps_ite ?_ ?_)
  · exact Keeps.bind (fun _ => rfl) fun _ => keeps_pure _
  · exact (keeps_isSome_onChannel _).bind fun _ => Keeps.bind (fun _ => rfl) fun _ => keeps_pure _

theorem drainAfterReceive_isSome {p p' : OffChainPhase} {result : Option (Bool × List Effect) × List Effect}
    (h : drainAfterReceive E p = .ok result p') :
    p'.channelState.isSome = p.channelState.isSome := by
  have hkeep := keeps_isSome_drainQueueIntoBatch (E := E) p
  rw [drainAfterReceive] at h
  cases hr : drainQueueIntoBatch E p with
  | ok r p₁ =>
    rw [after_of_ok hr] at hkeep
    simp only [hr] at h
    cases h
    exact hkeep
  | error e p₁ =>
    rw [after_of_error hr] at hkeep
    simp only [hr] at h
    split at h
    · cases h
      exact hkeep
    · cases h

theorem passPotato_of_some {p : OffChainPhase} {ch : ChannelState} (h : p.channelState = some ch) :
    passPotato E p = .ok [.peerBatch ⟨[], ch.signaturesAt E (ch.stateNumber + 1), none⟩]
      { p with channelState := some (ch.sent E), havePotato := .absent } := by
  have hsend : onChannel (ChannelState.sendEmptyPotato E) p =
      .ok (ch.signaturesAt E (ch.stateNumber + 1)) { p with channelState := some (ch.sent E) } :=
    onChannel_eq_ok_iff.mpr ⟨ch, _, h, ch.updateCachedUnrollState_eq E, rfl⟩
  rw [passPotato, bind_of_ok hsend]
  rfl

/-- The phase that has received a batch, before it drains its own queue. -/
def aboutToDrain (spend : ChannelCoinSpendInfo) (sendBack : Bool) (ch : ChannelState)
    (p : OffChainPhase) : OffChainPhase :=
  { p with
    havePotato := .present
    lastChannelCoinSpendInfo := some spend
    channelState := some (settledState ch)
    gameActionQueue :=
      if sendBack ∧ ch.getTheirCurrentShare = 0 ∧ ¬ ch.hasActiveGames then
        p.gameActionQueue ++ [.cleanShutdown]
      else p.gameActionQueue }

/-- What follows the drain: the potato goes back if nothing was sent and the peer wants it. -/
def passBack (E : ChannelEnv) (sendBack : Bool) (settled : List Effect)
    (r : Option (Bool × List Effect) × List Effect) : Act Error OffChainPhase (List Effect) := do
  let (drained, failed) := r
  match drained with
  | none => pure (settled ++ failed)
  | some (sent, batchEffects) =>
    if sent then pure (settled ++ batchEffects)
    else if (← get).peerWantsPotato then
      modify fun p => { p with peerWantsPotato := false }
      let passed ← passPotato E
      pure (settled ++ batchEffects ++ passed)
    else if sendBack then
      let passed ← passPotato E
      pure (settled ++ batchEffects ++ passed)
    else pure (settled ++ batchEffects)

theorem updateChannelCoinAfterReceive_eq {p : OffChainPhase} {ch : ChannelState}
    (h : p.channelState = some ch) (spend : ChannelCoinSpendInfo) (sendBack : Bool) :
    ∃ ns : List GameNotification, updateChannelCoinAfterReceive E spend sendBack p =
      (drainAfterReceive E >>= passBack E sendBack (ns.map .notify))
        (aboutToDrain spend sendBack ch p) := by
  obtain ⟨settled, hsettled⟩ := notifySettlements_of_some
    (p := { p with havePotato := .present, lastChannelCoinSpendInfo := some spend }) h
  refine ⟨settled, ?_⟩
  rw [updateChannelCoinAfterReceive, bind_of_ok (modify_apply _ _), bind_of_ok hsettled,
    bind_of_ok (channel_of_some rfl), aboutToDrain]
  by_cases hback : sendBack ∧ ch.getTheirCurrentShare = 0 ∧ ¬ ch.hasActiveGames
  · rw [if_pos (c := sendBack ∧ (settledState ch).getTheirCurrentShare = 0 ∧
      ¬ (settledState ch).hasActiveGames) hback, if_pos hback]
    rfl
  · rw [if_neg (c := sendBack ∧ (settledState ch).getTheirCurrentShare = 0 ∧
      ¬ (settledState ch).hasActiveGames) hback, if_neg hback]
    rfl

theorem passBack_of_some {p : OffChainPhase} (h : p.channelState.isSome) (sendBack : Bool)
    (settled : List Effect) (r : Option (Bool × List Effect) × List Effect) :
    ∃ effects p', passBack E sendBack settled r p = .ok effects p' := by
  obtain ⟨ch, hch⟩ := Option.isSome_iff_exists.mp h
  obtain ⟨_ | ⟨sent, batchEffects⟩, failed⟩ := r
  · exact ⟨_, _, rfl⟩
  rw [passBack]
  split
  · exact ⟨_, _, rfl⟩
  rw [bind_of_ok (get_apply p)]
  split
  · rw [bind_of_ok (modify_apply _ _),
      bind_of_ok (passPotato_of_some (p := { p with peerWantsPotato := false }) hch)]
    exact ⟨_, _, rfl⟩
  split
  · rw [bind_of_ok (passPotato_of_some hch)]
    exact ⟨_, _, rfl⟩
  · exact ⟨_, _, rfl⟩

/-- After a receipt, only the drain can fail. -/
theorem updateChannelCoinAfterReceive_eq_error_iff {p p' : OffChainPhase} {ch : ChannelState}
    (h : p.channelState = some ch) {spend : ChannelCoinSpendInfo} {sendBack : Bool} {e : Error} :
    updateChannelCoinAfterReceive E spend sendBack p = .error e p' ↔
      drainAfterReceive E (aboutToDrain spend sendBack ch p) = .error e p' := by
  obtain ⟨ns, heq⟩ := updateChannelCoinAfterReceive_eq (E := E) h spend sendBack
  rw [heq, Act.bind_eq_error]
  constructor
  · rintro (herror | ⟨r, p₁, hr, herror⟩)
    · exact herror
    · have hsome : p₁.channelState.isSome := by
        rw [drainAfterReceive_isSome hr]
        rfl
      obtain ⟨effects, p₂, hok⟩ := passBack_of_some (E := E) hsome sendBack (ns.map .notify) r
      rw [hok] at herror
      cases herror
  · exact Or.inl

/-- Some coin of the spend that would be published is an unroll of the channel state. -/
def SpendKnown (p : OffChainPhase) : Prop :=
  ∀ ch spend, p.channelState = some ch → p.lastChannelCoinSpendInfo = some spend →
    ∃ unroll, ch.resolveUnrollFromConditions spend.conditions = .ok unroll

/-- A failed batch leaves everything that the dispute reads. -/
def BatchAtomic (E : ChannelEnv) (p : OffChainPhase) (b : PeerBatch) : Prop :=
  ∀ e p', processMessage E (.batch b) p = .error e p' →
    p'.channelState = p.channelState ∧ p'.gameActionQueue = p.gameActionQueue ∧
      p'.havePotato = p.havePotato ∧ p'.lastChannelCoinSpendInfo = p.lastChannelCoinSpendInfo ∧
      (p.SpendKnown → p'.SpendKnown)

/-- Once the batch is applied and verified, no action of our own queue fails but a move or a
settlement. -/
def DrainsAfter (E : ChannelEnv) (p : OffChainPhase) (b : PeerBatch) : Prop :=
  p.pendingCleanShutdown = none → p.havePotato ≠ .present → b.cleanShutdown = none →
    ∀ effects p₁ ch, applyActions E b.actions p = .ok effects p₁ → p₁.channelState = some ch →
      ch.Verifies E (ch.stateNumber + 1) b.signatures →
        let p₂ := aboutToDrain (ch.publishAt E (ch.stateNumber + 1) b.signatures)
          (b.actions.any isAcceptSettlement) (ch.received E b.signatures) p₁
        ∀ e p₃, drainActions E .empty p₂.gameActionQueue p₂ = .error e p₃ →
          p₃.lastFailedQueuedAction ≠ none

/-- The drain after a receipt fails with an action that has no name to report it under. -/
theorem drainAfterReceive_eq_error_iff {p p' : OffChainPhase} {e : Error}
    (hp : p.havePotato = .present) (hsome : p.channelState.isSome) :
    drainAfterReceive E p = .error e p' ↔
      drainActions E .empty p.gameActionQueue p = .error e p' ∧ p'.lastFailedQueuedAction = none := by
  rw [drainAfterReceive, drainQueueIntoBatch_eq hp]
  cases hr : drainActions E .empty p.gameActionQueue p with
  | ok d p₁ =>
    obtain ⟨result, p₂, hok⟩ : ∃ result p₂, packageBatch E d p₁ = .ok result p₂ :=
      packageBatch_of_some d (by rw [drainActions_isSome hr]; exact hsome)
    simp [bind_of_ok hr, hok]
  | error e₁ p₁ =>
    rw [bind_of_error hr]
    cases hlast : p₁.lastFailedQueuedAction with
    | none =>
      simp only [EStateM.Result.error.injEq, hlast]
      constructor
      · rintro ⟨rfl, rfl⟩
        exact ⟨⟨rfl, rfl⟩, hlast⟩
      · exact fun h => h.1
    | some named =>
      simp only [EStateM.Result.error.injEq, hlast, reduceCtorEq, false_iff]
      rintro ⟨⟨rfl, rfl⟩, hnone⟩
      rw [hlast] at hnone
      cases hnone

section Receipt

variable {b : PeerBatch} {p p₁ p' : OffChainPhase} {ch : ChannelState} {effects : List Effect}
  {e : Error}

theorem processReceivedBatch_verified (hb : b.cleanShutdown = none)
    (happlied : applyActions E b.actions p = .ok effects p₁) (hch : p₁.channelState = some ch)
    (hverifies : ch.Verifies E (ch.stateNumber + 1) b.signatures) :
    processReceivedBatch E b p = (updateChannelCoinAfterReceive E
        (ch.publishAt E (ch.stateNumber + 1) b.signatures) (b.actions.any isAcceptSettlement) >>=
          fun after => pure (effects ++ after))
      { p₁ with channelState := some (ch.received E b.signatures) } := by
  have hverify : onChannel (ChannelState.verifyReceivedBatchSignatures E b.signatures) p₁ =
      .ok (ch.publishAt E (ch.stateNumber + 1) b.signatures)
        { p₁ with channelState := some (ch.received E b.signatures) } :=
    onChannel_eq_ok_iff.mpr ⟨ch, _, hch,
      (ch.verifyReceivedBatchSignatures_eq_ok_iff E).mpr ⟨hverifies, rfl, rfl⟩, rfl⟩
  rw [processReceivedBatch, bind_of_ok happlied, hb]
  exact bind_of_ok hverify _

theorem processReceivedBatch_error (hb : b.cleanShutdown = none)
    (h : processReceivedBatch E b p = .error e p') :
    p'.shell = p.shell ∨ ∃ effects p₁ ch, applyActions E b.actions p = .ok effects p₁ ∧
      p₁.channelState = some ch ∧ ch.Verifies E (ch.stateNumber + 1) b.signatures ∧
        drainAfterReceive E (aboutToDrain (ch.publishAt E (ch.stateNumber + 1) b.signatures)
          (b.actions.any isAcceptSettlement) (ch.received E b.signatures) p₁) = .error e p' := by
  have hkeep := keeps_applyActions (E := E) b.actions
  rcases Act.bind_eq_error.mp h with herror | ⟨effects, p₁, happlied, h⟩
  · exact .inl (hkeep.onError _ _ _ herror)
  rw [hb] at h
  rcases Act.bind_eq_error.mp h with herror | ⟨spend, p₂, hverify, hafter⟩
  · left
    rw [(keeps_shell_onChannel _).onError _ _ _ herror, hkeep.ok happlied]
  · right
    obtain ⟨ch, ch', hch, hverified, rfl⟩ := onChannel_eq_ok_iff.mp hverify
    obtain ⟨hverifies, rfl, rfl⟩ := (ch.verifyReceivedBatchSignatures_eq_ok_iff E).mp hverified
    refine ⟨effects, p₁, ch, happlied, hch, hverifies, ?_⟩
    rcases Act.bind_eq_error.mp hafter with herror | ⟨after, p₃, -, herror⟩
    · exact (updateChannelCoinAfterReceive_eq_error_iff
        (p := { p₁ with channelState := some (ch.received E b.signatures) }) rfl).mp herror
    · cases herror

theorem processMessage_batch (b : PeerBatch) (p : OffChainPhase) :
    processMessage E (.batch b) p =
      if p.pendingCleanShutdown.isSome then .error (.strErr "expected CleanShutdownComplete" []) p
      else if p.havePotato = .present then
        .error (.strErr "received batch while we hold the potato (double-potato)" []) p
      else passOnBatch E b p := by
  unfold processMessage
  rw [bind_of_ok (get_apply p)]
  split
  · rfl
  · dsimp only
    split
    · rfl
    · rfl

end Receipt

/-- Where our own queue drains, a batch fails before the potato is taken. -/
theorem processReceivedBatch_error_shell {b : PeerBatch} {p p' : OffChainPhase} {e : Error}
    (hdrains : DrainsAfter E p b) (hpending : p.pendingCleanShutdown = none)
    (hp : p.havePotato ≠ .present) (h : processReceivedBatch E b p = .error e p') :
    p'.shell = p.shell := by
  cases hb : b.cleanShutdown with
  | none =>
    rcases processReceivedBatch_error hb h with hkept | ⟨effects, p₁, ch, happlied, hch, hv, herror⟩
    · exact hkept
    · obtain ⟨hactions, hnone⟩ := (drainAfterReceive_eq_error_iff rfl rfl).mp herror
      exact absurd hnone (hdrains hpending hp hb effects p₁ ch happlied hch hv e p' hactions)
  | some shutdown =>
    have hkeep := keeps_applyActions (E := E) b.actions
    rcases Act.bind_eq_error.mp h with herror | ⟨effects, p₁, happlied, h⟩
    · exact hkeep.onError _ _ _ herror
    · rw [hb] at h
      rcases Act.bind_eq_error.mp h with herror | ⟨after, p₂, -, herror⟩
      · rw [receiveCleanShutdown_keepsOnError _ _ _ _ _ herror, hkeep.ok happlied]
      · cases herror

/-- A failure of the drain takes back the channel state and the queue. -/
theorem processMessage_late_error {b : PeerBatch} {p p₁ p₃ : OffChainPhase} {ch : ChannelState}
    {effects : List Effect} {e : Error} (hpending : p.pendingCleanShutdown = none)
    (hp : p.havePotato ≠ .present) (hb : b.cleanShutdown = none)
    (happlied : applyActions E b.actions p = .ok effects p₁) (hch : p₁.channelState = some ch)
    (hverifies : ch.Verifies E (ch.stateNumber + 1) b.signatures)
    (hdrain : drainAfterReceive E (aboutToDrain (ch.publishAt E (ch.stateNumber + 1) b.signatures)
      (b.actions.any isAcceptSettlement) (ch.received E b.signatures) p₁) = .error e p₃) :
    processMessage E (.batch b) p = .error e { p₃ with
      channelState := p.channelState
      gameActionQueue := p.gameActionQueue } := by
  have hreceipt : processReceivedBatch E b p = .error e p₃ := by
    rw [processReceivedBatch_verified hb happlied hch hverifies]
    exact bind_of_error ((updateChannelCoinAfterReceive_eq_error_iff
      (p := { p₁ with channelState := some (ch.received E b.signatures) }) rfl).mpr hdrain) _
  rw [processMessage_batch, hpending, if_neg (by simp), if_neg hp, passOnBatch, hreceipt]

end OffChainPhase

namespace Steady

/-- The peer has proposed the steady game. -/
def proposal : ProposedGame where
  gameId := 1
  groupId := 1
  initialPuzzleHash := (Referee.myTurn referee).outcomeRefereePuzzleHash env
  referee := .myTurn referee
  myContribution := 1
  theirContribution := 1

def shakenChannel : ChannelState :=
  ChannelState.shaken channelEnv setup
    ((ChannelState.opened channelEnv setup).peerSignaturesAt channelEnv 21 22 0)

/-- The proposal is to be accepted as soon as the potato comes. -/
def acceptingPhase : OffChainPhase :=
  { phase [.queuedAcceptProposal 1] with
    havePotato := .requested
    channelState := some { shakenChannel with proposedGames := [proposal] }
    lastChannelCoinSpendInfo := some ((ChannelState.opened channelEnv setup).publishAt channelEnv 0
      ((ChannelState.opened channelEnv setup).peerSignaturesAt channelEnv 21 22 0)) }

/-- The peer takes the proposal back. -/
def cancelBatch : PeerBatch :=
  ⟨[.cancelProposal 1], shakenChannel.peerSignaturesAt channelEnv 21 22 1, none⟩

end Steady

end ChiaGaming
