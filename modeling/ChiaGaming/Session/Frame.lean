import ChiaGaming.Channel.Frame
import ChiaGaming.Session.Rollback

namespace ChiaGaming

namespace OffChainPhase

open Act

variable {E : ChannelEnv}

/-! Where the actions of a session take the channel state. -/

/-- The channel state comes of the earlier one by operations. -/
def Evolves (E : ChannelEnv) (p p' : OffChainPhase) : Prop :=
  p'.channelState = p.channelState ∨
    ∃ ch ch', p.channelState = some ch ∧ p'.channelState = some ch' ∧ GameOp.Steps E ch ch'

instance : Std.Refl (Evolves E) := ⟨fun _ => .inl rfl⟩

instance : IsTrans OffChainPhase (Evolves E) := by
  constructor
  intro p p₁ p₂ h h'
  rcases h with heq | ⟨ch, ch₁, hch, hch₁, hsteps⟩
  · rw [Evolves, ← heq]
    exact h'
  · rcases h' with heq' | ⟨ch₁', ch₂, hch₁', hch₂, hsteps'⟩
    · exact .inr ⟨ch, ch₁, hch, heq'.trans hch₁, hsteps⟩
    · obtain rfl : ch₁ = ch₁' := Option.some.inj (hch₁.symm.trans hch₁')
      exact .inr ⟨ch, ch₂, hch, hch₂, IsTrans.trans _ _ _ hsteps hsteps'⟩

theorem moves_channel : Moves (Evolves E) channel := moves_get.bind fun _ => moves_lift _

theorem moves_onChannel {α : Type} {x : Act Error ChannelState α}
    (hx : Moves (GameOp.Steps E) x) : Moves (Evolves E) (onChannel x) := by
  intro p
  rw [after_onChannel]
  cases hch : p.channelState with
  | none => exact .inl (by simp [hch])
  | some ch => exact .inr ⟨ch, x.after ch, hch, rfl, hx ch⟩

theorem moves_op {α : Type} {x : Act Error ChannelState α} (op : GameOp)
    (hx : ∀ ch, x.after ch = GameOp.step E ch op) : Moves (Evolves E) (onChannel x) :=
  moves_onChannel fun ch => hx ch ▸ GameOp.Steps.single ch op

theorem moves_drainMove (d : Drain) (gameId : GameID) (readableMove : Clvm) (newEntropy : Hash) :
    Moves (Evolves E) (drainMove E d gameId readableMove newEntropy) := by
  refine moves_channel.bind fun ch => moves_ite (moves_pure _) ?_
  intro p
  have h := moves_op (E := E) (.sendMoveNoFinalize gameId readableMove newEntropy) (fun _ => rfl) p
  simp only [after] at h ⊢
  split at h
  · rename_i hr
    simpa only [hr] using h
  · rename_i e p' hr
    simp only [hr]
    cases e <;> exact h

theorem moves_drainProposalGroup (d : Drain) (myGames : List GameStartInfo)
    (theirWire : WireProposalGroup) :
    Moves (Evolves E) (drainProposalGroup E d myGames theirWire) := by
  intro p
  have hop : ∀ game, Moves (GameOp.Steps E) (do
      ChannelState.sendProposeGame E game theirWire.groupId
      pure ([] : List Unit)) := fun game =>
    Moves.bind (fun ch => GameOp.Steps.single ch (.sendProposeGame game theirWire.groupId))
      fun _ => moves_pure _
  have h := moves_onChannel (moves_each hop myGames) p
  simp only [after, drainProposalGroup] at h ⊢
  split at h
  · rename_i hr
    simpa only [hr] using h
  · rename_i hr
    simp only [hr]
    exact .inl rfl

theorem moves_drainAction (d : Drain) (action : GameAction) :
    Moves (Evolves E) (drainAction E d action) := by
  cases action with
  | move gameId readableMove newEntropy => exact moves_drainMove d gameId readableMove newEntropy
  | acceptSettlement gameId =>
    exact (moves_op (.sendAcceptSettlementNoFinalize gameId) fun _ => rfl).bind fun _ => moves_pure _
  | cleanShutdown =>
    exact moves_channel.bind fun _ => moves_ite (moves_throw _)
      ((moves_op .cancelAllProposals fun _ => rfl).bind fun _ => moves_channel.bind fun _ =>
        (moves_lift _).bind fun _ => moves_pure _)
  | sendPotato => exact moves_throw _
  | queuedProposalGroup myGames theirWire => exact moves_drainProposalGroup d myGames theirWire
  | queuedAcceptProposal gameId =>
    refine moves_channel.bind fun ch => ?_
    split
    · exact moves_throw _
    · refine moves_ite (moves_throw _) (moves_ite ?_ ?_)
      · exact (moves_op (.sendCancelProposal gameId) fun _ => rfl).bind fun _ => moves_pure _
      · exact (moves_op (.sendAcceptProposal gameId) fun _ => rfl).bind fun _ => moves_pure _
  | queuedCancelProposal gameId =>
    exact moves_channel.bind fun _ => moves_ite (moves_throw _)
      ((moves_op (.sendCancelProposal gameId) fun _ => rfl).bind fun _ => moves_pure _)
  | queuedCancelProposalSilently gameId =>
    exact moves_channel.bind fun _ => moves_ite (moves_throw _)
      ((moves_op (.sendCancelProposal gameId) fun _ => rfl).bind fun _ => moves_pure _)
  | cheat gameId moverShare entropy =>
    exact moves_channel.bind fun _ => moves_ite (moves_pure _)
      ((moves_op (.enableCheatingForGame gameId [0x80] moverShare) fun _ => rfl).bind fun _ =>
        (moves_op (.sendMoveNoFinalize gameId .nil entropy) fun _ => rfl).bind fun _ => moves_pure _)

theorem moves_drainActions (d : Drain) (queue : List GameAction) :
    Moves (Evolves E) (drainActions E d queue) := by
  induction queue generalizing d with
  | nil => exact moves_pure d
  | cons action rest ih =>
    refine Moves.bind (fun _ => .inl rfl) fun _ => ?_
    exact (moves_drainAction d action).bind fun d => ih d

theorem moves_notifySettlements : Moves (Evolves E) notifySettlements :=
  (moves_op .drainCachedAcceptSettlements fun _ => rfl).bind fun _ => moves_pure _

theorem moves_hydrateWireProposalGroup (wire : WireProposalGroup) :
    Moves (Evolves E) (hydrateWireProposalGroup E wire) := by
  refine Moves.bind ?_ fun games => (moves_lift _).bind fun ids =>
    moves_ite (moves_throw _) (moves_pure _)
  refine moves_get.bind fun p => ?_
  split
  · exact moves_throw _
  · exact moves_throw _
  · exact moves_lift _

theorem moves_applyBatchAction (action : BatchAction) :
    Moves (Evolves E) (applyBatchAction E action) := by
  cases action with
  | proposeGroup wire =>
    have hop : ∀ game, Moves (GameOp.Steps E) (do
        ChannelState.applyReceivedProposal E game wire.groupId
        pure ([] : List Unit)) := fun game =>
      Moves.bind (fun ch => GameOp.Steps.single ch (.applyReceivedProposal game wire.groupId))
        fun _ => moves_pure _
    refine moves_get.bind fun p => Moves.bind (fun _ => .inl rfl) fun _ =>
      moves_get.bind fun p' => moves_ite (moves_pure _)
        ((moves_hydrateWireProposalGroup wire).bind fun games =>
          (moves_onChannel (moves_each hop games)).bind fun _ => ?_)
    split
    · exact moves_throw _
    · exact moves_pure _
  | acceptProposal gameId =>
    refine moves_channel.bind fun ch => ?_
    split
    · exact moves_throw _
    · exact (moves_op (.applyReceivedAcceptProposal gameId) fun _ => rfl).bind fun _ => moves_pure _
  | cancelProposal gameId =>
    exact (moves_op (.receivedCancelProposal gameId) fun _ => rfl).bind fun _ => moves_pure _
  | move gameId gameMove =>
    refine (moves_op (.applyReceivedMove gameId gameMove) fun _ => rfl).bind fun result =>
      moves_channel.bind fun ch => (moves_lift _).bind fun finished => ?_
    refine moves_ite (Moves.bind ?_ fun _ => moves_pure _) (moves_pure _)
    exact fun _ => .inl rfl
  | acceptSettlement gameId amount =>
    exact (moves_op (.applyReceivedAcceptSettlement gameId) fun _ => rfl).bind fun _ => moves_pure _

theorem moves_applyActions (actions : List BatchAction) :
    Moves (Evolves E) (applyActions E actions) := by
  refine moves_channel.bind fun ch => (moves_lift _).bind fun _ => (moves_lift _).bind fun _ =>
    (moves_each moves_applyBatchAction actions).bind fun effects => ?_
  refine moves_ite (Moves.bind ?_ fun _ => moves_pure _) (moves_pure _)
  exact fun _ => .inl rfl

end OffChainPhase

end ChiaGaming
