import ChiaGaming.Channel.Potato

namespace ChiaGaming

namespace ChannelState

open Act

variable {E : ChannelEnv}

/-! The operations on proposals and games leave alone what the signatures and the disputes read. -/

/-- The channel state without its balances, its games and its counters. -/
def core (ch : ChannelState) : ChannelState :=
  { ch with
    myOutOfGameBalance := 0
    theirOutOfGameBalance := 0
    myAllocatedBalance := 0
    theirAllocatedBalance := 0
    cachedRedoActions := []
    myNextNonce := 0
    theirNextNonce := 0
    liveGames := []
    pendingSettlements := []
    proposedGames := [] }

theorem keeps_core_sendProposeGame (startInfo : GameStartInfo) (groupId : GameID) :
    Keeps core (sendProposeGame E startInfo groupId) :=
  keeps_get.bind fun _ => (keeps_lift _).bind fun _ => keeps_modify fun _ => rfl

theorem keeps_core_applyReceivedProposal (startInfo : GameStartInfo) (groupId : GameID) :
    Keeps core (applyReceivedProposal E startInfo groupId) :=
  keeps_get.bind fun _ => (keeps_lift _).bind fun _ => (keeps_lift _).bind fun _ =>
    keeps_modify fun _ => rfl

theorem keeps_core_acceptProposalInner (gameId : GameID) : Keeps core (acceptProposalInner gameId) := by
  intro ch
  simp only [after, acceptProposalInner, bind_apply, get_apply]
  cases ch.findProposal gameId with
  | none => rfl
  | some proposal =>
    dsimp only
    split_ifs
    · rfl
    · rfl

theorem keeps_core_sendAcceptProposal (gameId : GameID) : Keeps core (sendAcceptProposal gameId) :=
  (keeps_core_acceptProposalInner gameId).bind fun _ => keeps_modify fun _ => rfl

theorem keeps_core_applyReceivedAcceptProposal (gameId : GameID) :
    Keeps core (applyReceivedAcceptProposal gameId) :=
  keeps_get.bind fun _ => keeps_ite (keeps_throw _) (keeps_core_acceptProposalInner gameId)

theorem keeps_core_removeProposal (text : String) (gameId : GameID) :
    Keeps core (removeProposal text gameId) :=
  keeps_get.bind fun _ => keeps_ite (keeps_throw _) (keeps_modify fun _ => rfl)

theorem keeps_core_cancelAllProposals : Keeps core cancelAllProposals :=
  keeps_get.bind fun _ => Keeps.bind (fun _ => rfl) fun _ => keeps_pure _

theorem keeps_core_allocateMyNonce : Keeps core allocateMyNonce :=
  keeps_get.bind fun _ => Keeps.bind (fun _ => rfl) fun _ => keeps_pure _

theorem keeps_core_sendMoveNoFinalize (gameId : GameID) (readableMove : Clvm) (newEntropy : Hash) :
    Keeps core (sendMoveNoFinalize E gameId readableMove newEntropy) := by
  intro ch
  simp only [after, sendMoveNoFinalize, bind_apply, get_apply]
  cases ch.getGameById gameId with
  | error e => rfl
  | ok game =>
    simp only [lift_ok]
    cases game.internalMakeMove E.toEnv readableMove newEntropy ch.stateNumber with
    | error e => rfl
    | ok moved => rfl

theorem keeps_core_applyReceivedMove (gameId : GameID) (gameMove : GameMoveDetails) :
    Keeps core (applyReceivedMove E gameId gameMove) := by
  intro ch
  simp only [after, applyReceivedMove, bind_apply, get_apply]
  cases ch.getGameById gameId with
  | error e => rfl
  | ok game =>
    simp only [lift_ok]
    split_ifs
    · rfl
    · rfl
    · cases game.internalTheirMove E.toEnv gameMove ch.stateNumber with
      | error e => rfl
      | ok moved =>
        simp only [bind_apply, lift_ok, set_apply]
        split_ifs
        · rfl
        · rfl

theorem keeps_core_receivedMessage (gameId : GameID) (message : Bytes) :
    Keeps core (receivedMessage E gameId message) :=
  keeps_get.bind fun _ => (keeps_lift _).bind fun _ => keeps_lift _

theorem keeps_core_enableCheatingForGame (gameId : GameID) (makeMove : Bytes) (moverShare : ℕ) :
    Keeps core (enableCheatingForGame gameId makeMove moverShare) := by
  intro ch
  simp only [after, enableCheatingForGame, bind_apply, get_apply]
  cases ch.getGameById gameId with
  | error e => rfl
  | ok game => rfl

theorem keeps_core_sendAcceptSettlementNoFinalize (gameId : GameID) :
    Keeps core (sendAcceptSettlementNoFinalize gameId) := by
  refine keeps_get.bind fun _ => keeps_ite (keeps_throw _) (keeps_get.bind fun _ =>
    (keeps_lift _).bind fun _ => keeps_ite (keeps_throw _) ?_)
  refine Keeps.bind (fun _ => rfl) fun _ => keeps_get.bind fun _ => (keeps_lift _).bind fun _ =>
    Keeps.bind (fun _ => rfl) fun _ => keeps_get.bind fun _ => (keeps_lift _).bind fun _ =>
    Keeps.bind (fun _ => rfl) fun _ => (keeps_lift _).bind fun _ => Keeps.bind (fun _ => rfl) fun _ =>
    (keeps_lift _).bind fun _ => Keeps.bind (fun _ => rfl) fun _ => Keeps.bind (fun _ => rfl) fun _ =>
    keeps_pure _

theorem keeps_core_applyReceivedAcceptSettlement (gameId : GameID) :
    Keeps core (applyReceivedAcceptSettlement gameId) := by
  refine keeps_get.bind fun _ => (keeps_lift _).bind fun _ => keeps_ite (keeps_throw _) ?_
  refine (keeps_lift _).bind fun _ => (keeps_lift _).bind fun _ => keeps_get.bind fun _ =>
    (keeps_lift _).bind fun _ => Keeps.bind (fun _ => rfl) fun _ => keeps_get.bind fun _ =>
    (keeps_lift _).bind fun _ => Keeps.bind (fun _ => rfl) fun _ => Keeps.bind (fun _ => rfl) fun _ =>
    keeps_pure _

theorem keeps_core_drainCachedAcceptSettlements : Keeps core drainCachedAcceptSettlements :=
  fun _ => rfl

end ChannelState

/-! Runs of the operations. -/

/-- The operations of a channel state between two potatoes. -/
inductive GameOp where
  | sendProposeGame (startInfo : GameStartInfo) (groupId : GameID)
  | applyReceivedProposal (startInfo : GameStartInfo) (groupId : GameID)
  | sendAcceptProposal (gameId : GameID)
  | applyReceivedAcceptProposal (gameId : GameID)
  | sendCancelProposal (gameId : GameID)
  | receivedCancelProposal (gameId : GameID)
  | cancelAllProposals
  | allocateMyNonce
  | sendMoveNoFinalize (gameId : GameID) (readableMove : Clvm) (newEntropy : Hash)
  | applyReceivedMove (gameId : GameID) (gameMove : GameMoveDetails)
  | enableCheatingForGame (gameId : GameID) (makeMove : Bytes) (moverShare : ℕ)
  | sendAcceptSettlementNoFinalize (gameId : GameID)
  | applyReceivedAcceptSettlement (gameId : GameID)
  | drainCachedAcceptSettlements

namespace GameOp

open Act

variable {E : ChannelEnv}

/-- The state that an operation leaves, also if it fails. -/
def step (E : ChannelEnv) (ch : ChannelState) : GameOp → ChannelState
  | sendProposeGame startInfo groupId => (ChannelState.sendProposeGame E startInfo groupId).after ch
  | applyReceivedProposal startInfo groupId =>
    (ChannelState.applyReceivedProposal E startInfo groupId).after ch
  | sendAcceptProposal gameId => (ChannelState.sendAcceptProposal gameId).after ch
  | applyReceivedAcceptProposal gameId => (ChannelState.applyReceivedAcceptProposal gameId).after ch
  | sendCancelProposal gameId => (ChannelState.sendCancelProposal gameId).after ch
  | receivedCancelProposal gameId => (ChannelState.receivedCancelProposal gameId).after ch
  | cancelAllProposals => ChannelState.cancelAllProposals.after ch
  | allocateMyNonce => ChannelState.allocateMyNonce.after ch
  | sendMoveNoFinalize gameId readableMove newEntropy =>
    (ChannelState.sendMoveNoFinalize E gameId readableMove newEntropy).after ch
  | applyReceivedMove gameId gameMove => (ChannelState.applyReceivedMove E gameId gameMove).after ch
  | enableCheatingForGame gameId makeMove moverShare =>
    (ChannelState.enableCheatingForGame gameId makeMove moverShare).after ch
  | sendAcceptSettlementNoFinalize gameId =>
    (ChannelState.sendAcceptSettlementNoFinalize gameId).after ch
  | applyReceivedAcceptSettlement gameId =>
    (ChannelState.applyReceivedAcceptSettlement gameId).after ch
  | drainCachedAcceptSettlements => ChannelState.drainCachedAcceptSettlements.after ch

theorem core_step (ch : ChannelState) (op : GameOp) : (step E ch op).core = ch.core := by
  cases op with
  | sendProposeGame startInfo groupId => exact ChannelState.keeps_core_sendProposeGame _ _ ch
  | applyReceivedProposal startInfo groupId =>
    exact ChannelState.keeps_core_applyReceivedProposal _ _ ch
  | sendAcceptProposal gameId => exact ChannelState.keeps_core_sendAcceptProposal _ ch
  | applyReceivedAcceptProposal gameId =>
    exact ChannelState.keeps_core_applyReceivedAcceptProposal _ ch
  | sendCancelProposal gameId => exact ChannelState.keeps_core_removeProposal _ _ ch
  | receivedCancelProposal gameId => exact ChannelState.keeps_core_removeProposal _ _ ch
  | cancelAllProposals => exact ChannelState.keeps_core_cancelAllProposals ch
  | allocateMyNonce => exact ChannelState.keeps_core_allocateMyNonce ch
  | sendMoveNoFinalize gameId readableMove newEntropy =>
    exact ChannelState.keeps_core_sendMoveNoFinalize _ _ _ ch
  | applyReceivedMove gameId gameMove => exact ChannelState.keeps_core_applyReceivedMove _ _ ch
  | enableCheatingForGame gameId makeMove moverShare =>
    exact ChannelState.keeps_core_enableCheatingForGame _ _ _ ch
  | sendAcceptSettlementNoFinalize gameId =>
    exact ChannelState.keeps_core_sendAcceptSettlementNoFinalize _ ch
  | applyReceivedAcceptSettlement gameId =>
    exact ChannelState.keeps_core_applyReceivedAcceptSettlement _ ch
  | drainCachedAcceptSettlements => exact ChannelState.keeps_core_drainCachedAcceptSettlements ch

/-- One state comes of another by operations. -/
def Steps (E : ChannelEnv) (ch ch' : ChannelState) : Prop :=
  ∃ ops : List GameOp, ops.foldl (step E) ch = ch'

instance : Std.Refl (Steps E) := ⟨fun _ => ⟨[], rfl⟩⟩

instance : IsTrans ChannelState (Steps E) := by
  constructor
  rintro ch ch₁ ch₂ ⟨ops, rfl⟩ ⟨ops', rfl⟩
  exact ⟨ops ++ ops', List.foldl_append⟩

theorem Steps.single (ch : ChannelState) (op : GameOp) : Steps E ch (step E ch op) := ⟨[op], rfl⟩

/-- What every operation preserves, the operations preserve. -/
theorem Steps.preserves {I : ChannelState → Prop} (hI : ∀ ch op, I ch → I (step E ch op))
    {ch ch' : ChannelState} (h : Steps E ch ch') (hch : I ch) : I ch' := by
  obtain ⟨ops, rfl⟩ := h
  induction ops generalizing ch with
  | nil => exact hch
  | cons op ops ih => exact ih (hI ch op hch)

theorem Steps.core {ch ch' : ChannelState} (h : Steps E ch ch') : ch'.core = ch.core :=
  h.preserves (I := fun ch' => ch'.core = ch.core) (fun ch₁ op h₁ => (core_step ch₁ op).trans h₁) rfl

end GameOp

end ChiaGaming
