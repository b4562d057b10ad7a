import ChiaGaming.Channel.Books
import ChiaGaming.Session.Frame

namespace ChiaGaming

/-- The moves, which wait in the queue for their turn. -/
def GameAction.isPlay : GameAction → Bool
  | .move _ _ _ => true
  | .cheat _ _ _ => true
  | _ => false

namespace OffChainPhase

open Act

/-! What an action does if it succeeds: in the queue of one player, and in the batch that the other
receives. -/

/-- Everything that a drain can make of an action, with what goes into the batch. -/
inductive Drained (E : ChannelEnv) (ch : ChannelState) :
    GameAction → Option BatchAction → ChannelState → Prop where
  | deferred (action : GameAction) (h : action.isPlay = true) : Drained E ch action none ch
  | rejected (gameId : GameID) (readableMove : Clvm) (newEntropy : Hash) :
      Drained E ch (.move gameId readableMove newEntropy) none ch
  | move (gameId : GameID) (readableMove : Clvm) (newEntropy : Hash) {result : MoveResult}
      {ch' : ChannelState}
      (h : ChannelState.sendMoveNoFinalize E gameId readableMove newEntropy ch = .ok result ch') :
      Drained E ch (.move gameId readableMove newEntropy) (some (.move gameId result.gameMove)) ch'
  | cheat (gameId : GameID) (moverShare : ℕ) (entropy : Hash) {enabled : Bool} {result : MoveResult}
      {ch₁ ch' : ChannelState}
      (hcheat : ChannelState.enableCheatingForGame gameId [0x80] moverShare ch = .ok enabled ch₁)
      (h : ChannelState.sendMoveNoFinalize E gameId .nil entropy ch₁ = .ok result ch') :
      Drained E ch (.cheat gameId moverShare entropy) (some (.move gameId result.gameMove)) ch'
  | settle (gameId : GameID) {amount : ℕ} {ch' : ChannelState}
      (h : ChannelState.sendAcceptSettlementNoFinalize gameId ch = .ok amount ch') :
      Drained E ch (.acceptSettlement gameId) (some (.acceptSettlement gameId amount)) ch'
  | propose (myGames : List GameStartInfo) (theirWire : WireProposalGroup) {units : List Unit}
      {ch' : ChannelState}
      (h : Act.each (fun game => do
        ChannelState.sendProposeGame E game theirWire.groupId
        pure ([] : List Unit)) myGames ch = .ok units ch') :
      Drained E ch (.queuedProposalGroup myGames theirWire) (some (.proposeGroup theirWire)) ch'
  | accept (gameId : GameID) (proposal : ProposedGame) {ch' : ChannelState}
      (hfind : ch.findProposal gameId = some proposal) (hparity : ch.isOurNonceParity gameId = false)
      (hmine : proposal.myContribution ≤ ch.myOutOfGameBalance)
      (htheirs : proposal.theirContribution ≤ ch.theirOutOfGameBalance)
      (h : ChannelState.sendAcceptProposal gameId ch = .ok () ch') :
      Drained E ch (.queuedAcceptProposal gameId) (some (.acceptProposal gameId)) ch'
  | short (gameId : GameID) (proposal : ProposedGame)
      (hfind : ch.findProposal gameId = some proposal) (hparity : ch.isOurNonceParity gameId = false)
      (hshort : ch.myOutOfGameBalance < proposal.myContribution ∨
        ch.theirOutOfGameBalance < proposal.theirContribution) :
      Drained E ch (.queuedAcceptProposal gameId) (some (.cancelProposal gameId))
        (ch.withoutProposal gameId)
  | cancel (action : GameAction) (gameId : GameID)
      (haction : action = .queuedCancelProposal gameId ∨ action = .queuedCancelProposalSilently gameId)
      (h : ch.isGameProposed gameId = true) :
      Drained E ch action (some (.cancelProposal gameId)) (ch.withoutProposal gameId)
  | shutdown : Drained E ch .cleanShutdown none { ch with proposedGames := [] }

variable {E : ChannelEnv} {p p' : OffChainPhase} {ch : ChannelState} {d d' : Drain}

theorem removeProposal_eq_ok {text : String} {gameId : GameID} {u : Unit} {ch ch' : ChannelState}
    (h : ChannelState.removeProposal text gameId ch = .ok u ch') :
    ch.isGameProposed gameId = true ∧ ch' = ch.withoutProposal gameId := by
  rw [ChannelState.removeProposal, bind_of_ok (get_apply ch)] at h
  split_ifs at h with hproposed
  · cases h
    exact ⟨hproposed, rfl⟩
  · cases h

/-- What an action adds to a drain: it goes into the batch or not, or the batch becomes the last. -/
structure Drain.Adds (d d' : Drain) (action : GameAction) (out : Option BatchAction) : Prop where
  actions : d'.batchActions = d.batchActions ++ out.toList
  deferred : ∀ a ∈ d'.deferred, a ∈ d.deferred ∨ a.isPlay = true
  shutdown : action ≠ .cleanShutdown ∧ d'.cleanShutdownData = d.cleanShutdownData ∨
    action = .cleanShutdown ∧ d'.cleanShutdownData.isSome

/-- A step of a drain. -/
def DrainStep (E : ChannelEnv) (ch : ChannelState) (action : GameAction) (p p' : OffChainPhase)
    (d d' : Drain) : Prop :=
  ∃ out ch', Drained E ch action out ch' ∧ p' = { p with channelState := some ch' } ∧
    d.Adds d' action out

theorem Drain.adds_batch (d : Drain) {action : GameAction} (h : action ≠ .cleanShutdown)
    (out : BatchAction) : d.Adds (d.batch out) action (some out) :=
  ⟨rfl, fun _ ha => .inl ha, .inl ⟨h, rfl⟩⟩

theorem Drain.adds_notify_batch (d : Drain) (ns : List GameNotification) {action : GameAction}
    (h : action ≠ .cleanShutdown) (out : BatchAction) :
    d.Adds ((d.notify ns).batch out) action (some out) := ⟨rfl, fun _ ha => .inl ha, .inl ⟨h, rfl⟩⟩

theorem Drain.adds_defer (d : Drain) {action : GameAction} (h : action.isPlay = true) :
    d.Adds (d.defer action) action none := by
  refine ⟨by simp [Drain.defer], fun a ha => ?_, .inl ⟨?_, rfl⟩⟩
  · rcases List.mem_append.mp ha with ha | ha
    · exact .inl ha
    · rw [List.mem_singleton] at ha
      exact .inr (ha ▸ h)
  · rintro rfl
    cases h

theorem Drain.adds_notify (d : Drain) (ns : List GameNotification) {action : GameAction}
    (h : action ≠ .cleanShutdown) : d.Adds (d.notify ns) action none :=
  ⟨by simp [Drain.notify], fun _ ha => .inl ha, .inl ⟨h, rfl⟩⟩

theorem sendMoveNoFinalize_error {gameId : GameID} {readableMove : Clvm} {newEntropy : Hash}
    {e : Error} {ch ch' : ChannelState}
    (h : ChannelState.sendMoveNoFinalize E gameId readableMove newEntropy ch = .error e ch') :
    ch' = ch := by
  rw [ChannelState.sendMoveNoFinalize, bind_of_ok (get_apply ch)] at h
  cases hgame : ch.getGameById gameId with
  | error e' =>
    rw [hgame] at h
    cases h
    rfl
  | ok game =>
    rw [hgame, bind_of_ok (lift_ok _ _)] at h
    cases hmove : game.internalMakeMove E.toEnv readableMove newEntropy ch.stateNumber with
    | error e' =>
      rw [hmove] at h
      cases h
      rfl
    | ok moved =>
      rw [hmove] at h
      cases h

theorem drainMove_eq_ok {gameId : GameID} {readableMove : Clvm} {newEntropy : Hash}
    (hch : p.channelState = some ch)
    (h : drainMove E d gameId readableMove newEntropy p = .ok d' p') :
    DrainStep E ch (.move gameId readableMove newEntropy) p p' d d' := by
  have hsame : p = { p with channelState := some ch } := by rw [← hch]
  rw [drainMove, bind_of_ok (channel_of_some hch)] at h
  rcases ite_eq_ok.mp h with ⟨-, h⟩ | ⟨-, h⟩
  · cases h
    exact ⟨none, ch, .deferred _ rfl, hsame, d.adds_defer rfl⟩
  · dsimp only [onChannel] at h
    rw [hch] at h
    cases hmove : ChannelState.sendMoveNoFinalize E gameId readableMove newEntropy ch with
    | ok result ch' =>
      simp only [hmove] at h
      cases h
      exact ⟨_, ch', .move gameId readableMove newEntropy hmove, rfl, d.adds_batch (by simp) _⟩
    | error e ch' =>
      obtain rfl := sendMoveNoFinalize_error hmove
      simp only [hmove] at h
      cases e with
      | gameMoveRejected tag message =>
        cases h
        exact ⟨none, ch', .rejected _ _ _, rfl, d.adds_notify _ (by simp)⟩
      | strErr text values => cases h
      | channel text => cases h
      | clvmErr => cases h
      | panic => cases h

theorem drainCheat_eq_ok {gameId : GameID} {moverShare : ℕ} {entropy : Hash}
    (hch : p.channelState = some ch) (h : drainCheat E d gameId moverShare entropy p = .ok d' p') :
    DrainStep E ch (.cheat gameId moverShare entropy) p p' d d' := by
  have hsame : p = { p with channelState := some ch } := by rw [← hch]
  rw [drainCheat, bind_of_ok (channel_of_some hch)] at h
  rcases ite_eq_ok.mp h with ⟨-, h⟩ | ⟨-, h⟩
  · cases h
    exact ⟨none, ch, .deferred _ rfl, hsame, d.adds_defer rfl⟩
  · obtain ⟨enabled, p₁, hcheat, h⟩ := Act.bind_eq_ok.mp h
    obtain ⟨ch₀, ch₁, hch₀, henabled, rfl⟩ := onChannel_eq_ok_iff.mp hcheat
    obtain rfl := Option.some.inj (hch.symm.trans hch₀)
    obtain ⟨result, p₂, hmove, h⟩ := Act.bind_eq_ok.mp h
    obtain ⟨ch₁', ch₂, hch₁, hmoved, rfl⟩ := onChannel_eq_ok_iff.mp hmove
    cases hch₁
    cases h
    exact ⟨_, ch₂, .cheat gameId moverShare entropy henabled hmoved, rfl, d.adds_batch (by simp) _⟩

theorem drainAcceptProposal_eq_ok {gameId : GameID} (hch : p.channelState = some ch)
    (h : drainAcceptProposal d gameId p = .ok d' p') :
    DrainStep E ch (.queuedAcceptProposal gameId) p p' d d' := by
  rw [drainAcceptProposal, bind_of_ok (channel_of_some hch)] at h
  cases hfind : ch.findProposal gameId with
  | none =>
    rw [hfind] at h
    cases h
  | some proposal =>
    rw [hfind] at h
    dsimp only at h
    split_ifs at h with hparity hshort
    · cases h
    · obtain ⟨u, p₁, hcancel, h⟩ := Act.bind_eq_ok.mp h
      obtain ⟨ch₀, ch₁, hch₀, hremoved, rfl⟩ := onChannel_eq_ok_iff.mp hcancel
      obtain rfl := Option.some.inj (hch.symm.trans hch₀)
      obtain ⟨-, rfl⟩ := removeProposal_eq_ok hremoved
      cases h
      refine ⟨_, _, .short gameId proposal hfind (by simpa using hparity) ?_, rfl,
        d.adds_notify_batch _ (by simp) _⟩
      simpa using hshort
    · obtain ⟨u, p₁, haccept, h⟩ := Act.bind_eq_ok.mp h
      obtain ⟨ch₀, ch₁, hch₀, haccepted, rfl⟩ := onChannel_eq_ok_iff.mp haccept
      obtain rfl := Option.some.inj (hch.symm.trans hch₀)
      cases h
      have hcovered : proposal.myContribution ≤ ch.myOutOfGameBalance ∧
          proposal.theirContribution ≤ ch.theirOutOfGameBalance := by simpa using hshort
      exact ⟨_, ch₁, .accept gameId proposal hfind (by simpa using hparity) hcovered.1 hcovered.2
        haccepted, rfl, d.adds_notify_batch _ (by simp) _⟩

theorem drainCancelProposal_eq_ok {text : String} {gameId : GameID} {action : GameAction}
    {ns : List GameNotification}
    (haction : action = .queuedCancelProposal gameId ∨ action = .queuedCancelProposalSilently gameId)
    (hch : p.channelState = some ch) (h : drainCancelProposal text d gameId ns p = .ok d' p') :
    DrainStep E ch action p p' d d' := by
  rw [drainCancelProposal, bind_of_ok (channel_of_some hch)] at h
  split_ifs at h with hproposed
  · obtain ⟨u, p₁, hcancel, h⟩ := Act.bind_eq_ok.mp h
    obtain ⟨ch₀, ch₁, hch₀, hremoved, rfl⟩ := onChannel_eq_ok_iff.mp hcancel
    obtain rfl := Option.some.inj (hch.symm.trans hch₀)
    obtain ⟨-, rfl⟩ := removeProposal_eq_ok hremoved
    cases h
    refine ⟨_, _, .cancel action gameId haction hproposed, rfl, d.adds_notify_batch _ ?_ _⟩
    rcases haction with rfl | rfl
    · simp
    · simp
  · cases h

theorem drainCleanShutdown_eq_ok (hch : p.channelState = some ch)
    (h : drainCleanShutdown E d p = .ok d' p') : DrainStep E ch .cleanShutdown p p' d d' := by
  rw [drainCleanShutdown, bind_of_ok (channel_of_some hch)] at h
  split_ifs at h
  · cases h
  obtain ⟨ids, p₁, hcancel, h⟩ := Act.bind_eq_ok.mp h
  obtain ⟨ch₀, ch₁, hch₀, hcancelled, rfl⟩ := onChannel_eq_ok_iff.mp hcancel
  obtain rfl := Option.some.inj (hch.symm.trans hch₀)
  cases hcancelled
  rw [bind_of_ok (channel_of_some rfl)] at h
  obtain ⟨spend, p₂, hspend, h⟩ := Act.bind_eq_ok.mp h
  obtain ⟨-, rfl⟩ := lift_eq_ok.mp hspend
  cases h
  exact ⟨none, _, .shutdown, rfl, by simp [Drain.notify], fun _ ha => .inl ha, .inr ⟨rfl, rfl⟩⟩

theorem drainAction_eq_ok {action : GameAction} (hch : p.channelState = some ch)
    (h : drainAction E d action p = .ok d' p') : DrainStep E ch action p p' d d' := by
  cases action with
  | move gameId readableMove newEntropy => exact drainMove_eq_ok hch h
  | acceptSettlement gameId =>
    obtain ⟨amount, p₁, hsettle, h⟩ := Act.bind_eq_ok.mp h
    obtain ⟨ch₀, ch₁, hch₀, hsettled, rfl⟩ := onChannel_eq_ok_iff.mp hsettle
    obtain rfl := Option.some.inj (hch.symm.trans hch₀)
    cases h
    exact ⟨_, ch₁, .settle gameId hsettled, rfl, d.adds_batch (by simp) _⟩
  | cleanShutdown => exact drainCleanShutdown_eq_ok hch h
  | sendPotato => cases h
  | queuedProposalGroup myGames theirWire =>
    simp only [drainAction, drainProposalGroup, onChannel, hch] at h
    cases hpropose : each (fun game => do
        ChannelState.sendProposeGame E game theirWire.groupId
        pure ([] : List Unit)) myGames ch with
    | ok units ch' =>
      rw [hpropose] at h
      cases h
      exact ⟨_, ch', .propose myGames theirWire hpropose, rfl, d.adds_batch (by simp) _⟩
    | error e ch' =>
      rw [hpropose] at h
      cases h
  | queuedAcceptProposal gameId => exact drainAcceptProposal_eq_ok hch h
  | queuedCancelProposal gameId => exact drainCancelProposal_eq_ok (.inl rfl) hch h
  | queuedCancelProposalSilently gameId => exact drainCancelProposal_eq_ok (.inr rfl) hch h
  | cheat gameId moverShare entropy => exact drainCheat_eq_ok hch h

/-! The receipt of an action. -/

/-- The games that a player makes of a group it receives: those of its own factory, which say what
the group says. -/
structure Hydrated (wire : WireProposalGroup) (games : List GameStartInfo) : Prop where
  nodup : (wire.members.map WireGameSpec.gameId).Nodup
  head : (wire.members.map WireGameSpec.gameId).head? = some wire.groupId
  games : ∃ factory : List FactoryGame, factory.length = wire.members.length ∧
    (∀ pair ∈ factory.zip wire.members, pair.2 = pair.1.wireSpec pair.2.gameId) ∧
    games = (factory.zip (wire.members.map WireGameSpec.gameId)).map
      fun pair => pair.1.gameStart pair.2 wire.start.timeout false

theorem validateWireGroupStructure_eq_ok {wire : WireProposalGroup} {expected : ℕ}
    {ids : List GameID} (h : validateWireGroupStructure wire expected = .ok ids) :
    ids = wire.members.map WireGameSpec.gameId ∧ wire.members.length = expected ∧ ids.Nodup ∧
      ids.head? = some wire.groupId := by
  rw [validateWireGroupStructure] at h
  split_ifs at h with hlength hempty hnodup hhead
  cases h
  exact ⟨rfl, not_not.mp hlength, hnodup, not_not.mp hhead⟩

theorem keeps_factoryGames (start : GameProposal) :
    Keeps (fun p : OffChainPhase => p) (factoryGames E start) := by
  refine keeps_get.bind fun p => ?_
  split
  · exact keeps_throw _
  · exact keeps_throw _
  · exact keeps_lift _

theorem hydrateWireProposalGroup_eq_ok {wire : WireProposalGroup} {games : List GameStartInfo}
    (h : hydrateWireProposalGroup E wire p = .ok games p') : p' = p ∧ Hydrated wire games := by
  rw [hydrateWireProposalGroup] at h
  obtain ⟨factory, p₁, hfactory, hvalidate⟩ := Act.bind_eq_ok.mp h
  obtain rfl : p₁ = p := (keeps_factoryGames wire.start).ok hfactory
  obtain ⟨ids, p₂, hids, hmembers⟩ := Act.bind_eq_ok.mp hvalidate
  obtain ⟨hvalid, rfl⟩ := lift_eq_ok.mp hids
  obtain ⟨rfl, hlength, hnodup, hhead⟩ := validateWireGroupStructure_eq_ok hvalid
  rcases ite_eq_ok.mp hmembers with ⟨-, hmembers⟩ | ⟨hmatch, hmembers⟩
  · cases hmembers
  · cases hmembers
    refine ⟨rfl, hnodup, hhead, factory, hlength.symm, ?_, rfl⟩
    simpa [membersMatch] using hmatch

/-- Everything that the receipt of an action can do to the channel state. -/
inductive Applied (E : ChannelEnv) (gameTypes : List (Bytes × Option Clvm)) (ch : ChannelState) :
    BatchAction → ChannelState → Prop where
  | declined (wire : WireProposalGroup) (h : (gameTypes.lookup wire.start.gameType).isNone) :
      Applied E gameTypes ch (.proposeGroup wire) ch
  | proposed (wire : WireProposalGroup) (games : List GameStartInfo) {units : List Unit}
      {ch' : ChannelState} (hgames : Hydrated wire games)
      (h : Act.each (fun game => do
        ChannelState.applyReceivedProposal E game wire.groupId
        pure ([] : List Unit)) games ch = .ok units ch') :
      Applied E gameTypes ch (.proposeGroup wire) ch'
  | accepted (gameId : GameID) (proposal : ProposedGame)
      (hfind : ch.findProposal gameId = some proposal) (hparity : ch.isOurNonceParity gameId = true)
      (hmine : proposal.myContribution ≤ ch.myOutOfGameBalance)
      (htheirs : proposal.theirContribution ≤ ch.theirOutOfGameBalance) :
      Applied E gameTypes ch (.acceptProposal gameId) (ch.accepted proposal)
  | cancelled (gameId : GameID) (h : ch.isGameProposed gameId = true) :
      Applied E gameTypes ch (.cancelProposal gameId) (ch.withoutProposal gameId)
  | move (gameId : GameID) (gameMove : GameMoveDetails) {result : ChannelMoveResult}
      {ch' : ChannelState}
      (h : ChannelState.applyReceivedMove E gameId gameMove ch = .ok result ch') :
      Applied E gameTypes ch (.move gameId gameMove) ch'
  | settled (gameId : GameID) (amount : ℕ) {reward : ℕ × Bool} {ch' : ChannelState}
      (h : ChannelState.applyReceivedAcceptSettlement gameId ch = .ok reward ch') :
      Applied E gameTypes ch (.acceptSettlement gameId amount) ch'

/-- What the receipt of an action does to the queue. -/
inductive Requeued (queue : List GameAction) : BatchAction → List GameAction → Prop where
  | superseded (wire : WireProposalGroup) :
      Requeued queue (.proposeGroup wire) (queue.filter fun action => !isProposalGroup action)
  | finished (gameId : GameID) (gameMove : GameMoveDetails) :
      Requeued queue (.move gameId gameMove) (queue ++ [.acceptSettlement gameId])
  | same (action : BatchAction) (h : ∀ wire, action ≠ .proposeGroup wire) :
      Requeued queue action queue

/-- A step of the receipt of a batch. -/
def ApplyStep (E : ChannelEnv) (ch : ChannelState) (action : BatchAction) (p p' : OffChainPhase) :
    Prop :=
  ∃ ch' queue, Applied E p.gameTypes ch action ch' ∧ Requeued p.gameActionQueue action queue ∧
    p' = { p with channelState := some ch', gameActionQueue := queue }

theorem applyProposeGroup_eq_ok {wire : WireProposalGroup} {effects : List Effect}
    (hch : p.channelState = some ch) (h : applyProposeGroup E wire p = .ok effects p') :
    ApplyStep E ch (.proposeGroup wire) p p' := by
  rw [applyProposeGroup, bind_of_ok (get_apply p), bind_of_ok (modify_apply _ _),
    bind_of_ok (get_apply _)] at h
  rcases ite_eq_ok.mp h with ⟨hnone, h⟩ | ⟨-, h⟩
  · cases h
    exact ⟨ch, _, .declined wire hnone, .superseded wire, by rw [← hch]⟩
  · obtain ⟨games, p₁, hhydrate, h⟩ := Act.bind_eq_ok.mp h
    obtain ⟨rfl, hgames⟩ := hydrateWireProposalGroup_eq_ok hhydrate
    obtain ⟨units, p₂, hpropose, h⟩ := Act.bind_eq_ok.mp h
    obtain ⟨ch₀, ch₁, hch₀, hproposed, rfl⟩ := onChannel_eq_ok_iff.mp hpropose
    obtain rfl := Option.some.inj (hch.symm.trans hch₀)
    cases games with
    | nil => cases h
    | cons first rest =>
      cases h
      exact ⟨ch₁, _, .proposed wire _ hgames hproposed, .superseded wire, rfl⟩

theorem applyReceivedAcceptProposal_eq_ok {gameId : GameID} {u : Unit} {ch ch' : ChannelState}
    (h : ChannelState.applyReceivedAcceptProposal gameId ch = .ok u ch') :
    ∃ proposal, ch.findProposal gameId = some proposal ∧ ch.isOurNonceParity gameId = true ∧
      proposal.myContribution ≤ ch.myOutOfGameBalance ∧
      proposal.theirContribution ≤ ch.theirOutOfGameBalance ∧ ch' = ch.accepted proposal := by
  rw [ChannelState.applyReceivedAcceptProposal, bind_of_ok (get_apply ch)] at h
  split_ifs at h with hparity
  · rcases GameOp.acceptProposalInner_after ch gameId with
      ⟨u', hok, proposal, hfind, hmine, htheirs, heq⟩ | ⟨e, herror⟩
    · rw [hok] at h
      cases h
      exact ⟨proposal, hfind, hparity, hmine, htheirs, heq⟩
    · rw [herror] at h
      cases h
  · cases h

theorem applyBatchAction_eq_ok {action : BatchAction} {effects : List Effect}
    (hch : p.channelState = some ch) (h : applyBatchAction E action p = .ok effects p') :
    ApplyStep E ch action p p' := by
  cases action with
  | proposeGroup wire => exact applyProposeGroup_eq_ok hch h
  | acceptProposal gameId =>
    rw [applyBatchAction, bind_of_ok (channel_of_some hch)] at h
    cases hfind : ch.findProposal gameId with
    | none =>
      rw [hfind] at h
      cases h
    | some proposal =>
      rw [hfind] at h
      obtain ⟨u, p₁, haccept, h⟩ := Act.bind_eq_ok.mp h
      obtain ⟨ch₀, ch₁, hch₀, haccepted, rfl⟩ := onChannel_eq_ok_iff.mp haccept
      obtain rfl := Option.some.inj (hch.symm.trans hch₀)
      obtain ⟨proposal', hfind', hparity, hmine, htheirs, rfl⟩ :=
        applyReceivedAcceptProposal_eq_ok haccepted
      cases h
      exact ⟨_, _, .accepted gameId proposal' hfind' hparity hmine htheirs,
        .same _ (fun _ heq => by cases heq), rfl⟩
  | cancelProposal gameId =>
    obtain ⟨u, p₁, hcancel, h⟩ := Act.bind_eq_ok.mp h
    obtain ⟨ch₀, ch₁, hch₀, hremoved, rfl⟩ := onChannel_eq_ok_iff.mp hcancel
    obtain rfl := Option.some.inj (hch.symm.trans hch₀)
    obtain ⟨hproposed, rfl⟩ := removeProposal_eq_ok hremoved
    cases h
    exact ⟨_, _, .cancelled gameId hproposed, .same _ (fun _ heq => by cases heq), rfl⟩
  | move gameId gameMove =>
    obtain ⟨result, p₁, hmove, h⟩ := Act.bind_eq_ok.mp h
    obtain ⟨ch₀, ch₁, hch₀, hmoved, rfl⟩ := onChannel_eq_ok_iff.mp hmove
    obtain rfl := Option.some.inj (hch.symm.trans hch₀)
    rw [bind_of_ok (channel_of_some rfl)] at h
    obtain ⟨finished, p₂, hfinished, h⟩ := Act.bind_eq_ok.mp h
    obtain ⟨-, rfl⟩ := lift_eq_ok.mp hfinished
    rcases ite_eq_ok.mp h with ⟨-, h⟩ | ⟨-, h⟩
    · cases h
      exact ⟨ch₁, _, .move gameId gameMove hmoved, .finished gameId gameMove, rfl⟩
    · cases h
      exact ⟨ch₁, _, .move gameId gameMove hmoved, .same _ (fun _ heq => by cases heq), rfl⟩
  | acceptSettlement gameId amount =>
    obtain ⟨⟨reward, finished⟩, p₁, hsettle, h⟩ := Act.bind_eq_ok.mp h
    obtain ⟨ch₀, ch₁, hch₀, hsettled, rfl⟩ := onChannel_eq_ok_iff.mp hsettle
    obtain rfl := Option.some.inj (hch.symm.trans hch₀)
    cases h
    exact ⟨ch₁, _, .settled gameId amount hsettled, .same _ (fun _ heq => by cases heq), rfl⟩

end OffChainPhase

end ChiaGaming
