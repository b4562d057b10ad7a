import ChiaGaming.Channel.Frame
import ChiaGaming.Referee.Runs

namespace ChiaGaming

theorem amountCheckedSub_of_le {a b : ℕ} (h : b ≤ a) : amountCheckedSub a b = .ok (a - b) := if_pos h

theorem amountCheckedSub_of_not_le {a b : ℕ} (h : ¬ b ≤ a) :
    amountCheckedSub a b = .error (.strErr "Amount underflow" [.nat a, .nat b]) := if_neg h

/-! What a move makes of a game. -/

namespace LiveGame

variable {E : Env} {g moved : LiveGame}

/-- A game that has moved on: its referee and its coin are new. -/
def moveTo (E : Env) (g : LiveGame) (r : Referee) : LiveGame :=
  { g with refereeMaker := r, lastRefereePuzzleHash := r.outcomeRefereePuzzleHash E }

theorem internalMakeMove_eq_ok {readableMove : Clvm} {newEntropy : Hash} {n : ℕ}
    {wire : GameMoveWireData}
    (h : g.internalMakeMove E readableMove newEntropy n = .ok (moved, wire)) :
    ∃ r handler result t, g.refereeMaker = .myTurn r ∧ r.state.gameHandler = some handler ∧
      r.handlerResult E handler readableMove newEntropy = .ok result ∧
      moved = g.moveTo E (.theirTurn t) ∧ t.fixed = r.fixed ∧
      t.spendThisCoin = r.moveArgs E result ∧ wire.details = r.moveDetails E result := by
  rw [internalMakeMove] at h
  split at h
  · cases h
  obtain ⟨⟨next, wire'⟩, hmove, hok⟩ := bind_eq_ok.mp h
  cases hok
  cases href : g.refereeMaker with
  | theirTurn t =>
    rw [href] at hmove
    cases hmove
  | myTurn r =>
    rw [href] at hmove
    obtain ⟨handler, result, newState, hhandler, hresult, -, rfl, hdetails⟩ :=
      myTurnMakeMove_eq_ok hmove
    exact ⟨r, handler, result, _, rfl, hhandler, hresult, rfl, rfl, rfl, hdetails⟩

/-- A move that is not accepted leaves the game. -/
theorem internalTheirMove_eq_ok {gameMove : GameMoveDetails} {n : ℕ} {result : TheirTurnMoveResult}
    (h : g.internalTheirMove E gameMove n = .ok (moved, result)) :
    moved = g ∨ ∃ t r, g.refereeMaker = .theirTurn t ∧ moved = g.moveTo E (.myTurn r) ∧
      r.fixed = t.fixed ∧ r.spendThisCoin = t.theirArgs gameMove := by
  rw [internalTheirMove] at h
  split at h
  · cases h
  obtain ⟨⟨next, result'⟩, hmove, hok⟩ := bind_eq_ok.mp h
  cases next with
  | none =>
    cases hok
    exact .inl rfl
  | some r =>
    cases href : g.refereeMaker with
    | myTurn r =>
      rw [href] at hmove
      cases hmove
    | theirTurn t =>
      rw [href] at hmove
      obtain ⟨⟨next', result''⟩, hoff, hpure⟩ := bind_eq_ok.mp hmove
      cases next' with
      | none => cases hpure
      | some r' =>
        cases hpure
        cases hok
        obtain ⟨handler, newState, answer, -, -, -, -, rfl, rfl⟩ := theirTurnMoveOffChain_eq_some hoff
        exact .inr ⟨t, _, rfl, rfl, rfl, rfl⟩

end LiveGame

/-- The game with its coin that a proposal is for. -/
theorem ChannelState.newProposedGame_eq_ok {E : ChannelEnv} {ch : ChannelState}
    {startInfo : GameStartInfo} {groupId : GameID} {proposal : ProposedGame}
    (h : ch.newProposedGame E startInfo groupId = .ok proposal) :
    proposal.gameId = startInfo.gameId ∧ proposal.groupId = groupId ∧
      proposal.myContribution = startInfo.myContributionThisGame ∧
      proposal.theirContribution = startInfo.theirContributionThisGame ∧
      proposal.referee.fixed =
        initialFixedContext startInfo (ch.refereeParties E startInfo.gameId) ∧
      proposal.referee.spendThisCoin =
        initialPuzzleArgs E.toEnv startInfo (ch.refereeParties E startInfo.gameId) ∧
      proposal.initialPuzzleHash = proposal.referee.outcomeRefereePuzzleHash E.toEnv := by
  obtain ⟨⟨r, ph⟩, hnew, hok⟩ := bind_eq_ok.mp h
  cases hok
  rw [Referee.new] at hnew
  split at hnew
  · rw [MyTurnReferee.new, refereeInitialSetup_eq_ok] at hnew
    cases hnew
    exact ⟨rfl, rfl, rfl, rfl, rfl, rfl, rfl⟩
  · rw [TheirTurnReferee.new, refereeInitialSetup_eq_ok] at hnew
    cases hnew
    exact ⟨rfl, rfl, rfl, rfl, rfl, rfl, rfl⟩

/-- What the checks on a received proposal make sure of. -/
theorem ChannelState.checkReceivedProposal_eq_ok_iff {ch : ChannelState} {startInfo : GameStartInfo} :
    ch.checkReceivedProposal startInfo = .ok () ↔
      startInfo.gameId % 2 = ch.theirNextNonce % 2 ∧ ch.theirNextNonce ≤ startInfo.gameId ∧
      startInfo.gameId ≤ ch.theirNextNonce + maxNonceGap ∧
      startInfo.myContributionThisGame + startInfo.theirContributionThisGame < 2 ^ 64 ∧
      startInfo.amount = startInfo.myContributionThisGame + startInfo.theirContributionThisGame ∧
      startInfo.timeout ≠ 0 ∧ ch.proposedGames.length < maxProposals := by
  rw [checkReceivedProposal]
  split_ifs with h₁ h₂ h₃ h₄ h₅ h₆ h₇
  all_goals simp only [false_iff, true_iff]
  all_goals omega

namespace ChannelState

/-- A proposal becomes a game, and its contributions leave the balances. -/
def accepted (ch : ChannelState) (proposal : ProposedGame) : ChannelState :=
  { ch.withoutProposal proposal.gameId with
    myAllocatedBalance := ch.myAllocatedBalance + proposal.myContribution
    theirAllocatedBalance := ch.theirAllocatedBalance + proposal.theirContribution
    myOutOfGameBalance := ch.myOutOfGameBalance - proposal.myContribution
    theirOutOfGameBalance := ch.theirOutOfGameBalance - proposal.theirContribution
    liveGames := ch.liveGames ++ [ofProposal proposal] }

/-- A game ends, and its amount goes to the balances. -/
def settled (ch : ChannelState) (game : LiveGame) (forMe : ℕ) : ChannelState :=
  { ch.withoutGame game.gameId with
    myAllocatedBalance := ch.myAllocatedBalance - game.myContribution
    theirAllocatedBalance := ch.theirAllocatedBalance - game.theirContribution
    myOutOfGameBalance := ch.myOutOfGameBalance + forMe
    theirOutOfGameBalance := ch.theirOutOfGameBalance + (game.getAmount - forMe)
    pendingSettlements := ch.pendingSettlements ++ [game] }

/-- The subtractions of a settlement go through. -/
structure Covers (ch : ChannelState) (game : LiveGame) : Prop where
  mine : game.myContribution ≤ ch.myAllocatedBalance
  theirs : game.theirContribution ≤ ch.theirAllocatedBalance
  share : game.refereeMaker.spendThisCoin.gameMove.basic.moverShare ≤ game.getAmount

end ChannelState

namespace GameOp

open Act

variable {E : ChannelEnv}

/-- Everything that an operation can do to the channel state. -/
inductive Booked (E : ChannelEnv) (ch : ChannelState) : GameOp → ChannelState → Prop where
  | same (op : GameOp) (cached : List CachedRedoActions) :
      Booked E ch op { ch with cachedRedoActions := cached }
  | proposed (startInfo : GameStartInfo) (groupId : GameID) (proposal : ProposedGame)
      (h : ch.newProposedGame E startInfo groupId = .ok proposal) :
      Booked E ch (.sendProposeGame startInfo groupId)
        { ch with proposedGames := ch.proposedGames ++ [proposal] }
  | received (startInfo : GameStartInfo) (groupId : GameID) (proposal : ProposedGame)
      (hcheck : ch.checkReceivedProposal startInfo = .ok ())
      (h : ch.newProposedGame E startInfo groupId = .ok proposal) :
      Booked E ch (.applyReceivedProposal startInfo groupId)
        { ch with
          theirNextNonce := startInfo.gameId + 2
          proposedGames := ch.proposedGames ++ [proposal] }
  | accepted (op : GameOp) (gameId : GameID) (proposal : ProposedGame)
      (cached : List CachedRedoActions)
      (hop : op = .sendAcceptProposal gameId ∨
        op = .applyReceivedAcceptProposal gameId ∧ ch.isOurNonceParity gameId = true)
      (h : ch.findProposal gameId = some proposal)
      (hmine : proposal.myContribution ≤ ch.myOutOfGameBalance)
      (htheirs : proposal.theirContribution ≤ ch.theirOutOfGameBalance) :
      Booked E ch op { ch.accepted proposal with cachedRedoActions := cached }
  | removed (op : GameOp) (gameId : GameID)
      (hop : op = .sendCancelProposal gameId ∨ op = .receivedCancelProposal gameId) :
      Booked E ch op (ch.withoutProposal gameId)
  | cancelled : Booked E ch .cancelAllProposals { ch with proposedGames := [] }
  | allocated : Booked E ch .allocateMyNonce { ch with myNextNonce := ch.myNextNonce + 2 }
  | moved (gameId : GameID) (readableMove : Clvm) (newEntropy : Hash) (game moved : LiveGame)
      (result : GameMoveWireData) (cached : List CachedRedoActions)
      (hgame : ch.findLiveGame gameId = some game)
      (h : game.internalMakeMove E.toEnv readableMove newEntropy ch.stateNumber =
        .ok (moved, result)) :
      Booked E ch (.sendMoveNoFinalize gameId readableMove newEntropy)
        { ch with liveGames := putGame moved ch.liveGames, cachedRedoActions := cached }
  | theirMove (gameId : GameID) (gameMove : GameMoveDetails) (game moved : LiveGame)
      (result : TheirTurnMoveResult) (hgame : ch.findLiveGame gameId = some game)
      (hshare : gameMove.basic.moverShare ≤ game.getAmount)
      (h : game.internalTheirMove E.toEnv gameMove ch.stateNumber = .ok (moved, result)) :
      Booked E ch (.applyReceivedMove gameId gameMove)
        { ch with liveGames := putGame moved ch.liveGames }
  | cheated (gameId : GameID) (makeMove : Bytes) (moverShare : ℕ) (game : LiveGame)
      (hgame : ch.findLiveGame gameId = some game) :
      Booked E ch (.enableCheatingForGame gameId makeMove moverShare)
        { ch with liveGames := putGame (game.enableCheating makeMove moverShare).1 ch.liveGames }
  | settled (op : GameOp) (gameId : GameID) (game : LiveGame) (forMe : ℕ)
      (cached : List CachedRedoActions)
      (hop : op = .sendAcceptSettlementNoFinalize gameId ∨ op = .applyReceivedAcceptSettlement gameId)
      (hgame : ch.findLiveGame gameId = some game) (hcovers : ch.Covers game)
      (hshare : game.getOurCurrentShare = .ok forMe) :
      Booked E ch op { ch.settled game forMe with cachedRedoActions := cached }
  -- a settlement that fails on the way leaves what it has done so far
  | broken (op : GameOp) (gameId : GameID) (game : LiveGame)
      (hop : op = .sendAcceptSettlementNoFinalize gameId ∨ op = .applyReceivedAcceptSettlement gameId)
      (hgame : ch.findLiveGame gameId = some game) (hcovers : ¬ ch.Covers game)
      (liveGames pendingSettlements : List LiveGame) (mine myAllocated theirAllocated : ℕ)
      (hlive : liveGames = ch.liveGames ∨ liveGames = (ch.withoutGame gameId).liveGames)
      (hpending : pendingSettlements = ch.pendingSettlements ∨
        liveGames = (ch.withoutGame gameId).liveGames ∧
          pendingSettlements = ch.pendingSettlements ++ [game]) :
      Booked E ch op { ch with
        liveGames
        pendingSettlements
        myOutOfGameBalance := mine
        myAllocatedBalance := myAllocated
        theirAllocatedBalance := theirAllocated }

theorem findProposal_gameId {ch : ChannelState} {gameId : GameID} {proposal : ProposedGame}
    (h : ch.findProposal gameId = some proposal) : proposal.gameId = gameId := by
  simpa using List.find?_some h

theorem findLiveGame_gameId {ch : ChannelState} {gameId : GameID} {game : LiveGame}
    (h : ch.findLiveGame gameId = some game) : game.gameId = gameId := by
  simpa using List.find?_some h

theorem getGameById_eq_ok {ch : ChannelState} {gameId : GameID} {game : LiveGame} :
    ch.getGameById gameId = .ok game ↔ ch.findLiveGame gameId = some game := by
  rw [ChannelState.getGameById]
  cases ch.findLiveGame gameId with
  | none => simp [orError]
  | some g => simp [orError]

variable (ch : ChannelState)

theorem booked_same (op : GameOp) : Booked E ch op ch := .same op ch.cachedRedoActions

theorem booked_sendProposeGame (startInfo : GameStartInfo) (groupId : GameID) :
    Booked E ch (.sendProposeGame startInfo groupId)
      ((ChannelState.sendProposeGame E startInfo groupId).after ch) := by
  rw [after, ChannelState.sendProposeGame, bind_of_ok (get_apply ch)]
  cases h : ch.newProposedGame E startInfo groupId with
  | error e => exact booked_same ch _
  | ok proposal => exact .proposed startInfo groupId proposal h

theorem booked_applyReceivedProposal (startInfo : GameStartInfo) (groupId : GameID) :
    Booked E ch (.applyReceivedProposal startInfo groupId)
      ((ChannelState.applyReceivedProposal E startInfo groupId).after ch) := by
  rw [after, ChannelState.applyReceivedProposal, bind_of_ok (get_apply ch)]
  cases hcheck : ch.checkReceivedProposal startInfo with
  | error e => exact booked_same ch _
  | ok u =>
    rw [bind_of_ok (lift_ok _ _)]
    cases h : ch.newProposedGame E startInfo groupId with
    | error e => exact booked_same ch _
    | ok proposal => exact .received startInfo groupId proposal hcheck h

/-- A proposal is accepted or nothing changes. -/
theorem acceptProposalInner_after (gameId : GameID) :
    (∃ u, ChannelState.acceptProposalInner gameId ch = .ok u
        ((ChannelState.acceptProposalInner gameId).after ch) ∧
      ∃ proposal, ch.findProposal gameId = some proposal ∧
        proposal.myContribution ≤ ch.myOutOfGameBalance ∧
        proposal.theirContribution ≤ ch.theirOutOfGameBalance ∧
        (ChannelState.acceptProposalInner gameId).after ch = ch.accepted proposal) ∨
      ∃ e, ChannelState.acceptProposalInner gameId ch = .error e ch := by
  simp only [after, ChannelState.acceptProposalInner, bind_apply, get_apply]
  cases h : ch.findProposal gameId with
  | none => exact .inr ⟨_, rfl⟩
  | some proposal =>
    dsimp only
    split_ifs with hshort
    · exact .inr ⟨_, rfl⟩
    · obtain ⟨hmine, htheirs⟩ := not_or.mp hshort
      refine .inl ⟨_, rfl, proposal, rfl, not_lt.mp hmine, not_lt.mp htheirs, ?_⟩
      rw [ChannelState.accepted, findProposal_gameId h]
      rfl

theorem booked_sendAcceptProposal (gameId : GameID) :
    Booked E ch (.sendAcceptProposal gameId) ((ChannelState.sendAcceptProposal gameId).after ch) := by
  rw [after, ChannelState.sendAcceptProposal]
  rcases acceptProposalInner_after ch gameId with
    ⟨u, hok, proposal, h, hmine, htheirs, heq⟩ | ⟨e, herror⟩
  · rw [bind_of_ok hok, heq]
    exact .accepted _ gameId proposal _ (.inl rfl) h hmine htheirs
  · rw [bind_of_error herror]
    exact booked_same ch _

theorem booked_applyReceivedAcceptProposal (gameId : GameID) :
    Booked E ch (.applyReceivedAcceptProposal gameId)
      ((ChannelState.applyReceivedAcceptProposal gameId).after ch) := by
  rw [after, ChannelState.applyReceivedAcceptProposal, bind_of_ok (get_apply ch)]
  by_cases hparity : ch.isOurNonceParity gameId = true
  · rw [if_neg (not_not.mpr hparity)]
    rcases acceptProposalInner_after ch gameId with
      ⟨u, hok, proposal, h, hmine, htheirs, heq⟩ | ⟨e, herror⟩
    · rw [hok, heq]
      exact .accepted _ gameId proposal (ch.accepted proposal).cachedRedoActions
        (.inr ⟨rfl, hparity⟩) h hmine htheirs
    · rw [herror]
      exact booked_same ch _
  · rw [if_pos hparity]
    exact booked_same ch _

theorem booked_removeProposal {op : GameOp} {gameId : GameID} (text : String)
    (hop : op = .sendCancelProposal gameId ∨ op = .receivedCancelProposal gameId) :
    Booked E ch op ((ChannelState.removeProposal text gameId).after ch) := by
  rw [after, ChannelState.removeProposal, bind_of_ok (get_apply ch)]
  split_ifs
  · exact .removed op gameId hop
  · exact booked_same ch _

theorem booked_sendMoveNoFinalize (gameId : GameID) (readableMove : Clvm) (newEntropy : Hash) :
    Booked E ch (.sendMoveNoFinalize gameId readableMove newEntropy)
      ((ChannelState.sendMoveNoFinalize E gameId readableMove newEntropy).after ch) := by
  rw [after, ChannelState.sendMoveNoFinalize, bind_of_ok (get_apply ch)]
  cases hgame : ch.getGameById gameId with
  | error e => exact booked_same ch _
  | ok game =>
    rw [bind_of_ok (lift_ok _ _)]
    cases h : game.internalMakeMove E.toEnv readableMove newEntropy ch.stateNumber with
    | error e => exact booked_same ch _
    | ok moved =>
      exact .moved gameId readableMove newEntropy game moved.1 moved.2 _
        (getGameById_eq_ok.mp hgame) h

theorem booked_applyReceivedMove (gameId : GameID) (gameMove : GameMoveDetails) :
    Booked E ch (.applyReceivedMove gameId gameMove)
      ((ChannelState.applyReceivedMove E gameId gameMove).after ch) := by
  rw [after, ChannelState.applyReceivedMove, bind_of_ok (get_apply ch)]
  cases hgame : ch.getGameById gameId with
  | error e => exact booked_same ch _
  | ok game =>
    rw [bind_of_ok (lift_ok _ _)]
    split_ifs with hshare hsize
    · exact booked_same ch _
    · exact booked_same ch _
    · cases h : game.internalTheirMove E.toEnv gameMove ch.stateNumber with
      | error e => exact booked_same ch _
      | ok moved =>
        obtain ⟨moved, result⟩ := moved
        have hbooked := Booked.theirMove gameId gameMove game moved result
          (getGameById_eq_ok.mp hgame) (not_lt.mp hshare) h
        rw [bind_of_ok (lift_ok _ _)]
        dsimp only
        rw [bind_of_ok (set_apply _ _)]
        split_ifs
        · exact hbooked
        · exact hbooked

theorem booked_enableCheatingForGame (gameId : GameID) (makeMove : Bytes) (moverShare : ℕ) :
    Booked E ch (.enableCheatingForGame gameId makeMove moverShare)
      ((ChannelState.enableCheatingForGame gameId makeMove moverShare).after ch) := by
  rw [after, ChannelState.enableCheatingForGame, bind_of_ok (get_apply ch)]
  cases hgame : ch.getGameById gameId with
  | error e => exact booked_same ch _
  | ok game => exact .cheated gameId makeMove moverShare game (getGameById_eq_ok.mp hgame)

/-- The steps of a settlement that we send, once the game is found and it is our turn. -/
theorem booked_sendAcceptSettlementNoFinalize (gameId : GameID) :
    Booked E ch (.sendAcceptSettlementNoFinalize gameId)
      ((ChannelState.sendAcceptSettlementNoFinalize gameId).after ch) := by
  rw [after, ChannelState.sendAcceptSettlementNoFinalize, bind_of_ok (get_apply ch)]
  split_ifs with hpotato
  swap
  · exact booked_same ch _
  rw [bind_of_ok (get_apply ch)]
  cases hgame : ch.getGameById gameId with
  | error e => exact booked_same ch _
  | ok game =>
    have hfind := getGameById_eq_ok.mp hgame
    rw [bind_of_ok (lift_ok _ _)]
    split_ifs with hturn
    swap
    · exact booked_same ch _
    have hshare : game.getOurCurrentShare =
        .ok game.refereeMaker.spendThisCoin.gameMove.basic.moverShare := by
      rw [LiveGame.getOurCurrentShare, Referee.getOurCurrentShare, if_pos]
      exact hturn
    rw [bind_of_ok (modify_apply _ _), bind_of_ok (get_apply _)]
    by_cases hmine : game.myContribution ≤ (ch.withoutGame gameId).myAllocatedBalance
    swap
    · rw [amountCheckedSub_of_not_le hmine]
      exact .broken _ gameId game (.inl rfl) hfind (fun h => hmine h.mine) _ _ _ _ _ (.inr rfl)
        (.inl rfl)
    rw [amountCheckedSub_of_le hmine, bind_of_ok (lift_ok _ _), bind_of_ok (modify_apply _ _),
      bind_of_ok (get_apply _)]
    by_cases htheirs : game.theirContribution ≤ (ch.withoutGame gameId).theirAllocatedBalance
    swap
    · rw [amountCheckedSub_of_not_le htheirs]
      exact .broken _ gameId game (.inl rfl) hfind (fun h => htheirs h.theirs) _ _ _ _ _ (.inr rfl)
        (.inl rfl)
    rw [amountCheckedSub_of_le htheirs, bind_of_ok (lift_ok _ _), bind_of_ok (modify_apply _ _),
      hshare, bind_of_ok (lift_ok _ _), bind_of_ok (modify_apply _ _)]
    by_cases hcovered : game.refereeMaker.spendThisCoin.gameMove.basic.moverShare ≤ game.getAmount
    swap
    · rw [amountCheckedSub_of_not_le hcovered]
      exact .broken _ gameId game (.inl rfl) hfind (fun h => hcovered h.share) _ _ _ _ _ (.inr rfl)
        (.inr ⟨rfl, rfl⟩)
    rw [amountCheckedSub_of_le hcovered, bind_of_ok (lift_ok _ _), bind_of_ok (modify_apply _ _)]
    have hid := findLiveGame_gameId hfind
    subst hid
    exact .settled _ game.gameId game _ _ (.inl rfl) hfind ⟨hmine, htheirs, hcovered⟩ hshare

theorem booked_applyReceivedAcceptSettlement (gameId : GameID) :
    Booked E ch (.applyReceivedAcceptSettlement gameId)
      ((ChannelState.applyReceivedAcceptSettlement gameId).after ch) := by
  rw [after, ChannelState.applyReceivedAcceptSettlement, bind_of_ok (get_apply ch)]
  cases hgame : ch.getGameById gameId with
  | error e => exact booked_same ch _
  | ok game =>
    have hfind := getGameById_eq_ok.mp hgame
    rw [bind_of_ok (lift_ok _ _)]
    split_ifs with hturn
    · exact booked_same ch _
    have hshare : game.getOurCurrentShare = amountCheckedSub game.getAmount
        game.refereeMaker.spendThisCoin.gameMove.basic.moverShare := by
      rw [LiveGame.getOurCurrentShare, Referee.getOurCurrentShare, if_neg]
      · rfl
      · exact hturn
    by_cases hcovered : game.refereeMaker.spendThisCoin.gameMove.basic.moverShare ≤ game.getAmount
    swap
    · rw [hshare, amountCheckedSub_of_not_le hcovered]
      exact booked_same ch _
    rw [amountCheckedSub_of_le hcovered] at hshare
    rw [hshare, bind_of_ok (lift_ok _ _), amountCheckedSub_of_le (Nat.sub_le _ _),
      bind_of_ok (lift_ok _ _), bind_of_ok (get_apply _)]
    by_cases hmine : game.myContribution ≤ ch.myAllocatedBalance
    swap
    · rw [amountCheckedSub_of_not_le hmine]
      exact booked_same ch _
    rw [amountCheckedSub_of_le hmine, bind_of_ok (lift_ok _ _), bind_of_ok (modify_apply _ _),
      bind_of_ok (get_apply _)]
    by_cases htheirs : game.theirContribution ≤ ch.theirAllocatedBalance
    swap
    · rw [amountCheckedSub_of_not_le htheirs]
      exact .broken _ gameId game (.inr rfl) hfind (fun h => htheirs h.theirs) _ _ _ _ _ (.inl rfl)
        (.inl rfl)
    rw [amountCheckedSub_of_le htheirs, bind_of_ok (lift_ok _ _), bind_of_ok (modify_apply _ _),
      bind_of_ok (modify_apply _ _)]
    have hid := findLiveGame_gameId hfind
    subst hid
    exact .settled _ game.gameId game _ _ (.inr rfl) hfind ⟨hmine, htheirs, hcovered⟩ hshare

theorem booked_step (op : GameOp) : Booked E ch op (step E ch op) := by
  cases op with
  | sendProposeGame startInfo groupId => exact booked_sendProposeGame ch startInfo groupId
  | applyReceivedProposal startInfo groupId => exact booked_applyReceivedProposal ch startInfo groupId
  | sendAcceptProposal gameId => exact booked_sendAcceptProposal ch gameId
  | applyReceivedAcceptProposal gameId => exact booked_applyReceivedAcceptProposal ch gameId
  | sendCancelProposal gameId => exact booked_removeProposal ch _ (.inl rfl)
  | receivedCancelProposal gameId => exact booked_removeProposal ch _ (.inr rfl)
  | cancelAllProposals => exact .cancelled
  | allocateMyNonce => exact .allocated
  | sendMoveNoFinalize gameId readableMove newEntropy =>
    exact booked_sendMoveNoFinalize ch gameId readableMove newEntropy
  | applyReceivedMove gameId gameMove => exact booked_applyReceivedMove ch gameId gameMove
  | enableCheatingForGame gameId makeMove moverShare =>
    exact booked_enableCheatingForGame ch gameId makeMove moverShare
  | sendAcceptSettlementNoFinalize gameId => exact booked_sendAcceptSettlementNoFinalize ch gameId
  | applyReceivedAcceptSettlement gameId => exact booked_applyReceivedAcceptSettlement ch gameId
  | drainCachedAcceptSettlements => exact .same _ _

end GameOp

end ChiaGaming
