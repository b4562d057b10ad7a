import ChiaGaming.OnChain.Coins
import ChiaGaming.OnChain.Steps
import ChiaGaming.Session.Handover

namespace ChiaGaming

open Act

/-! The moves that a channel state would make again on chain. -/

def CachedRedoActions.isAcceptSettlement : CachedRedoActions → Bool
  | .cachedAcceptSettlement _ => true
  | _ => false

/-- A move of ours: the referee keeps the coin that it was made on, and how. -/
theorem myTurnMakeMove_made {E : Env} {r : MyTurnReferee} {readableMove : Clvm} {newEntropy : Hash}
    {n : ℕ} {next : Referee} {wire : GameMoveWireData}
    (h : r.myTurnMakeMove E readableMove newEntropy n = .ok (next, wire)) :
    ∃ t d, next = .theirTurn t ∧ t.fixed = r.fixed ∧ t.argsForThisCoin = r.spendThisCoin ∧
      t.state.moveSpend = some d ∧ d.beforeArgs = r.spendThisCoin ∧
      wire.puzzleHashForUnroll =
        curryRefereePuzzleHash E r.fixed.refereeCoinPuzzleHash r.spendThisCoin := by
  rw [MyTurnReferee.myTurnMakeMove] at h
  split at h
  · cases h
  obtain ⟨result, -, h⟩ := bind_eq_ok.mp h
  split at h
  · cases h
  obtain ⟨newState, -, h⟩ := bind_eq_ok.mp h
  cases h
  exact ⟨_, _, rfl, rfl, rfl, rfl, rfl, rfl⟩

/-- The game has made the move: its referee is the one that was saved with it, and the coin that the
move was made on was ours to move. -/
structure CachedSendMove.Replays (E : ChannelEnv) (m : CachedSendMove) (g : LiveGame)
    (t : TheirTurnReferee) : Prop where
  referee : g.refereeMaker = .theirTurn t
  saved : m.savedPostMoveReferee = some (.theirTurn t)
  lastPh : m.savedPostMoveLastPh = some g.lastRefereePuzzleHash
  coin : m.matchPuzzleHash = (Referee.theirTurn t).onChainRefereePuzzleHash E.toEnv
  mover : t.argsForThisCoin.moverPubkey = t.fixed.myIdentity.publicKey
  moveSpend : ∃ d, t.state.moveSpend = some d ∧ d.beforeArgs = t.argsForThisCoin

namespace ChannelState

variable {E : ChannelEnv} {ch ch' : ChannelState}

/-- Each move on record is the last one of its game. -/
def Replayable (E : ChannelEnv) (ch : ChannelState) : Prop :=
  ∀ m ∈ ch.cachedMoves, ∃ g t, ch.findLiveGame m.gameId = some g ∧ m.Replays E g t

theorem findLiveGame_putGame {game g : LiveGame} (h : ch.findLiveGame game.gameId = some g) :
    findLiveGame { ch with liveGames := putGame game ch.liveGames } game.gameId = some game :=
  find_putGame h

theorem findLiveGame_putGame_of_ne {game : LiveGame} {id : GameID} (h : id ≠ game.gameId) :
    findLiveGame { ch with liveGames := putGame game ch.liveGames } id = ch.findLiveGame id :=
  find_putGame_of_ne h

theorem findLiveGame_withoutGame {gameId id : GameID} (h : id ≠ gameId) :
    (ch.withoutGame gameId).findLiveGame id = ch.findLiveGame id := by
  rw [findLiveGame, findLiveGame, withoutGame]
  dsimp only
  induction ch.liveGames with
  | nil => rfl
  | cons g games ih =>
    by_cases hid : g.gameId = gameId
    · rw [List.eraseP_cons_of_pos (by simpa using hid),
        List.find?_cons_of_neg (by simpa [hid] using h.symm)]
    · rw [List.eraseP_cons_of_neg (by simpa using hid), List.find?_cons, List.find?_cons, ih]

/-- Games that wait for the opponent stay in their places. -/
theorem Replayable.of_find (h : ch.Replayable E) (hmoves : ch'.cachedMoves = ch.cachedMoves)
    (hfind : ∀ id g, ch.findLiveGame id = some g → g.isMyTurn = false →
      ch'.findLiveGame id = some g) : ch'.Replayable E := by
  intro m hm
  rw [hmoves] at hm
  obtain ⟨g, t, hg, hreplays⟩ := h m hm
  refine ⟨g, t, hfind _ g hg ?_, hreplays⟩
  rw [LiveGame.isMyTurn, hreplays.referee]
  rfl

theorem sendMoveNoFinalize_eq_ok {gameId : GameID} {readableMove : Clvm} {newEntropy : Hash}
    {result : MoveResult} (h : sendMoveNoFinalize E gameId readableMove newEntropy ch = .ok result ch') :
    ∃ game r next wire, ch.findLiveGame gameId = some game ∧ game.refereeMaker = .myTurn r ∧
      r.myTurnMakeMove E.toEnv readableMove newEntropy ch.stateNumber = .ok (next, wire) ∧
      ch' = { ch with
        liveGames := putGame (game.moveTo E.toEnv next) ch.liveGames
        cachedRedoActions := ch.cachedRedoActions ++ [.cachedSendMove {
          stateNumber := ch.stateNumber
          gameId
          matchPuzzleHash := wire.puzzleHashForUnroll
          puzzleHash := wire.puzzleHashForUnroll
          amount := wire.details.basic.moverShare
          savedPostMoveReferee := some next
          savedPostMoveLastPh := some (next.outcomeRefereePuzzleHash E.toEnv) }] } := by
  rw [sendMoveNoFinalize, bind_of_ok (get_apply ch)] at h
  obtain ⟨game, ch₁, hgame, h⟩ := Act.bind_eq_ok.mp h
  obtain ⟨hfind, rfl⟩ := lift_eq_ok.mp hgame
  obtain ⟨⟨moved, wire⟩, ch₂, hmove, h⟩ := Act.bind_eq_ok.mp h
  obtain ⟨hmoved, rfl⟩ := lift_eq_ok.mp hmove
  obtain ⟨r, next, href, hnext, rfl⟩ := LiveGame.internalMakeMove_moveTo hmoved
  cases h
  exact ⟨game, r, next, wire, GameOp.getGameById_eq_ok.mp hfind, href, hnext, rfl⟩

theorem enableCheatingForGame_eq_ok {gameId : GameID} {makeMove : Bytes} {moverShare : ℕ}
    {enabled : Bool} (h : enableCheatingForGame gameId makeMove moverShare ch = .ok enabled ch') :
    ∃ game, ch.findLiveGame gameId = some game ∧
      ch' = { ch with
        liveGames := putGame (game.enableCheating makeMove moverShare).1 ch.liveGames } := by
  rw [enableCheatingForGame, bind_of_ok (get_apply ch)] at h
  obtain ⟨game, ch₁, hgame, h⟩ := Act.bind_eq_ok.mp h
  obtain ⟨hfind, rfl⟩ := lift_eq_ok.mp hgame
  cases h
  exact ⟨game, GameOp.getGameById_eq_ok.mp hfind, rfl⟩

theorem enableCheatingForGame_eq_error {gameId : GameID} {makeMove : Bytes} {moverShare : ℕ}
    {e : Error} (h : enableCheatingForGame gameId makeMove moverShare ch = .error e ch') : ch' = ch := by
  rw [enableCheatingForGame, bind_of_ok (get_apply ch)] at h
  rcases Act.bind_eq_error.mp h with hget | ⟨game, ch₂, -, hset⟩
  · cases hgame : ch.getGameById gameId with
    | ok game =>
      rw [hgame] at hget
      cases hget
    | error e =>
      rw [hgame] at hget
      cases hget
      rfl
  · cases hset

theorem cachedMoves_append (ch : ChannelState) (entries : List CachedRedoActions) :
    cachedMoves { ch with cachedRedoActions := ch.cachedRedoActions ++ entries } =
      ch.cachedMoves ++ entries.filterMap sentMove? := List.filterMap_append

/-! Each action of a drain keeps the moves on record and their games together. -/

theorem Replayable.move (hseated : ch.Seated E) (h : ch.Replayable E) {gameId : GameID}
    {readableMove : Clvm} {newEntropy : Hash} {result : MoveResult}
    (hmove : sendMoveNoFinalize E gameId readableMove newEntropy ch = .ok result ch') :
    ch'.Replayable E := by
  obtain ⟨game, r, next, wire, hfind, href, hnext, rfl⟩ := sendMoveNoFinalize_eq_ok hmove
  obtain rfl := GameOp.findLiveGame_gameId hfind
  have hreferee := (hseated.live game (List.mem_of_find?_eq_some hfind)).referee
  rw [href] at hreferee
  have hmover : r.spendThisCoin.moverPubkey = r.fixed.myIdentity.publicKey := hreferee.mover.1
  obtain ⟨t, d, rfl, hfixed, hargs, hspend, hbefore, hwire⟩ := myTurnMakeMove_made hnext
  intro m hm
  have hm' : m ∈ ch.cachedMoves ++ _ := (cachedMoves_append ch _) ▸ hm
  rcases List.mem_append.mp hm' with hm | hm
  · obtain ⟨g, t', hg, hreplays⟩ := h m hm
    refine ⟨g, t', ?_, hreplays⟩
    have hne : m.gameId ≠ (game.moveTo E.toEnv (.theirTurn t)).gameId := by
      intro heq
      obtain rfl : g = game := Option.some.inj (hg.symm.trans (heq ▸ hfind))
      have hturn := hreplays.referee
      rw [href] at hturn
      cases hturn
    exact (findLiveGame_putGame_of_ne hne).trans hg
  · obtain rfl := List.mem_singleton.mp hm
    refine ⟨_, t, @findLiveGame_putGame _ (game.moveTo E.toEnv (.theirTurn t)) _ hfind, rfl, rfl,
      rfl, ?_, ?_, d, hspend, hbefore.trans hargs.symm⟩
    · rw [Referee.onChainRefereePuzzleHash, Referee.fixed, hfixed, Referee.argsForThisCoin, hargs]
      exact hwire
    · rw [hargs, hfixed]
      exact hmover

theorem Replayable.cheat (h : ch.Replayable E) {gameId : GameID} {makeMove : Bytes} {moverShare : ℕ}
    {enabled : Bool} (hcheat : enableCheatingForGame gameId makeMove moverShare ch = .ok enabled ch') :
    ch'.Replayable E := by
  obtain ⟨game, hfind, rfl⟩ := enableCheatingForGame_eq_ok hcheat
  obtain rfl := GameOp.findLiveGame_gameId hfind
  refine h.of_find rfl fun id g hg hturn => ?_
  cases href : game.refereeMaker with
  | theirTurn t =>
    have hsame : (game.enableCheating makeMove moverShare).1 = game := by
      rw [LiveGame.enableCheating, href]
      rfl
    rw [hsame]
    by_cases hid : id = game.gameId
    · subst hid
      obtain rfl := Option.some.inj (hg.symm.trans hfind)
      exact findLiveGame_putGame hg
    · exact (findLiveGame_putGame_of_ne hid).trans hg
  | myTurn r =>
    have hid : id ≠ game.gameId := by
      rintro rfl
      obtain rfl := Option.some.inj (hg.symm.trans hfind)
      rw [LiveGame.isMyTurn, href] at hturn
      cases hturn
    have hmoved : (game.enableCheating makeMove moverShare).1.gameId = game.gameId := by
      rw [LiveGame.enableCheating, href]
      rfl
    exact (findLiveGame_putGame_of_ne (hmoved ▸ hid)).trans hg

theorem keeps_cachedMoves_sendAcceptSettlementNoFinalize (gameId : GameID) :
    Keeps cachedMoves (sendAcceptSettlementNoFinalize gameId) := by
  refine keeps_get.bind fun _ => keeps_ite (keeps_throw _) (keeps_get.bind fun _ =>
    (keeps_lift _).bind fun _ => keeps_ite (keeps_throw _) ?_)
  refine Keeps.bind (keeps_modify fun _ => rfl) fun _ => keeps_get.bind fun _ =>
    (keeps_lift _).bind fun _ => Keeps.bind (keeps_modify fun _ => rfl) fun _ =>
    keeps_get.bind fun _ => (keeps_lift _).bind fun _ =>
    Keeps.bind (keeps_modify fun _ => rfl) fun _ => (keeps_lift _).bind fun _ => ?_
  refine Keeps.bind (keeps_modify fun _ => rfl) fun _ => (keeps_lift _).bind fun _ =>
    Keeps.bind (keeps_modify fun _ => rfl) fun _ => Keeps.bind (keeps_modify fun ch => ?_) fun _ =>
    keeps_pure _
  exact (cachedMoves_append ch _).trans (List.append_nil _)

/-- A game that is settled, or was to be, was on our turn. -/
theorem sendAcceptSettlementNoFinalize_liveGames (gameId : GameID) (ch : ChannelState) :
    ((sendAcceptSettlementNoFinalize gameId).after ch).liveGames = ch.liveGames ∨
      ∃ game, ch.findLiveGame gameId = some game ∧ game.isMyTurn = true ∧
        ((sendAcceptSettlementNoFinalize gameId).after ch).liveGames =
          (ch.withoutGame gameId).liveGames := by
  rw [after, sendAcceptSettlementNoFinalize, bind_of_ok (get_apply ch)]
  split_ifs with hpotato
  swap
  · exact .inl rfl
  rw [bind_of_ok (get_apply ch)]
  cases hgame : ch.getGameById gameId with
  | error e => exact .inl rfl
  | ok game =>
    rw [bind_of_ok (lift_ok _ _)]
    split_ifs with hturn
    swap
    · exact .inl rfl
    refine .inr ⟨game, GameOp.getGameById_eq_ok.mp hgame, by simpa using hturn, ?_⟩
    have hkeeps : Keeps liveGames (do
        let mine ← Act.lift (amountCheckedSub (← get).myAllocatedBalance game.myContribution)
        modify fun ch : ChannelState => { ch with myAllocatedBalance := mine }
        let theirs ← Act.lift (amountCheckedSub (← get).theirAllocatedBalance game.theirContribution)
        modify fun ch => { ch with theirAllocatedBalance := theirs }
        let amount ← Act.lift game.getOurCurrentShare
        let atStake := game.getAmount
        modify fun ch => { ch with
          pendingSettlements := ch.pendingSettlements ++ [game]
          myOutOfGameBalance := ch.myOutOfGameBalance + amount }
        let rest ← Act.lift (amountCheckedSub atStake amount)
        modify fun ch => { ch with theirOutOfGameBalance := ch.theirOutOfGameBalance + rest }
        pushCachedAction (.cachedAcceptSettlement {
          gameId
          puzzleHash := game.lastRefereePuzzleHash
          liveGame := game
          atStakeAmount := atStake
          ourShareAmount := amount
          gameFinished := game.isGameOver })
        pure amount : Act Error ChannelState ℕ) :=
      keeps_get.bind fun _ => (keeps_lift _).bind fun _ => Keeps.bind (keeps_modify fun _ => rfl)
        fun _ => keeps_get.bind fun _ => (keeps_lift _).bind fun _ =>
        Keeps.bind (keeps_modify fun _ => rfl) fun _ => (keeps_lift _).bind fun _ =>
        Keeps.bind (keeps_modify fun _ => rfl) fun _ => (keeps_lift _).bind fun _ =>
        Keeps.bind (keeps_modify fun _ => rfl) fun _ => Keeps.bind (keeps_modify fun _ => rfl)
        fun _ => keeps_pure _
    exact hkeeps (ch.withoutGame gameId)

theorem Replayable.settle (h : ch.Replayable E) (gameId : GameID) :
    ((sendAcceptSettlementNoFinalize gameId).after ch).Replayable E := by
  refine h.of_find (keeps_cachedMoves_sendAcceptSettlementNoFinalize gameId ch) fun id g hg hturn => ?_
  rcases sendAcceptSettlementNoFinalize_liveGames gameId ch with hlive | ⟨game, hfind, hmine, hlive⟩
  · rw [findLiveGame, hlive]
    exact hg
  · have hid : id ≠ gameId := by
      rintro rfl
      obtain rfl := Option.some.inj (hg.symm.trans hfind)
      rw [hmine] at hturn
      cases hturn
    have hwithout := @findLiveGame_withoutGame ch _ _ hid
    rw [findLiveGame] at hwithout ⊢
    rw [hlive, hwithout]
    exact hg

end ChannelState

namespace OffChainPhase

variable {E : ChannelEnv} {ch ch' : ChannelState} {gameTypes : List (Bytes × Option Clvm)}

theorem Drained.replayable {action : GameAction} {out : Option BatchAction}
    (h : Drained E ch action out ch') (hseated : ch.Seated E) (hch : ch.Replayable E) :
    ch'.Replayable E := by
  cases h with
  | deferred _ hplay => exact hch
  | rejected gameId readableMove newEntropy => exact hch
  | move gameId readableMove newEntropy h => exact hch.move hseated h
  | @cheat gameId moverShare entropy enabled result ch₁ _ hcheat h =>
    have hseated₁ : ch₁.Seated E :=
      after_of_ok hcheat ▸ hseated.step (.enableCheatingForGame gameId [0x80] moverShare)
    exact (hch.cheat hcheat).move hseated₁ h
  | settle gameId h => exact after_of_ok h ▸ hch.settle gameId
  | propose myGames theirWire h =>
    obtain ⟨proposals, rfl, -⟩ := each_sendProposeGame_eq_ok h
    exact hch
  | accept gameId proposal hfind hparity hmine htheirs h =>
    obtain ⟨u, ch₁, hinner, hpush⟩ := Act.bind_eq_ok.mp h
    cases hpush
    rcases GameOp.acceptProposalInner_after ch gameId with
      ⟨u', hok, proposal', -, -, -, heq⟩ | ⟨e, herror⟩
    swap
    · rw [herror] at hinner
      cases hinner
    obtain rfl : ch₁ = ch.accepted proposal' := by
      rw [hok] at hinner
      cases hinner
      exact heq
    refine hch.of_find ((ChannelState.cachedMoves_append _ _).trans (List.append_nil _)) ?_
    intro id g hg hturn
    exact List.find?_append.trans (by
      rw [show ch.liveGames.find? (fun g => g.gameId = id) = some g from hg]
      rfl)
  | short gameId proposal hfind hparity hshort => exact hch
  | cancel _ gameId haction h => exact hch
  | shutdown => exact hch

theorem DrainRun.replayable {queue : List GameAction} {outs : List BatchAction}
    (h : DrainRun E ch queue outs ch') (hseated : ch.Seated E) (hch : ch.Replayable E) :
    ch'.Replayable E := by
  induction h with
  | nil ch => exact hch
  | cons hdrained _ ih =>
    exact ih (hdrained.steps.preserves (fun _ op hch => hch.step op) hseated)
      (hdrained.replayable hseated hch)

theorem Failed.replayable {action : GameAction} (h : Failed ch action ch') (hch : ch.Replayable E) :
    ch'.Replayable E := by
  cases h with
  | same => exact hch
  | settle gameId => exact hch.settle gameId
  | cheat gameId moverShare entropy =>
    cases hcheat : ChannelState.enableCheatingForGame gameId [0x80] moverShare ch with
    | ok enabled ch₁ =>
      rw [after_of_ok hcheat]
      exact hch.cheat hcheat
    | error e ch₁ =>
      obtain rfl := ChannelState.enableCheatingForGame_eq_error hcheat
      rw [after_of_error hcheat]
      exact hch
  | shutdown => exact hch

/-- A receipt leaves nothing on record. -/
theorem cachedRedoActions_receipt (ch : ChannelState) (signatures : StateUpdateSignatures) :
    (settledState (ch.received E signatures)).cachedRedoActions = [] := by
  have hfilter : (settledState (ch.received E signatures)).cachedRedoActions =
      (ch.cachedRedoActions.filter fun entry => entry.isAcceptSettlement).filter fun entry =>
        !entry.isAcceptSettlement := by
    have hreceived : (ch.received E signatures).cachedRedoActions =
        ch.cachedRedoActions.filter fun entry => entry.isAcceptSettlement := by
      change List.filter _ _ = _
      refine List.filter_congr fun entry _ => ?_
      cases entry <;> rfl
    rw [← hreceived]
    change List.filter _ _ = _
    refine List.filter_congr fun entry _ => ?_
    cases entry <;> rfl
  rw [hfilter, List.filter_filter, List.filter_eq_nil_iff]
  simp

/-- The moves on record stay until a receipt. -/
theorem Turn.replayable {t t' : Desk} {events : List Event} (h : Turn E gameTypes t events t')
    (hseated : t.channel.Seated E) (ht : t.channel.Replayable E) : t'.channel.Replayable E := by
  cases h with
  | push action hplain => exact ht
  | strip => exact ht
  | answer gameId ids action h haction => exact ht
  | allocate => exact ht
  | propose start games hgames h => exact ht
  | idle ch' deferred hpotato hrun hshutdown hdeferred => exact hrun.replayable hseated ht
  | send outs ch' deferred shutdown hpotato hrun hshutdown hdeferred =>
    have hch' : ch'.Replayable E := hrun.replayable hseated ht
    exact hch'
  | fail done action rest outs ch₁ ch' hpotato hqueue hrun hfailed =>
    exact hfailed.replayable (hrun.replayable hseated ht)
  | pass hpotato =>
    have hsent : t.channel.Replayable E := ht
    exact hsent
  | receive b ch₁ queue₁ hpotato hlast haccept hcancel hrun hverifies =>
    have hnone : (settledState (ch₁.received E b.signatures)).cachedMoves = [] :=
      congrArg (List.filterMap ChannelState.sentMove?) (cachedRedoActions_receipt ch₁ b.signatures)
    intro m hm
    rw [hnone] at hm
    cases hm

theorem Turns.replayable {o : Opening E} {t : Desk} {events : List Event}
    (h : Turns E gameTypes (Desk.opening o) events t) : t.channel.Replayable E := by
  induction h with
  | refl => exact fun m hm => (by cases hm)
  | step hturns hturn ih => exact hturn.replayable hturns.between.1.1 ih

end OffChainPhase

/-! The channel states that are carried to the chain. -/

namespace ChannelState

variable {E : ChannelEnv} {ch ch' : ChannelState}

/-- Everything that an unroll relies on. -/
structure Carries (E : ChannelEnv) (o : Opening E) (ch : ChannelState) : Prop where
  parties : ∀ nonce, ch.refereeParties E nonce = o.channel.refereeParties E nonce
  live : ∀ g ∈ ch.liveGames, g.Seated E ch
  settling : ∀ g ∈ ch.pendingSettlements, g.Seated E ch
  ids : ((ch.liveGames ++ ch.pendingSettlements).map LiveGame.gameId).Nodup
  moves : ∀ m ∈ ch.cachedMoves, ∀ g, ch.findLiveGame m.gameId = some g → ∃ t, m.Replays E g t

/-- The games that are live and those that are being settled, with the players of the opening. -/
structure Peopled (E : ChannelEnv) (o : Opening E) (ch : ChannelState) : Prop where
  between : ch.Between E o
  settling : ∀ g ∈ ch.pendingSettlements, g.Seated E ch

theorem Peopled.step {o : Opening E} (h : ch.Peopled E o) (op : GameOp) :
    (op.step E ch).Peopled E o := by
  have hcore := GameOp.core_step (E := E) ch op
  refine ⟨⟨h.between.1.step op, fun nonce =>
    (refereeParties_of_core hcore nonce).trans (h.between.2 nonce)⟩, ?_⟩
  have hbooked := GameOp.booked_step (E := E) ch op
  generalize GameOp.step E ch op = ch' at hbooked hcore
  suffices hgames : ∀ g ∈ ch'.pendingSettlements, g.Seated E ch from
    fun g hg => seated_of_core hcore (hgames g hg)
  have happend : ∀ {gameId : GameID} {game : LiveGame}, ch.findLiveGame gameId = some game →
      ∀ g ∈ ch.pendingSettlements ++ [game], g.Seated E ch := by
    intro gameId game hgame g hg
    rcases List.mem_append.mp hg with hg | hg
    · exact h.settling g hg
    · obtain rfl := List.mem_singleton.mp hg
      exact h.between.1.live g (List.mem_of_find?_eq_some hgame)
  cases hbooked with
  | same _ cached => exact h.settling
  | proposed startInfo groupId proposal hnew => exact h.settling
  | received startInfo groupId proposal hcheck hnew => exact h.settling
  | accepted _ gameId proposal cached _ hfind => exact h.settling
  | removed _ gameId => exact h.settling
  | cancelled => exact h.settling
  | allocated => exact h.settling
  | moved gameId readableMove newEntropy game moved wire cached hgame hmove => exact h.settling
  | theirMove gameId gameMove game moved result hgame hshare hmove => exact h.settling
  | cheated gameId makeMove moverShare game hgame => exact h.settling
  | settled _ gameId game forMe cached _ hgame => exact happend hgame
  | broken _ gameId game _ hgame _ liveGames pendingSettlements _ _ _ hlive hpending =>
    rcases hpending with rfl | ⟨-, rfl⟩
    · exact h.settling
    · exact happend hgame

theorem Peopled.sent {o : Opening E} (h : ch.Peopled E o) : (ch.sent E).Peopled E o :=
  ⟨⟨h.between.1.sent, h.between.2⟩, fun g hg => ⟨(h.settling g hg).referee, (h.settling g hg).coin⟩⟩

theorem Peopled.received {o : Opening E} (h : ch.Peopled E o) (signatures : StateUpdateSignatures) :
    (ch.received E signatures).Peopled E o :=
  ⟨⟨h.between.1.received signatures, h.between.2⟩, fun g hg => (by cases hg)⟩

theorem Peopled.turns {o : Opening E} {gameTypes : List (Bytes × Option Clvm)}
    {t : OffChainPhase.Desk} {events : List OffChainPhase.Event}
    (h : OffChainPhase.Turns E gameTypes (OffChainPhase.Desk.opening o) events t) :
    t.channel.Peopled E o := by
  refine h.preserves (I := Peopled E o) (fun ch op hch => hch.step op) (fun ch hch => hch.sent)
    (fun ch signatures hch => hch.received signatures) ?_
  exact ⟨⟨⟨fun g hg => (by cases hg), fun p hp => (by cases hp)⟩, fun _ => rfl⟩,
    fun g hg => (by cases hg)⟩

theorem Carries.of_core {o : Opening E} (h : ch.Carries E o) (hcore : ch'.core = ch.core)
    (hlive : ch'.liveGames = ch.liveGames) (hsettling : ch'.pendingSettlements = ch.pendingSettlements)
    (hmoves : ch'.cachedMoves ⊆ ch.cachedMoves) : ch'.Carries E o where
  parties nonce := (refereeParties_of_core hcore nonce).trans (h.parties nonce)
  live g hg := seated_of_core hcore (h.live g (hlive ▸ hg))
  settling g hg := seated_of_core hcore (h.settling g (hsettling ▸ hg))
  ids := by
    rw [hlive, hsettling]
    exact h.ids
  moves m hm g hg := by
    rw [findLiveGame, hlive] at hg
    exact h.moves m (hmoves hm) g hg

theorem nodup_of_fresh {queue : List GameAction} (h : Naming.Fresh (ch.book queue)) :
    ((ch.liveGames ++ ch.pendingSettlements).map LiveGame.gameId).Nodup := by
  have hheld : ch.heldIds.Nodup := (List.nodup_append.mp h.nodup).1
  rw [heldIds, List.append_assoc] at hheld
  rw [List.map_append]
  exact (List.nodup_append.mp hheld).2.1

theorem carries_of_last {o : Opening E} (h : OffChainPhase.Last E o ch) : ch.Carries E o := by
  induction h with
  | turned hturns =>
    have hpeopled := Peopled.turns hturns
    have hids := nodup_of_fresh (hturns.book.fresh (OffChainPhase.fresh_opening o))
    refine ⟨hpeopled.between.2, hpeopled.between.1.live, hpeopled.settling, hids, ?_⟩
    intro m hm g hg
    obtain ⟨g', t, hg', hreplays⟩ := hturns.replayable m hm
    obtain rfl := Option.some.inj (hg'.symm.trans hg)
    exact ⟨t, hreplays⟩
  | @shut gameTypes t events hturns actions ch₁ queue hrun hlive =>
    have hpeopled : ch₁.Peopled E o :=
      hrun.steps.preserves (fun _ op hch => hch.step op) (Peopled.turns hturns)
    have hids := nodup_of_fresh (hrun.book.fresh (hturns.book.fresh (OffChainPhase.fresh_opening o)))
    have hcarries : ch₁.Carries E o := by
      refine ⟨hpeopled.between.2, hpeopled.between.1.live, hpeopled.settling, hids, ?_⟩
      intro m hm g hg
      rw [findLiveGame, hlive] at hg
      cases hg
    refine hcarries.of_core rfl rfl rfl fun m hm => ?_
    obtain ⟨entry, hentry, hmove⟩ := List.mem_filterMap.mp hm
    exact List.mem_filterMap.mpr ⟨entry, (List.mem_filter.mp hentry).1, hmove⟩
  | cancelled _ ih => exact ih.of_core rfl rfl rfl (List.Subset.refl _)

theorem carries_of_carried {o : Opening E} (h : OffChainPhase.Carried E o ch) : ch.Carries E o :=
  carries_of_last h.last

end ChannelState

end ChiaGaming
