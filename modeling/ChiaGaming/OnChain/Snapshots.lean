import ChiaGaming.OnChain.Abandoned
import ChiaGaming.Session.Table

namespace ChiaGaming

open Act

/-! The states that unrolls are signed for, and what has become of their games since. -/

namespace ChannelState

variable {E : ChannelEnv} {ch ch' : ChannelState}

/-- What is allocated is what the games in play hold. -/
structure Allotted (ch : ChannelState) : Prop where
  mine : ch.myAllocatedBalance = (ch.liveGames.map LiveGame.myContribution).sum
  theirs : ch.theirAllocatedBalance = (ch.liveGames.map LiveGame.theirContribution).sum

theorem Allotted.covers (h : ch.Allotted) {gameId : GameID} {game : LiveGame}
    (hgame : ch.findLiveGame gameId = some game) :
    game.myContribution ≤ ch.myAllocatedBalance ∧
      game.theirContribution ≤ ch.theirAllocatedBalance := by
  have hmem : game ∈ ch.liveGames := List.mem_of_find?_eq_some hgame
  constructor
  · rw [h.mine]
    exact List.le_sum_of_mem (List.mem_map_of_mem hmem)
  · rw [h.theirs]
    exact List.le_sum_of_mem (List.mem_map_of_mem hmem)

/-- A game goes, with what it held. -/
theorem Allotted.remove (h : ch.Allotted) {gameId : GameID} {game : LiveGame}
    (hgame : ch.findLiveGame gameId = some game)
    (hlive : ch'.liveGames = (ch.withoutGame gameId).liveGames)
    (hmine : ch'.myAllocatedBalance = ch.myAllocatedBalance - game.myContribution)
    (htheirs : ch'.theirAllocatedBalance = ch.theirAllocatedBalance - game.theirContribution) :
    ch'.Allotted := by
  have hperm := perm_cons_eraseP hgame
  have hsum : ∀ f : LiveGame → ℕ, (ch.liveGames.map f).sum =
      f game + (ch'.liveGames.map f).sum := by
    intro f
    rw [(hperm.map f).sum_eq, List.map_cons, List.sum_cons, hlive]
    rfl
  have hm := h.mine
  have ht := h.theirs
  rw [hsum] at hm ht
  constructor <;> omega

theorem Allotted.putGame (h : ch.Allotted) {gameId : GameID} {game moved : LiveGame}
    (hgame : ch.findLiveGame gameId = some game) (hid : moved.gameId = game.gameId)
    (hmine : moved.myContribution = game.myContribution)
    (htheirs : moved.theirContribution = game.theirContribution) (cached : List CachedRedoActions) :
    Allotted { ch with
      liveGames := ChiaGaming.putGame moved ch.liveGames
      cachedRedoActions := cached } := by
  have hfind := GameOp.findLiveGame_gameId hgame
  have hold := perm_cons_eraseP hgame
  have hnew := perm_putGame hgame (hid.trans hfind)
  have hsum : ∀ f : LiveGame → ℕ, f moved = f game →
      ((ChiaGaming.putGame moved ch.liveGames).map f).sum = (ch.liveGames.map f).sum := by
    intro f hf
    rw [(hnew.map f).sum_eq, (hold.map f).sum_eq, List.map_cons, List.map_cons, hf]
  exact ⟨h.mine.trans (hsum _ hmine).symm, h.theirs.trans (hsum _ htheirs).symm⟩

/-- A settlement of ours: unless it is turned down at once, the game is among those that are being
settled from then on. -/
inductive Settling (ch : ChannelState) (gameId : GameID) (ch' : ChannelState) : Prop where
  | refused (h : ch' = ch)
  | begun (game : LiveGame) (hgame : ch.findLiveGame gameId = some game)
      (hturn : game.isMyTurn = true)
      (hlive : ch'.liveGames = (ch.withoutGame gameId).liveGames)
      (hpending : ch'.pendingSettlements = ch.pendingSettlements ++ [game])
      (hmine : ch'.myAllocatedBalance = ch.myAllocatedBalance - game.myContribution)
      (htheirs : ch'.theirAllocatedBalance = ch.theirAllocatedBalance - game.theirContribution)

theorem sendAcceptSettlement_settling (h : ch.Allotted) (gameId : GameID) :
    ch.Settling gameId ((sendAcceptSettlementNoFinalize gameId).after ch) := by
  rw [after, sendAcceptSettlementNoFinalize, bind_of_ok (get_apply ch)]
  split_ifs with hpotato
  swap
  · exact .refused rfl
  rw [bind_of_ok (get_apply ch)]
  cases hgame : ch.getGameById gameId with
  | error e => exact .refused rfl
  | ok game =>
    have hfind := GameOp.getGameById_eq_ok.mp hgame
    rw [bind_of_ok (lift_ok _ _)]
    split_ifs with hturn
    swap
    · exact .refused rfl
    have hshare : game.getOurCurrentShare =
        .ok game.refereeMaker.spendThisCoin.gameMove.basic.moverShare := by
      rw [LiveGame.getOurCurrentShare, Referee.getOurCurrentShare, if_pos]
      exact hturn
    obtain ⟨hmine, htheirs⟩ := h.covers hfind
    rw [bind_of_ok (modify_apply _ _), bind_of_ok (get_apply _),
      amountCheckedSub_of_le (a := (ch.withoutGame gameId).myAllocatedBalance) hmine,
      bind_of_ok (lift_ok _ _), bind_of_ok (modify_apply _ _), bind_of_ok (get_apply _),
      amountCheckedSub_of_le (a := (ch.withoutGame gameId).theirAllocatedBalance) htheirs,
      bind_of_ok (lift_ok _ _), bind_of_ok (modify_apply _ _), hshare, bind_of_ok (lift_ok _ _),
      bind_of_ok (modify_apply _ _)]
    -- from here on the game is on its way, whether what is left can be told or not
    by_cases hcovered : game.refereeMaker.spendThisCoin.gameMove.basic.moverShare ≤ game.getAmount
    · rw [amountCheckedSub_of_le hcovered, bind_of_ok (lift_ok _ _), bind_of_ok (modify_apply _ _)]
      exact .begun game hfind (by simpa using hturn) rfl rfl rfl rfl
    · rw [amountCheckedSub_of_not_le hcovered]
      exact .begun game hfind (by simpa using hturn) rfl rfl rfl rfl

theorem applyReceivedAcceptSettlement_after (h : ch.Allotted) (gameId : GameID) :
    (applyReceivedAcceptSettlement gameId).after ch = ch ∨ ∃ game,
      ch.findLiveGame gameId = some game ∧
      ((applyReceivedAcceptSettlement gameId).after ch).liveGames =
        (ch.withoutGame gameId).liveGames ∧
      ((applyReceivedAcceptSettlement gameId).after ch).pendingSettlements =
        ch.pendingSettlements ++ [game] ∧
      ((applyReceivedAcceptSettlement gameId).after ch).cachedRedoActions = ch.cachedRedoActions ∧
      ((applyReceivedAcceptSettlement gameId).after ch).myAllocatedBalance =
        ch.myAllocatedBalance - game.myContribution ∧
      ((applyReceivedAcceptSettlement gameId).after ch).theirAllocatedBalance =
        ch.theirAllocatedBalance - game.theirContribution := by
  rw [after, applyReceivedAcceptSettlement, bind_of_ok (get_apply ch)]
  cases hgame : ch.getGameById gameId with
  | error e => exact .inl rfl
  | ok game =>
    have hfind := GameOp.getGameById_eq_ok.mp hgame
    obtain ⟨hmine, htheirs⟩ := h.covers hfind
    rw [bind_of_ok (lift_ok _ _)]
    split_ifs with hturn
    · exact .inl rfl
    cases hshare : game.getOurCurrentShare with
    | error e => exact .inl rfl
    | ok forMe =>
      rw [bind_of_ok (lift_ok _ _)]
      cases hrest : amountCheckedSub game.getAmount forMe with
      | error e => exact .inl rfl
      | ok forThem =>
        rw [bind_of_ok (lift_ok _ _), bind_of_ok (get_apply _), amountCheckedSub_of_le hmine,
          bind_of_ok (lift_ok _ _), bind_of_ok (modify_apply _ _), bind_of_ok (get_apply _),
          amountCheckedSub_of_le (a := ch.theirAllocatedBalance) htheirs, bind_of_ok (lift_ok _ _),
          bind_of_ok (modify_apply _ _), bind_of_ok (modify_apply _ _)]
        exact .inr ⟨game, hfind, rfl, rfl, rfl, rfl, rfl⟩

theorem Allotted.step (h : ch.Allotted) (op : GameOp) : (op.step E ch).Allotted := by
  have hbooked := GameOp.booked_step (E := E) ch op
  have hsettled : ∀ gameId, op = .sendAcceptSettlementNoFinalize gameId ∨
      op = .applyReceivedAcceptSettlement gameId → (op.step E ch).Allotted := by
    rintro gameId (rfl | rfl)
    · show ((sendAcceptSettlementNoFinalize gameId).after ch).Allotted
      cases sendAcceptSettlement_settling h gameId with
      | refused hsame =>
        rw [hsame]
        exact h
      | begun game hgame hturn hlive hpending hmine htheirs =>
        exact h.remove hgame hlive hmine htheirs
    · show ((applyReceivedAcceptSettlement gameId).after ch).Allotted
      rcases applyReceivedAcceptSettlement_after h gameId with
        hsame | ⟨game, hgame, hlive, -, -, hmine, htheirs⟩
      · exact hsame.symm ▸ h
      · exact h.remove hgame hlive hmine htheirs
  generalize GameOp.step E ch op = ch' at hbooked hsettled ⊢
  cases hbooked with
  | same _ cached => exact ⟨h.mine, h.theirs⟩
  | proposed startInfo groupId proposal hnew => exact ⟨h.mine, h.theirs⟩
  | received startInfo groupId proposal hcheck hnew => exact ⟨h.mine, h.theirs⟩
  | accepted _ gameId proposal cached hop hfind hmine htheirs =>
    have hsum : ∀ f : LiveGame → ℕ, ((ch.liveGames ++ [ofProposal proposal]).map f).sum =
        (ch.liveGames.map f).sum + f (ofProposal proposal) := by
      intro f
      simp
    refine ⟨?_, ?_⟩
    · exact (congrArg (· + proposal.myContribution) h.mine).trans (hsum _).symm
    · exact (congrArg (· + proposal.theirContribution) h.theirs).trans (hsum _).symm
  | removed _ gameId hop => exact ⟨h.mine, h.theirs⟩
  | cancelled => exact ⟨h.mine, h.theirs⟩
  | allocated => exact ⟨h.mine, h.theirs⟩
  | moved gameId readableMove newEntropy game moved wire cached hgame hmove =>
    obtain ⟨r, handler, result, t, -, -, -, rfl, -⟩ := LiveGame.internalMakeMove_eq_ok hmove
    refine h.putGame hgame ?_ ?_ ?_ cached <;> rfl
  | theirMove gameId gameMove game moved result hgame hshare hmove =>
    rcases LiveGame.internalTheirMove_eq_ok hmove with rfl | ⟨t, r, -, rfl, -⟩
    · refine h.putGame hgame ?_ ?_ ?_ ch.cachedRedoActions <;> rfl
    · refine h.putGame hgame ?_ ?_ ?_ ch.cachedRedoActions <;> rfl
  | cheated gameId makeMove moverShare game hgame =>
    refine h.putGame hgame ?_ ?_ ?_ ch.cachedRedoActions <;>
    · rw [LiveGame.enableCheating]
      cases game.refereeMaker <;> rfl
  | settled _ gameId game forMe cached hop hgame hcovers hshare => exact hsettled gameId hop
  | broken _ gameId game hop hgame hcovers => exact hsettled gameId hop

theorem Allotted.turns {o : Opening E} {gameTypes : List (Bytes × Option Clvm)}
    {t : OffChainPhase.Desk} {events : List OffChainPhase.Event}
    (h : OffChainPhase.Turns E gameTypes (OffChainPhase.Desk.opening o) events t) :
    t.channel.Allotted := by
  refine h.preserves (I := Allotted) (fun ch op hch => hch.step op) (fun ch hch => ?_)
    (fun ch signatures hch => ?_) ⟨rfl, rfl⟩
  · exact ⟨hch.mine, hch.theirs⟩
  · exact ⟨hch.mine, hch.theirs⟩

/-- The coin that a game has had is one that we can tell the game from: its last one, the one that a
move of ours was made on, or that of a settlement. -/
inductive Follows (ch : ChannelState) (g : LiveGame) : Prop where
  | live (g' : LiveGame) (h : ch.findLiveGame g.gameId = some g')
      (hph : g'.lastRefereePuzzleHash = g.lastRefereePuzzleHash)
      (hamount : g'.getAmount = g.getAmount)
  | moved (m : CachedSendMove) (g' : LiveGame) (hm : m ∈ ch.cachedMoves) (hid : m.gameId = g.gameId)
      (h : ch.findLiveGame g.gameId = some g') (hph : m.matchPuzzleHash = g.lastRefereePuzzleHash)
      (hamount : g'.getAmount = g.getAmount)
  | settling (g' : LiveGame) (hg' : g' ∈ ch.pendingSettlements) (hid : g'.gameId = g.gameId)
      (hph : g'.lastRefereePuzzleHash = g.lastRefereePuzzleHash)
      (hamount : g'.getAmount = g.getAmount)

variable {g : LiveGame}

/-- The game goes on with the same coin, and nothing is forgotten. -/
theorem Follows.of_find (h : ch.Follows g) (hmoves : ch.cachedMoves ⊆ ch'.cachedMoves)
    (hsettling : ch.pendingSettlements ⊆ ch'.pendingSettlements)
    (hfind : ∀ g', ch.findLiveGame g.gameId = some g' → ∃ g'',
      ch'.findLiveGame g.gameId = some g'' ∧
        g''.lastRefereePuzzleHash = g'.lastRefereePuzzleHash ∧ g''.getAmount = g'.getAmount) :
    ch'.Follows g := by
  cases h with
  | live g' h hph hamount =>
    obtain ⟨g'', hg'', hph', hamount'⟩ := hfind g' h
    exact .live g'' hg'' (hph'.trans hph) (hamount'.trans hamount)
  | moved m g' hm hid h hph hamount =>
    obtain ⟨g'', hg'', -, hamount'⟩ := hfind g' h
    exact .moved m g'' (hmoves hm) hid hg'' hph (hamount'.trans hamount)
  | settling g' hg' hid hph hamount => exact .settling g' (hsettling hg') hid hph hamount

theorem Follows.of_games (h : ch.Follows g) (hmoves : ch'.cachedMoves = ch.cachedMoves)
    (hsettling : ch'.pendingSettlements = ch.pendingSettlements)
    (hlive : ch'.liveGames = ch.liveGames) : ch'.Follows g := by
  refine h.of_find (by rw [hmoves]; exact List.Subset.refl _)
    (by rw [hsettling]; exact List.Subset.refl _) fun g' hg' => ⟨g', ?_, rfl, rfl⟩
  rw [findLiveGame, hlive]
  exact hg'

/-- A move of ours goes on record with the coin that it was made on. -/
theorem Follows.move (hseated : ch.Seated E) (hreplayable : ch.Replayable E) (h : ch.Follows g)
    {gameId : GameID} {readableMove : Clvm} {newEntropy : Hash} {result : MoveResult}
    (hmove : sendMoveNoFinalize E gameId readableMove newEntropy ch = .ok result ch') :
    ch'.Follows g := by
  obtain ⟨game, r, next, wire, hfind, href, hnext, hch'⟩ := sendMoveNoFinalize_eq_ok hmove
  obtain rfl := GameOp.findLiveGame_gameId hfind
  obtain ⟨t, d, rfl, hfixed, -, -, -, hwire⟩ := myTurnMakeMove_made hnext
  obtain ⟨entry, hentry, hmatch, hmoves⟩ : ∃ entry : CachedSendMove, entry.gameId = game.gameId ∧
      entry.matchPuzzleHash = wire.puzzleHashForUnroll ∧
      ch'.cachedMoves = ch.cachedMoves ++ [entry] := by
    rw [hch']
    exact ⟨_, rfl, rfl, ch.cachedMoves_append _⟩
  have hsettling : ch'.pendingSettlements = ch.pendingSettlements := by rw [hch']
  have hmoved : ch'.findLiveGame game.gameId = some (game.moveTo E.toEnv (.theirTurn t)) := by
    rw [hch']
    exact @findLiveGame_putGame _ (game.moveTo E.toEnv (.theirTurn t)) _ hfind
  have hothers : ∀ id, id ≠ game.gameId → ch'.findLiveGame id = ch.findLiveGame id := by
    intro id hid
    rw [hch']
    exact @findLiveGame_putGame_of_ne _ (game.moveTo E.toEnv (.theirTurn t)) _ hid
  by_cases hid : g.gameId = game.gameId
  swap
  · exact h.of_find (hmoves ▸ List.subset_append_left _ _) (hsettling ▸ List.Subset.refl _)
      fun g' hg' => ⟨g', (hothers _ hid).trans hg', rfl, rfl⟩
  cases h with
  | live g' h hph hamount =>
    obtain rfl : g' = game := by
      rw [hid] at h
      exact Option.some.inj (h.symm.trans hfind)
    have hcoin := (hseated.live g' (List.mem_of_find?_eq_some hfind)).coin
    rw [href] at hcoin
    refine .moved entry _ (hmoves ▸ List.mem_append_right _ (List.mem_singleton_self _))
      (hentry.trans hid.symm) (hid ▸ hmoved) ?_ ?_
    · exact hmatch.trans ((hwire.trans hcoin.symm).trans hph)
    · rw [← hamount, LiveGame.getAmount, LiveGame.getAmount, href]
      exact congrArg (fun fixed => fixed.amount) hfixed
  | moved m g' hm hmid h hph hamount =>
    -- the opponent is to move in a game with a move on record
    obtain ⟨g'', t', hg'', hreplays⟩ := hreplayable m hm
    rw [hmid, hid, hfind] at hg''
    obtain rfl := Option.some.inj hg''
    have hturn := hreplays.referee
    rw [href] at hturn
    cases hturn
  | settling g' hg' hid' hph hamount => exact .settling g' (hsettling ▸ hg') hid' hph hamount

theorem Follows.cheat (h : ch.Follows g) {gameId : GameID} {makeMove : Bytes} {moverShare : ℕ}
    {enabled : Bool} (hcheat : enableCheatingForGame gameId makeMove moverShare ch = .ok enabled ch') :
    ch'.Follows g := by
  obtain ⟨game, hfind, rfl⟩ := enableCheatingForGame_eq_ok hcheat
  obtain rfl := GameOp.findLiveGame_gameId hfind
  have hsame : (game.enableCheating makeMove moverShare).1.gameId = game.gameId ∧
      (game.enableCheating makeMove moverShare).1.lastRefereePuzzleHash =
        game.lastRefereePuzzleHash ∧
      (game.enableCheating makeMove moverShare).1.getAmount = game.getAmount := by
    rw [LiveGame.enableCheating, LiveGame.getAmount, LiveGame.getAmount]
    cases href : game.refereeMaker with
    | theirTurn t => exact ⟨rfl, rfl, congrArg (fun r : Referee => r.fixed.amount) href⟩
    | myTurn r => exact ⟨rfl, rfl, rfl⟩
  obtain ⟨hcheated, hph, hamount⟩ := hsame
  refine h.of_find (List.Subset.refl _) (List.Subset.refl _) fun g' hg' => ?_
  by_cases hid : g.gameId = game.gameId
  · rw [hid] at hg' ⊢
    obtain rfl := Option.some.inj (hfind.symm.trans hg')
    refine ⟨_, ?_, hph, hamount⟩
    have hput := @findLiveGame_putGame ch (game.enableCheating makeMove moverShare).1 game
      (hcheated.symm ▸ hfind)
    rw [hcheated] at hput
    exact hput
  · exact ⟨g', (findLiveGame_putGame_of_ne (hcheated.symm ▸ hid)).trans hg', rfl, rfl⟩

theorem Follows.settle (hallotted : ch.Allotted) (hreplayable : ch.Replayable E) (h : ch.Follows g)
    (gameId : GameID) : ((sendAcceptSettlementNoFinalize gameId).after ch).Follows g := by
  have hmoves := keeps_cachedMoves_sendAcceptSettlementNoFinalize gameId ch
  cases sendAcceptSettlement_settling hallotted gameId with
  | refused hsame =>
    rw [hsame]
    exact h
  | begun game hfind hturn hlive hpending =>
    have hfound : ∀ id, id ≠ gameId →
        ((sendAcceptSettlementNoFinalize gameId).after ch).findLiveGame id = ch.findLiveGame id := by
      intro id hid
      rw [findLiveGame, hlive]
      exact findLiveGame_withoutGame hid
    have hsubset : ch.pendingSettlements ⊆
        ((sendAcceptSettlementNoFinalize gameId).after ch).pendingSettlements := by
      rw [hpending]
      exact List.subset_append_left _ _
    by_cases hid : g.gameId = gameId
    swap
    · exact h.of_find (by rw [hmoves]; exact List.Subset.refl _) hsubset fun g' hg' =>
        ⟨g', (hfound _ hid).trans hg', rfl, rfl⟩
    cases h with
    | live g' h hph hamount =>
      obtain rfl : g' = game := by
        rw [hid] at h
        exact Option.some.inj (h.symm.trans hfind)
      refine .settling g' ?_ ((GameOp.findLiveGame_gameId hfind).trans hid.symm) hph hamount
      rw [hpending]
      exact List.mem_append_right _ (List.mem_singleton_self _)
    | moved m g' hm hmid h hph hamount =>
      obtain ⟨g'', t', hg'', hreplays⟩ := hreplayable m hm
      rw [hmid, hid, hfind] at hg''
      obtain rfl := Option.some.inj hg''
      rw [LiveGame.isMyTurn, hreplays.referee] at hturn
      cases hturn
    | settling g' hg' hid' hph hamount => exact .settling g' (hsubset hg') hid' hph hamount

/-- A game that is left alone, and with it whatever we know of its earlier coins. -/
structure LeavesGame (ch : ChannelState) (id : GameID) (ch' : ChannelState) : Prop where
  moves : ch'.cachedMoves = ch.cachedMoves
  settling : ch.pendingSettlements ⊆ ch'.pendingSettlements
  find : ∀ g, ch.findLiveGame id = some g → ch'.findLiveGame id = some g

theorem LeavesGame.refl (ch : ChannelState) (id : GameID) : ch.LeavesGame id ch :=
  ⟨rfl, List.Subset.refl _, fun _ h => h⟩

theorem LeavesGame.trans {ch₁ : ChannelState} {id : GameID} (h : ch.LeavesGame id ch₁)
    (h' : ch₁.LeavesGame id ch') : ch.LeavesGame id ch' where
  moves := h'.moves.trans h.moves
  settling := List.Subset.trans h.settling h'.settling
  find g hg := h'.find g (h.find g hg)

theorem LeavesGame.follows (hleaves : ch.LeavesGame g.gameId ch') (h : ch.Follows g) :
    ch'.Follows g := by
  refine h.of_find (hleaves.moves ▸ List.Subset.refl _) hleaves.settling fun g' hg' => ?_
  exact ⟨g', hleaves.find g' hg', rfl, rfl⟩

theorem leavesGame_append {id : GameID} (hlive : ∃ games, ch'.liveGames = ch.liveGames ++ games)
    (hmoves : ch'.cachedMoves = ch.cachedMoves)
    (hsettling : ch'.pendingSettlements = ch.pendingSettlements) : ch.LeavesGame id ch' := by
  refine ⟨hmoves, hsettling ▸ List.Subset.refl _, fun g hg => ?_⟩
  obtain ⟨games, hlive⟩ := hlive
  rw [findLiveGame] at hg ⊢
  rw [hlive, List.find?_append, hg]
  rfl

/-- What the games of a channel state are. -/
def gameRecord (ch : ChannelState) : List LiveGame × List LiveGame × List CachedRedoActions :=
  (ch.liveGames, ch.pendingSettlements, ch.cachedRedoActions)

theorem leavesGame_of_record {id : GameID} (h : ch'.gameRecord = ch.gameRecord) :
    ch.LeavesGame id ch' := by
  simp only [gameRecord, Prod.mk.injEq] at h
  obtain ⟨hlive, hsettling, hcached⟩ := h
  refine leavesGame_append ⟨[], by rw [hlive, List.append_nil]⟩ ?_ hsettling
  rw [cachedMoves, cachedMoves, hcached]

theorem applyReceivedMove_leaves {gameId id : GameID} {gameMove : GameMoveDetails}
    {result : ChannelMoveResult} (h : applyReceivedMove E gameId gameMove ch = .ok result ch')
    (hid : id ≠ gameId) : ch.LeavesGame id ch' := by
  rw [applyReceivedMove, bind_of_ok (get_apply ch)] at h
  obtain ⟨game, ch₁, hgame, h₁⟩ := Act.bind_eq_ok.mp h
  obtain ⟨hfind, rfl⟩ := lift_eq_ok.mp hgame
  have hgameId := GameOp.findLiveGame_gameId (GameOp.getGameById_eq_ok.mp hfind)
  split_ifs at h₁
  · cases h₁
  · cases h₁
  obtain ⟨⟨moved, answer⟩, ch₂, hlift, h₂⟩ := Act.bind_eq_ok.mp h₁
  obtain ⟨hmove, rfl⟩ := lift_eq_ok.mp hlift
  dsimp only at h₂
  rw [bind_of_ok (set_apply _ _)] at h₂
  have hmoved : moved.gameId = gameId := by
    rcases LiveGame.internalTheirMove_eq_ok hmove with rfl | ⟨t, r, -, rfl, -⟩
    · exact hgameId
    · exact hgameId
  split_ifs at h₂
  · cases h₂
  cases h₂
  refine ⟨rfl, List.Subset.refl _, fun g hg => ?_⟩
  exact (findLiveGame_putGame_of_ne (hmoved.symm ▸ hid)).trans hg

end ChannelState

/-- The games that an action of a batch changes. -/
def BatchAction.touches : BatchAction → List GameID
  | .move gameId _ => [gameId]
  | .acceptSettlement gameId _ => [gameId]
  | _ => []

def touched (actions : List BatchAction) : List GameID := actions.flatMap BatchAction.touches

@[simp] theorem touched_nil : touched [] = [] := rfl

@[simp] theorem touched_append (actions actions' : List BatchAction) :
    touched (actions ++ actions') = touched actions ++ touched actions' := List.flatMap_append

namespace OffChainPhase

open ChannelState (LeavesGame leavesGame_append leavesGame_of_record)

variable {E : ChannelEnv} {ch ch' : ChannelState} {gameTypes : List (Bytes × Option Clvm)}
  {g : LiveGame}

/-! A drain follows the games. -/

theorem Drained.follows {action : GameAction} {out : Option BatchAction}
    (hdrained : Drained E ch action out ch') (hseated : ch.Seated E) (hreplayable : ch.Replayable E)
    (hallotted : ch.Allotted) (h : ch.Follows g) : ch'.Follows g := by
  cases hdrained with
  | deferred _ hplay => exact h
  | rejected gameId readableMove newEntropy => exact h
  | move gameId readableMove newEntropy hmove => exact h.move hseated hreplayable hmove
  | @cheat gameId moverShare entropy enabled result ch₁ _ hcheat hmove =>
    have hseated₁ : ch₁.Seated E :=
      after_of_ok hcheat ▸ hseated.step (.enableCheatingForGame gameId [0x80] moverShare)
    exact (h.cheat hcheat).move hseated₁ (hreplayable.cheat hcheat) hmove
  | settle gameId hsettle => exact after_of_ok hsettle ▸ h.settle hallotted hreplayable gameId
  | propose myGames theirWire hpropose =>
    obtain ⟨proposals, rfl, -⟩ := each_sendProposeGame_eq_ok hpropose
    exact h.of_games rfl rfl rfl
  | accept gameId proposal hfind hparity hmine htheirs haccept =>
    obtain ⟨u, ch₁, hinner, hpush⟩ := Act.bind_eq_ok.mp haccept
    cases hpush
    rcases GameOp.acceptProposalInner_after ch gameId with
      ⟨u', hok, proposal', -, -, -, heq⟩ | ⟨e, herror⟩
    swap
    · rw [herror] at hinner
      cases hinner
    obtain rfl : ch₁ = ch.accepted proposal' := by
      rw [hok] at hinner
      cases hinner
      exact heq
    have hleaves := @leavesGame_append ch { ch.accepted proposal' with
      cachedRedoActions := ch.cachedRedoActions ++ [.proposalAccepted gameId] } g.gameId ⟨_, rfl⟩
        ((ChannelState.cachedMoves_append _ _).trans (List.append_nil _)) rfl
    exact hleaves.follows h
  | short gameId proposal hfind hparity hshort => exact h.of_games rfl rfl rfl
  | cancel _ gameId haction hproposed => exact h.of_games rfl rfl rfl
  | shutdown => exact h.of_games rfl rfl rfl

theorem DrainRun.follows {queue : List GameAction} {outs : List BatchAction}
    (hrun : DrainRun E ch queue outs ch') (hseated : ch.Seated E) (hreplayable : ch.Replayable E)
    (hallotted : ch.Allotted) (h : ch.Follows g) : ch'.Follows g := by
  induction hrun with
  | nil ch => exact h
  | cons hdrained _ ih =>
    exact ih (hdrained.steps.preserves (fun _ op hch => hch.step op) hseated)
      (hdrained.replayable hseated hreplayable)
      (hdrained.steps.preserves (fun _ op hch => hch.step op) hallotted)
      (hdrained.follows hseated hreplayable hallotted h)

theorem Failed.follows {action : GameAction} (hfailed : Failed ch action ch')
    (hreplayable : ch.Replayable E) (hallotted : ch.Allotted) (h : ch.Follows g) :
    ch'.Follows g := by
  cases hfailed with
  | same => exact h
  | settle gameId => exact h.settle hallotted hreplayable gameId
  | cheat gameId moverShare entropy =>
    cases hcheat : ChannelState.enableCheatingForGame gameId [0x80] moverShare ch with
    | ok enabled ch₁ =>
      rw [after_of_ok hcheat]
      exact h.cheat hcheat
    | error e ch₁ =>
      obtain rfl := ChannelState.enableCheatingForGame_eq_error hcheat
      rw [after_of_error hcheat]
      exact h
  | shutdown => exact h.of_games rfl rfl rfl

/-! A receipt leaves the games that it does not name. -/

theorem each_applyReceivedProposal_record {games : List GameStartInfo} {groupId : GameID}
    {units : List Unit} (h : Act.each (fun game => do
      ChannelState.applyReceivedProposal E game groupId
      pure ([] : List Unit)) games ch = .ok units ch') : ch'.gameRecord = ch.gameRecord := by
  refine (keeps_each (f := ChannelState.gameRecord) (fun game => ?_) games).ok h
  exact Keeps.bind (keeps_get.bind fun _ => (keeps_lift _).bind fun _ => (keeps_lift _).bind
    fun _ => keeps_modify fun _ => rfl) fun _ => keeps_pure _

theorem Applied.leaves {action : BatchAction} (h : Applied E gameTypes ch action ch')
    (hallotted : ch.Allotted) {id : GameID} (hid : id ∉ action.touches) : ch.LeavesGame id ch' := by
  cases h with
  | declined wire h => exact .refl ch id
  | proposed wire games hgames h => exact leavesGame_of_record (each_applyReceivedProposal_record h)
  | accepted gameId proposal hfind hparity hmine htheirs =>
    exact leavesGame_append ⟨_, rfl⟩ rfl rfl
  | cancelled gameId h => exact leavesGame_of_record rfl
  | move gameId gameMove h =>
    exact ChannelState.applyReceivedMove_leaves h (by simpa [BatchAction.touches] using hid)
  | settled gameId amount h =>
    replace hid : id ≠ gameId := by simpa [BatchAction.touches] using hid
    have hafter := ChannelState.applyReceivedAcceptSettlement_after hallotted gameId
    rw [after_of_ok h] at hafter
    rcases hafter with rfl | ⟨game, -, hlive, hpending, hcached, -, -⟩
    · exact .refl _ id
    · refine ⟨?_, hpending ▸ List.subset_append_left _ _, fun g hg => ?_⟩
      · rw [ChannelState.cachedMoves, hcached]
        rfl
      · rw [ChannelState.findLiveGame, hlive]
        exact (ChannelState.findLiveGame_withoutGame hid).trans hg

theorem ApplyRun.leaves {queue queue' : List GameAction} {actions : List BatchAction}
    (h : ApplyRun E gameTypes ch queue actions ch' queue') (hallotted : ch.Allotted) {id : GameID}
    (hid : id ∉ touched actions) : ch.LeavesGame id ch' := by
  induction h with
  | nil ch queue => exact .refl ch id
  | @cons ch ch₁ ch' queue queue₁ queue' action rest happlied hqueue _ ih =>
    rw [touched, List.flatMap_cons, List.mem_append, not_or] at hid
    have hallotted₁ : ch₁.Allotted :=
      happlied.steps.preserves (fun _ op hch => hch.step op) hallotted
    exact (happlied.leaves hallotted hid.1).trans (ih hallotted₁ hid.2)

/-- A turn without a receipt follows the games. -/
theorem Turn.follows {t t' : Desk} {events : List Event} (hturn : Turn E gameTypes t events t')
    (hseated : t.channel.Seated E) (hreplayable : t.channel.Replayable E)
    (hallotted : t.channel.Allotted) (htaken : takenBy events = []) (h : t.channel.Follows g) :
    t'.channel.Follows g := by
  cases hturn with
  | push action hplain => exact h
  | strip => exact h
  | answer gameId ids action h' haction => exact h
  | allocate => exact h.of_games rfl rfl rfl
  | propose start games hgames h' => exact h.of_games rfl rfl rfl
  | idle ch' deferred hpotato hrun hshutdown hdeferred =>
    exact hrun.follows hseated hreplayable hallotted h
  | send outs ch' deferred shutdown hpotato hrun hshutdown hdeferred =>
    exact (hrun.follows hseated hreplayable hallotted h).of_games rfl rfl rfl
  | fail done action rest outs ch₁ ch' hpotato hqueue hrun hfailed =>
    exact hfailed.follows (hrun.replayable hseated hreplayable)
      (hrun.steps.preserves (fun _ op hch => hch.step op) hallotted)
      (hrun.follows hseated hreplayable hallotted h)
  | pass hpotato => exact h.of_games rfl rfl rfl
  | receive b ch₁ queue₁ hpotato hlast haccept hcancel hrun hverifies => cases htaken

theorem Turns.follows {o : Opening E} {t t' : Desk} {events events' : List Event}
    (h : Turns E gameTypes (Desk.opening o) events t) (hturn : Turn E gameTypes t events' t')
    (htaken : takenBy events' = []) (hfollows : t.channel.Follows g) : t'.channel.Follows g :=
  hturn.follows h.between.1.1 h.replayable (ChannelState.Allotted.turns h) htaken hfollows

/-- A state that an unroll was signed for, as it was then, and what the peer has done since. -/
structure Snapshot where
  state : ChannelState
  since : List BatchAction

def Snapshot.sees (x : Snapshot) (actions : List BatchAction) : Snapshot :=
  { x with since := x.since ++ actions }

/-- The runs of a player with the states that were sent and received last. -/
inductive Chronicle (E : ChannelEnv) (gameTypes : List (Bytes × Option Clvm)) (o : Opening E) :
    Desk → Snapshot → Snapshot → Prop where
  | start : Chronicle E gameTypes o (Desk.opening o) ⟨o.channel, []⟩ ⟨o.channel, []⟩
  | other {t t' : Desk} {sent received : Snapshot} {events : List Event}
      (h : Chronicle E gameTypes o t sent received) (hturn : Turn E gameTypes t events t')
      (hsent : sentBy events = []) (htaken : takenBy events = []) :
      Chronicle E gameTypes o t' sent received
  | sends {t t' : Desk} {sent received : Snapshot} {b : PeerBatch}
      (h : Chronicle E gameTypes o t sent received) (hturn : Turn E gameTypes t [.sends b] t') :
      Chronicle E gameTypes o t' ⟨t'.channel, []⟩ received
  | receives {t t' : Desk} {sent received : Snapshot} {b : PeerBatch}
      (h : Chronicle E gameTypes o t sent received) (hturn : Turn E gameTypes t [.receives b] t') :
      Chronicle E gameTypes o t' (sent.sees b.actions) ⟨t'.channel, []⟩

/-- The channel states that play on chain can start from, with the states that were sent and received
last: a clean shutdown adds its actions to both. -/
inductive Ended (E : ChannelEnv) (o : Opening E) : ChannelState → Snapshot → Snapshot → Prop where
  | turned {gameTypes : List (Bytes × Option Clvm)} {t : Desk} {sent received : Snapshot}
      (h : Chronicle E gameTypes o t sent received) : Ended E o t.channel sent received
  | shut {gameTypes : List (Bytes × Option Clvm)} {t : Desk} {sent received : Snapshot}
      (h : Chronicle E gameTypes o t sent received) {actions : List BatchAction}
      {ch₁ : ChannelState} {queue : List GameAction}
      (hrun : ApplyRun E gameTypes t.channel t.queue actions ch₁ queue) (hlive : ch₁.liveGames = []) :
      Ended E o (settledState { ch₁ with proposedGames := [] }) (sent.sees actions)
        (received.sees actions)
  | cancelled {ch : ChannelState} {sent received : Snapshot} (h : Ended E o ch sent received) :
      Ended E o { ch with proposedGames := [] } sent received

variable {o : Opening E} {sent received : Snapshot}

theorem Turns.chronicle {t : Desk} {events : List Event}
    (h : Turns E gameTypes (Desk.opening o) events t) :
    ∃ sent received, Chronicle E gameTypes o t sent received := by
  induction h with
  | refl => exact ⟨_, _, .start⟩
  | step _ hturn ih =>
    obtain ⟨sent, received, ih⟩ := ih
    have hturn' := hturn
    cases hturn with
    | push action hplain => exact ⟨_, _, ih.other hturn' rfl rfl⟩
    | strip => exact ⟨_, _, ih.other hturn' rfl rfl⟩
    | answer gameId ids action h' haction => exact ⟨_, _, ih.other hturn' rfl rfl⟩
    | allocate => exact ⟨_, _, ih.other hturn' rfl rfl⟩
    | propose start games hgames h' => exact ⟨_, _, ih.other hturn' rfl rfl⟩
    | idle ch' deferred hpotato hrun hshutdown hdeferred => exact ⟨_, _, ih.other hturn' rfl rfl⟩
    | send outs ch' deferred shutdown hpotato hrun hshutdown hdeferred =>
      exact ⟨_, _, ih.sends hturn'⟩
    | fail done action rest outs ch₁ ch' hpotato hqueue hrun hfailed =>
      exact ⟨_, _, ih.other hturn' rfl rfl⟩
    | pass hpotato => exact ⟨_, _, ih.sends hturn'⟩
    | receive b ch₁ queue₁ hpotato hlast haccept hcancel hrun hverifies =>
      exact ⟨_, _, ih.receives hturn'⟩

/-- Every channel state that play on chain can start from is one of these. -/
theorem Last.ended {ch : ChannelState} (h : Last E o ch) :
    ∃ sent received, Ended E o ch sent received := by
  induction h with
  | turned hturns =>
    obtain ⟨sent, received, h⟩ := hturns.chronicle
    exact ⟨sent, received, .turned h⟩
  | shut hturns hrun hlive =>
    obtain ⟨sent, received, h⟩ := hturns.chronicle
    exact ⟨_, _, .shut h hrun hlive⟩
  | cancelled _ ih =>
    obtain ⟨sent, received, h⟩ := ih
    exact ⟨sent, received, h.cancelled⟩

theorem Carried.ended {ch : ChannelState} (h : Carried E o ch) :
    ∃ sent received, Ended E o ch sent received := h.last.ended

theorem Chronicle.turns {t : Desk} (h : Chronicle E gameTypes o t sent received) :
    ∃ events, Turns E gameTypes (Desk.opening o) events t := by
  induction h with
  | start => exact ⟨[], .refl⟩
  | other _ hturn _ _ ih =>
    obtain ⟨events, ih⟩ := ih
    exact ⟨_, ih.step hturn⟩
  | sends _ hturn ih =>
    obtain ⟨events, ih⟩ := ih
    exact ⟨_, ih.step hturn⟩
  | receives _ hturn ih =>
    obtain ⟨events, ih⟩ := ih
    exact ⟨_, ih.step hturn⟩

/-- The states that were sent and received last have been those of the player. -/
theorem Chronicle.last {t : Desk} (h : Chronicle E gameTypes o t sent received) :
    Last E o sent.state ∧ Last E o received.state := by
  induction h with
  | start =>
    have hstart : Turns E gameTypes (Desk.opening o) [] (Desk.opening o) := .refl
    exact ⟨.turned hstart, .turned hstart⟩
  | other _ _ _ _ ih => exact ih
  | sends h hturn ih =>
    obtain ⟨events, hturns⟩ := h.turns
    exact ⟨Last.turned (hturns.step hturn), ih.2⟩
  | receives h hturn ih =>
    obtain ⟨events, hturns⟩ := h.turns
    exact ⟨ih.1, Last.turned (hturns.step hturn)⟩

/-- Without the potato the games are those that were sent. -/
theorem Chronicle.liveGames_sent {t : Desk} (h : Chronicle E gameTypes o t sent received)
    (hpotato : t.potato = false) : t.channel.liveGames = sent.state.liveGames := by
  induction h with
  | start => rfl
  | other _ hturn hsent htaken ih =>
    cases hturn with
    | push action hplain => exact ih hpotato
    | strip => exact ih hpotato
    | answer gameId ids action h' haction => exact ih hpotato
    | allocate => exact ih hpotato
    | propose start games hgames h' => exact ih hpotato
    | idle ch' deferred hpresent hrun hshutdown hdeferred => cases hpresent.symm.trans hpotato
    | send outs ch' deferred shutdown hpresent hrun hshutdown hdeferred => cases hsent
    | fail done action rest outs ch₁ ch' hpresent hqueue hrun hfailed =>
      cases hpresent.symm.trans hpotato
    | pass hpresent => cases hsent
    | receive b ch₁ queue₁ hmissing hlast haccept hcancel hrun hverifies => cases htaken
  | sends _ hturn ih => rfl
  | receives _ hturn ih =>
    cases hturn
    cases hpotato

/-- What is known of the games of a snapshot: the peer has acted on them, or their coins can be
told. -/
def Snapshot.Known (x : Snapshot) (ch : ChannelState) : Prop :=
  ∀ g ∈ x.state.liveGames, g.gameId ∉ touched x.since → ch.Follows g

theorem Snapshot.known_self (h : ((ch.liveGames ++ ch.pendingSettlements).map LiveGame.gameId).Nodup)
    (since : List BatchAction) : Snapshot.Known ⟨ch, since⟩ ch := fun g hg _ =>
  .live g (ChannelState.findLiveGame_of_mem h hg) rfl rfl

theorem Snapshot.Known.applyRun {x : Snapshot} (h : x.Known ch) {queue queue' : List GameAction}
    {actions : List BatchAction} (hrun : ApplyRun E gameTypes ch queue actions ch' queue')
    (hallotted : ch.Allotted) : (x.sees actions).Known ch' := by
  intro g hg huntouched
  rw [Snapshot.sees, touched_append, List.mem_append, not_or] at huntouched
  exact (hrun.leaves hallotted huntouched.2).follows (h g hg huntouched.1)

/-- The coins of the games of both snapshots can be told, up to what the peer has done since. -/
theorem Chronicle.known {t : Desk} (h : Chronicle E gameTypes o t sent received) :
    sent.Known t.channel ∧ received.Known t.channel := by
  induction h with
  | start => exact ⟨fun g hg => (by cases hg), fun g hg => (by cases hg)⟩
  | other h hturn hsent htaken ih =>
    obtain ⟨events, hturns⟩ := h.turns
    exact ⟨fun g hg huntouched => hturns.follows hturn htaken (ih.1 g hg huntouched),
      fun g hg huntouched => hturns.follows hturn htaken (ih.2 g hg huntouched)⟩
  | sends h hturn ih =>
    obtain ⟨events, hturns⟩ := h.turns
    exact ⟨Snapshot.known_self (ChannelState.carries_of_last (.turned (hturns.step hturn))).ids [],
      fun g hg huntouched => hturns.follows hturn rfl (ih.2 g hg huntouched)⟩
  | @receives t t' sent received b h hturn ih =>
    obtain ⟨events, hturns⟩ := h.turns
    have hallotted := ChannelState.Allotted.turns hturns
    have hids := (ChannelState.carries_of_last (.turned (hturns.step hturn))).ids
    refine ⟨fun g hg huntouched => ?_, Snapshot.known_self hids []⟩
    have hlive := (ChannelState.carries_of_last (.turned hturns)).ids
    cases hturn with
    | receive _ ch₁ queue₁ hpotato hlast haccept hcancel hrun hverifies =>
      rw [Snapshot.sees, touched_append, List.mem_append, not_or] at huntouched
      have hmem : g ∈ t.channel.liveGames := by
        rw [h.liveGames_sent hpotato]
        exact hg
      have hfind := (hrun.leaves hallotted huntouched.2).find g
        (ChannelState.findLiveGame_of_mem hlive hmem)
      exact .live g hfind rfl rfl

theorem cachedMoves_settledState (ch : ChannelState) :
    (settledState ch).cachedMoves = ch.cachedMoves := by
  have hcached : (settledState ch).cachedRedoActions =
      ch.cachedRedoActions.filter fun entry => !entry.isAcceptSettlement := by
    change List.filter _ _ = _
    refine List.filter_congr fun entry _ => ?_
    cases entry <;> rfl
  rw [ChannelState.cachedMoves, hcached, ChannelState.cachedMoves, List.filterMap_filter]
  refine List.filterMap_congr fun entry _ => ?_
  cases entry <;> rfl

theorem Ended.known {ch : ChannelState} (h : Ended E o ch sent received) :
    sent.Known ch ∧ received.Known ch := by
  induction h with
  | turned h => exact h.known
  | shut h hrun hlive =>
    obtain ⟨events, hturns⟩ := h.turns
    have hallotted := ChannelState.Allotted.turns hturns
    obtain ⟨hsent, hreceived⟩ := h.known
    have hsettled : ∀ {x : Snapshot} {ch₁ : ChannelState}, x.Known ch₁ →
        x.Known (settledState { ch₁ with proposedGames := [] }) := fun hx g hg huntouched =>
      (hx g hg huntouched).of_games (cachedMoves_settledState _) rfl rfl
    exact ⟨hsettled (hsent.applyRun hrun hallotted), hsettled (hreceived.applyRun hrun hallotted)⟩
  | cancelled _ ih =>
    exact ⟨fun g hg huntouched => (ih.1 g hg huntouched).of_games rfl rfl rfl,
      fun g hg huntouched => (ih.2 g hg huntouched).of_games rfl rfl rfl⟩

theorem Ended.snapshots {ch : ChannelState} (h : Ended E o ch sent received) :
    Last E o ch ∧ Last E o sent.state ∧ Last E o received.state := by
  induction h with
  | turned h =>
    obtain ⟨events, hturns⟩ := h.turns
    exact ⟨.turned hturns, h.last⟩
  | shut h hrun hlive =>
    obtain ⟨events, hturns⟩ := h.turns
    exact ⟨.shut hturns hrun hlive, h.last⟩
  | cancelled _ ih => exact ⟨ih.1.cancelled, ih.2⟩

theorem unrolls_of_steps (h : GameOp.Steps E ch ch') :
    ch'.latestSentUnroll = ch.latestSentUnroll ∧
      ch'.latestReceivedUnroll = ch.latestReceivedUnroll :=
  ⟨(congrArg ChannelState.latestSentUnroll h.core :),
    (congrArg ChannelState.latestReceivedUnroll h.core :)⟩

/-- Only the sending and the receipt of a batch change the unrolls that are kept. -/
theorem Turn.unrolls {t t' : Desk} {events : List Event} (hturn : Turn E gameTypes t events t')
    (hsent : sentBy events = []) (htaken : takenBy events = []) :
    t'.channel.latestSentUnroll = t.channel.latestSentUnroll ∧
      t'.channel.latestReceivedUnroll = t.channel.latestReceivedUnroll := by
  cases hturn with
  | push action hplain => exact ⟨rfl, rfl⟩
  | strip => exact ⟨rfl, rfl⟩
  | answer gameId ids action h' haction => exact ⟨rfl, rfl⟩
  | allocate => exact ⟨rfl, rfl⟩
  | propose start games hgames h' => exact ⟨rfl, rfl⟩
  | idle ch' deferred hpotato hrun hshutdown hdeferred => exact unrolls_of_steps hrun.steps
  | send outs ch' deferred shutdown hpotato hrun hshutdown hdeferred => cases hsent
  | fail done action rest outs ch₁ ch' hpotato hqueue hrun hfailed =>
    obtain ⟨hsent₁, hreceived₁⟩ := unrolls_of_steps hrun.steps
    obtain ⟨hsent₂, hreceived₂⟩ := unrolls_of_steps (E := E) hfailed.steps
    exact ⟨hsent₂.trans hsent₁, hreceived₂.trans hreceived₁⟩
  | pass hpotato => cases hsent
  | receive b ch₁ queue₁ hpotato hlast haccept hcancel hrun hverifies => cases htaken

/-- The unrolls that are kept are those of the snapshots. -/
structure Keeps (E : ChannelEnv) (sent received : Snapshot) (ch : ChannelState) : Prop where
  sent : ch.latestSentUnroll.coin = sent.state.unrollCoinAt E sent.state.stateNumber
  received : ∃ signatures, ch.latestReceivedUnroll =
    some ⟨received.state.unrollCoinAt E received.state.stateNumber, signatures⟩

theorem Chronicle.keeps {t : Desk} (h : Chronicle E gameTypes o t sent received) :
    Keeps E sent received t.channel := by
  induction h with
  | start => exact ⟨rfl, _, rfl⟩
  | other _ hturn hsent htaken ih =>
    obtain ⟨hsame, hsame'⟩ := hturn.unrolls hsent htaken
    obtain ⟨signatures, hreceived⟩ := ih.received
    exact ⟨hsame ▸ ih.sent, signatures, hsame'.trans hreceived⟩
  | sends _ hturn ih =>
    obtain ⟨signatures, hreceived⟩ := ih.received
    cases hturn with
    | send outs ch' deferred shutdown hpotato hrun hshutdown hdeferred =>
      refine ⟨rfl, signatures, ?_⟩
      exact (unrolls_of_steps hrun.steps).2.trans hreceived
    | pass hpotato => exact ⟨rfl, signatures, hreceived⟩
  | receives _ hturn ih =>
    cases hturn with
    | receive b ch₁ queue₁ hpotato hlast haccept hcancel hrun hverifies =>
      refine ⟨?_, _, rfl⟩
      exact (congrArg ChannelUnrollSpendInfo.coin (unrolls_of_steps hrun.steps).1).trans ih.sent

theorem Ended.keeps {ch : ChannelState} (h : Ended E o ch sent received) :
    Keeps E sent received ch := by
  induction h with
  | turned h => exact h.keeps
  | shut h hrun hlive =>
    obtain ⟨signatures, hreceived⟩ := h.keeps.received
    refine ⟨?_, signatures, ?_⟩
    · exact (congrArg ChannelUnrollSpendInfo.coin (unrolls_of_steps hrun.steps).1).trans
        h.keeps.sent
    · exact (unrolls_of_steps hrun.steps).2.trans hreceived
  | cancelled _ ih => exact ⟨ih.sent, ih.received⟩

end OffChainPhase

end ChiaGaming
