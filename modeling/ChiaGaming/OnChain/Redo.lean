import ChiaGaming.OnChain.Matching
import ChiaGaming.OnChain.Shares
import ChiaGaming.Referee.Spending

namespace ChiaGaming

open Act

/-! The moves that are made again on chain. -/

/-- The coin commits to a validator and covers the move, and what the move says of the next coin is
within the bounds of the puzzle. -/
structure OnChainRefereeMoveData.Fits (d : OnChainRefereeMoveData) : Prop where
  commits : d.beforeArgs.gameMove.validationInfoHash.toAtom ≠ []
  length : (d.newMove.basic.moveMade.length : ℤ) ≤
    intOfBytes d.beforeArgs.gameMove.basic.maxMoveSizeRaw
  share : d.newMove.basic.moverShare ≤ d.beforeArgs.amount
  size : (canonicalAtomFromUsize d.newMove.basic.maxMoveSize).length ≤ 2

instance (d : OnChainRefereeMoveData) : Decidable d.Fits :=
  decidable_of_iff (d.beforeArgs.gameMove.validationInfoHash.toAtom ≠ [] ∧
      (d.newMove.basic.moveMade.length : ℤ) ≤
        intOfBytes d.beforeArgs.gameMove.basic.maxMoveSizeRaw ∧
      d.newMove.basic.moverShare ≤ d.beforeArgs.amount ∧
      (canonicalAtomFromUsize d.newMove.basic.maxMoveSize).length ≤ 2)
    ⟨fun ⟨commits, length, share, size⟩ => ⟨commits, length, share, size⟩,
      fun ⟨commits, length, share, size⟩ => ⟨commits, length, share, size⟩⟩

/-- The move that was saved with a move on record. -/
def CachedSendMove.saved? (m : CachedSendMove) : Option OnChainRefereeMoveData :=
  match m.savedPostMoveReferee with
  | some (.theirTurn t) => t.state.moveSpend
  | _ => none

/-- The move on record fits its coin. -/
def CachedSendMove.Fits (m : CachedSendMove) : Prop := ∃ d ∈ m.saved?, d.Fits

instance (m : CachedSendMove) : Decidable m.Fits := inferInstanceAs (Decidable (∃ d ∈ m.saved?, _))

theorem CachedSendMove.fits_iff {m : CachedSendMove} {t : TheirTurnReferee}
    {d : OnChainRefereeMoveData} (hsaved : m.savedPostMoveReferee = some (.theirTurn t))
    (hd : t.state.moveSpend = some d) : m.Fits ↔ d.Fits := by
  have hsome : m.saved? = some d := by
    rw [saved?, hsaved]
    exact hd
  rw [Fits, hsome]
  simp

namespace Referee

variable {E : Env} {p : RefereeParties} {t : TheirTurnReferee} {d : OnChainRefereeMoveData}

/-- A player that waits has moved last, and keeps the move. -/
theorem Reach.made (h : Reach E p (.theirTurn t)) (hd : t.state.moveSpend = some d) :
    ∃ (m : MyTurnReferee) (readableMove : Clvm) (newEntropy : Hash) (n : ℕ)
      (wire : GameMoveWireData), Reach E p (.myTurn m) ∧
        m.myTurnMakeMove E readableMove newEntropy n = .ok (.theirTurn t, wire) := by
  generalize hr : Referee.theirTurn t = r at h
  cases h with
  | @new g n r ph h =>
    rw [Referee.new] at h
    split at h
    · rw [MyTurnReferee.new, refereeInitialSetup_eq_ok] at h
      cases h
      cases hr
    · rw [TheirTurnReferee.new, refereeInitialSetup_eq_ok] at h
      cases h
      cases hr
      cases hd
  | cheating h makeMove moverShare => cases hr
  | mine h hmove =>
    subst hr
    exact ⟨_, _, _, _, _, h, hmove⟩
  | theirs h hmove => cases hr
  | moved h hspent =>
    obtain ⟨details, next', move, -, rfl⟩ := theirTurnCoinSpent_eq_some hspent
    cases hr

/-- The last move is repeated on its coin if and only if it fits. -/
theorem getTransactionForMove_repeats (h : Reach E p (.theirTurn t))
    (hlength : ∀ b, (E.sha256 b).length = 32) (hd : t.state.moveSpend = some d)
    {coin : CoinString} (hcoin : coin.puzzleHash = (theirTurn t).onChainRefereePuzzleHash E)
    (aggSigMeAdditionalData : Hash) :
    (∃ spend, (theirTurn t).getTransactionForMove E aggSigMeAdditionalData coin = .ok spend ∧
        MoveRepeat E p aggSigMeAdditionalData (.theirTurn t) coin spend) ↔ d.Fits := by
  obtain ⟨m, readableMove, newEntropy, n, wire, hm, hmake⟩ := h.made hd
  obtain ⟨handler, result, newState, hhandler, hresult, -, hnext, -⟩ := myTurnMakeMove_eq_ok hmake
  cases hnext
  cases hd
  have hamount : m.spendThisCoin.amount = m.fixed.amount := hm.setUp.1.amount
  rw [repeats_iff_acceptsMove hm hhandler hresult hmake hcoin, acceptsMove_iff hm hlength]
  constructor
  · rintro ⟨⟨hcommits, hlen⟩, hshare, hsize⟩
    exact ⟨hcommits, hlen, hshare.trans_eq hamount.symm, hsize⟩
  · rintro ⟨hcommits, hlen, hshare, hsize⟩
    exact ⟨⟨hcommits, hlen⟩, hshare.trans_eq hamount, hsize⟩

end Referee

namespace OnChainPhase

variable {E : ChannelEnv} {p : OnChainPhase} {coin : CoinString} {pending : PendingMoveSavedState}
  {state : OnChainGameState} {g : LiveGame} {puzzle : ChainPuzzle} {solution : Clvm}
  {conditions : List CoinCondition}

/-- The phase once a move has landed: its game has the referee that was saved with it, and the next
coin, on which the opponent is to move, is followed in the place of the one that is spent. -/
def landed (E : ChannelEnv) (p : OnChainPhase) (coin : CoinString) (pending : PendingMoveSavedState)
    (g : LiveGame) (state : OnChainGameState) (amount : ℕ) : OnChainPhase :=
  let game := g.restoreRefereeState pending.postMoveReferee pending.postMoveLastPh
  let next : CoinString := ⟨coin.toCoinId E.sha256, pending.expectedPh, amount⟩
  ((((p.forgetMove coin).released coin).withGame game).track next { state with
    puzzleHash := pending.expectedPh
    ourTurn := false
    gameFinished := game.isGameOver }).rememberCurrentGameCoin pending.gameId next

theorem after_moveLanded {next : CoinString} (hg : p.findLiveGame pending.gameId = some g) :
    (moveLanded E pending state next).after p =
      ((p.withGame (g.restoreRefereeState pending.postMoveReferee pending.postMoveLastPh)).track next
        { state with
          puzzleHash := next.puzzleHash
          ourTurn := false
          gameFinished := (g.restoreRefereeState pending.postMoveReferee
            pending.postMoveLastPh).isGameOver }).rememberCurrentGameCoin pending.gameId next := by
  have hid : g.gameId = pending.gameId := by simpa using List.find?_some (hg : List.find? _ _ = _)
  have hrestored : (p.withGame (g.restoreRefereeState pending.postMoveReferee
      pending.postMoveLastPh)).getGameById pending.gameId =
        .ok (g.restoreRefereeState pending.postMoveReferee pending.postMoveLastPh) := by
    have hfind := @find_putGame (g.restoreRefereeState pending.postMoveReferee
      pending.postMoveLastPh) g p.liveGames (by rw [← hid] at hg; exact hg)
    rw [getGameById, findLiveGame, ← hid]
    exact congrArg (orError · _) hfind
  have hrestore : restoreGameState pending.gameId pending.postMoveReferee pending.postMoveLastPh p =
      .ok () (p.withGame (g.restoreRefereeState pending.postMoveReferee pending.postMoveLastPh)) := by
    rw [restoreGameState, bind_of_ok (get_apply p), getGameById, hg]
    rfl
  rw [moveLanded, after_bind_of_ok hrestore, after_bind_of_ok (get_apply _), isGameOver, hrestored,
    ok_bind, after_bind_of_ok (lift_ok _ _), after_bind_of_ok (modify_apply _ _),
    after_bind_of_ok (get_apply _)]
  -- an error of the claim leaves the phase as it is
  cases hclaim : buildTimeoutClaim E _ pending.gameId next with
  | ok claim => rfl
  | error e => rfl

theorem after_pendingMoveSpent (hpending : p.pendingMoves.lookup coin = some pending)
    (hstate : p.gameMap.lookup coin = some state) (hg : p.findLiveGame pending.gameId = some g)
    (hconditions : fromPuzzleAndSolution E.toEnv puzzle solution = .ok conditions) {amount : ℕ}
    (hcreated : firstCreated conditions = some (pending.expectedPh, amount)) :
    (pendingMoveSpent E coin puzzle solution).after p = landed E p coin pending g state amount := by
  rw [after, pendingMoveSpent_of_some hpending hconditions, hcreated, hstate]
  dsimp only
  rw [if_pos rfl]
  exact (after_map _ _ _).trans (after_moveLanded hg)

/-- A move that is made on chain is waited for as one that is made again: with the coin of the game
after it, and the referee that has made it. -/
theorem doOnChainMove_waits {gameId : GameID} {readableMove : Clvm} {entropy : Hash}
    {effects : List ChainEffect} {p' : OnChainPhase}
    (h : doOnChainMove E coin gameId readableMove entropy p = .ok effects p') :
    p'.pendingMoves = p.pendingMoves ∨ ∃ g r next wire, p.findLiveGame gameId = some g ∧
      g.refereeMaker = .myTurn r ∧
      r.myTurnMakeMove E.toEnv readableMove entropy p.stateNumber = .ok (next, wire) ∧
      p'.pendingMoves = p.pendingMoves.insert coin {
        expectedPh := next.outcomeRefereePuzzleHash E.toEnv
        gameId
        postMoveReferee := next
        postMoveLastPh := next.outcomeRefereePuzzleHash E.toEnv } := by
  rw [doOnChainMove, bind_of_ok (get_apply p)] at h
  cases hturn : p.myMoveInGame gameId with
  | none =>
    rw [hturn] at h
    cases h
  | some ourTurn =>
  cases ourTurn with
  | false =>
    rw [hturn] at h
    cases h
  | true =>
  rw [hturn] at h
  obtain ⟨gameAmount, p₁, hlifted, h⟩ := Act.bind_eq_ok.mp h
  obtain ⟨-, rfl⟩ := lift_eq_ok.mp hlifted
  obtain ⟨before, p₂, hlifted, h⟩ := Act.bind_eq_ok.mp h
  obtain ⟨hbefore, rfl⟩ := lift_eq_ok.mp hlifted
  obtain ⟨⟨oldPh, newPh, details, transaction⟩, p₃, hmove, h⟩ := Act.bind_eq_ok.mp h
  rw [onChainOurMove, bind_of_ok (get_apply _)] at hmove
  obtain ⟨game, p₄, hlifted, hmove⟩ := Act.bind_eq_ok.mp hmove
  obtain ⟨hgame, rfl⟩ := lift_eq_ok.mp hlifted
  obtain ⟨⟨moved, wire⟩, p₅, hlifted, hmove⟩ := Act.bind_eq_ok.mp hmove
  obtain ⟨hmade, rfl⟩ := lift_eq_ok.mp hlifted
  obtain ⟨r, next, hr, hnext, rfl⟩ := LiveGame.internalMakeMove_moveTo hmade
  dsimp only at hmove
  rw [bind_of_ok (modify_apply _ _)] at hmove
  obtain ⟨tx, p₆, hlifted, hmove⟩ := Act.bind_eq_ok.mp hmove
  obtain ⟨-, rfl⟩ := lift_eq_ok.mp hlifted
  cases hmove
  dsimp only at h
  have hrestore : ∀ referee lastPh, Keeps pendingMoves (restoreGameState gameId referee lastPh) :=
    fun referee lastPh => Keeps.bind keeps_get fun _ => Keeps.bind (keeps_lift _) fun _ =>
      keeps_modify fun _ => rfl
  rcases ite_eq_ok.mp h with ⟨-, h⟩ | ⟨-, h⟩
  · obtain ⟨u, p₇, hrestored, h⟩ := Act.bind_eq_ok.mp h
    cases h
    exact .inl ((hrestore _ _).ok hrestored :)
  rw [bind_of_ok (get_apply _)] at h
  obtain ⟨after, p₇, hlifted, h⟩ := Act.bind_eq_ok.mp h
  obtain ⟨hafter, rfl⟩ := lift_eq_ok.mp hlifted
  obtain ⟨u, p₈, hrestored, h⟩ := Act.bind_eq_ok.mp h
  rcases ite_eq_ok.mp h with ⟨-, h⟩ | ⟨-, h⟩
  · cases h
  cases h
  have hfind : p₅.findLiveGame gameId = some game := orError_eq_ok.mp hgame
  have hid : game.gameId = gameId := by
    simpa using List.find?_some (hfind : List.find? _ _ = _)
  have hput : (p₅.withGame (game.moveTo E.toEnv next)).findLiveGame gameId =
      some (game.moveTo E.toEnv next) := by
    have hput := @find_putGame (game.moveTo E.toEnv next) game p₅.liveGames
      (by rw [← hid] at hfind; exact hfind)
    rw [← hid]
    exact hput
  have hmoved : after = game.moveTo E.toEnv next :=
    Option.some.inj ((orError_eq_ok.mp hafter).symm.trans hput)
  refine .inr ⟨game, r, next, wire, hfind, hr, hnext, ?_⟩
  have hpending := (hrestore _ _).ok hrestored
  rw [hmoved]
  exact congrArg (AList.insert coin _) hpending

end OnChainPhase

/-! The redos of an unroll. -/

/-- A move on record is made again on a coin. -/
structure CachedSendMove.Redoes (E : ChannelEnv) (m : CachedSendMove) (coin : CoinString)
    (pending : PendingMoveSavedState) (spend : RefereeSpend) : Prop where
  gameId : m.gameId = pending.gameId
  referee : m.savedPostMoveReferee = some pending.postMoveReferee
  lastPh : m.savedPostMoveLastPh = some pending.postMoveLastPh
  expected : pending.expectedPh = pending.postMoveReferee.outcomeRefereePuzzleHash E.toEnv
  spend : pending.postMoveReferee.getTransactionForMove E.toEnv E.aggSigMeAdditionalData coin =
    .ok spend

theorem cons_eraseP_perm {α : Type} {p : α → Bool} {l : List α} {a : α} (h : l.find? p = some a) :
    (a :: l.eraseP p).Perm l := by
  induction l with
  | nil => cases h
  | cons b l ih =>
    cases hb : p b with
    | true =>
      rw [List.find?_cons_of_pos hb] at h
      cases h
      rw [List.eraseP_cons_of_pos hb]
    | false =>
      rw [List.find?_cons_of_neg (by simp [hb])] at h
      rw [List.eraseP_cons_of_neg (by simp [hb])]
      exact (List.Perm.swap b a _).trans ((ih h).cons b)

theorem filterMap_eraseP {α β : Type} {f : α → Option β} {p : β → Bool} (l : List α) :
    (l.eraseP fun a => (f a).any p).filterMap f = (l.filterMap f).eraseP p := by
  induction l with
  | nil => rfl
  | cons a l ih =>
    cases hfa : f a with
    | none => simp [hfa, ih]
    | some b =>
      cases hb : p b with
      | true => simp [hfa, hb]
      | false => simp [hfa, hb, ih]

namespace SpendChannelCoinPhase.Running

variable {E : ChannelEnv} {ch ch' : ChannelState} {coin : CoinString} {id : GameID} {expectRedo : Bool}

/-- What a redo takes from the moves on record. -/
inductive Redone (E : ChannelEnv) (ch ch' : ChannelState) (coin : CoinString) (id : GameID)
    (expectRedo : Bool) : Option (PendingMoveSavedState × ChainEffect) → Prop where
  | none (hexpect : ¬ expectRedo = true) (hch : ch'.cachedMoves = ch.cachedMoves) :
      Redone E ch ch' coin id expectRedo none
  | some (m : CachedSendMove) (pending : PendingMoveSavedState) (spend : RefereeSpend)
      (hm : ch.cachedMoveForGame id = some m) (hlive : (ch.findLiveGame id).isSome = true)
      (hredoes : m.Redoes E coin pending spend)
      (hch : (m :: ch'.cachedMoves).Perm ch.cachedMoves) :
      Redone E ch ch' coin id expectRedo (some (pending, .spendTransaction spend))

theorem redoMove_redone {redo : Option (PendingMoveSavedState × ChainEffect)}
    (h : redoMove E coin id expectRedo ch = .ok redo ch') :
    Redone E ch ch' coin id expectRedo redo ∧ ch'.liveGames = ch.liveGames := by
  rw [redoMove] at h
  obtain ⟨taken, ch₁, htaken, h₁⟩ := Act.bind_eq_ok.mp h
  obtain ⟨rfl, rfl⟩ : taken = ch.cachedMoveForGame id ∧ ch₁ = { ch with
      cachedRedoActions := ch.cachedRedoActions.eraseP fun entry =>
        (ChannelState.sentMove? entry).any fun move : CachedSendMove => move.gameId = id } := by
    cases htaken
    exact ⟨rfl, rfl⟩
  have hmoves : ChannelState.cachedMoves { ch with
      cachedRedoActions := ch.cachedRedoActions.eraseP fun entry =>
        (ChannelState.sentMove? entry).any fun move : CachedSendMove => move.gameId = id } =
      ch.cachedMoves.eraseP fun move => move.gameId = id := filterMap_eraseP _
  cases hm : ch.cachedMoveForGame id with
  | none =>
    rw [hm] at h₁
    dsimp only at h₁
    split_ifs at h₁ with hexpect
    · cases h₁
    · cases h₁
      refine ⟨.none hexpect (hmoves.trans ?_), rfl⟩
      exact List.eraseP_of_forall_not (List.find?_eq_none.mp hm)
  | some m =>
    rw [hm] at h₁
    obtain ⟨referee, ch₂, hlifted, h₂⟩ := Act.bind_eq_ok.mp h₁
    obtain ⟨hreferee, rfl⟩ := lift_eq_ok.mp hlifted
    obtain ⟨lastPh, ch₃, hlifted, h₃⟩ := Act.bind_eq_ok.mp h₂
    obtain ⟨hlast, rfl⟩ := lift_eq_ok.mp hlifted
    rw [bind_of_ok (get_apply _)] at h₃
    obtain ⟨game, ch₄, hlifted, h₄⟩ := Act.bind_eq_ok.mp h₃
    obtain ⟨hgame, rfl⟩ := lift_eq_ok.mp hlifted
    obtain ⟨spend, ch₅, hlifted, h₅⟩ := Act.bind_eq_ok.mp h₄
    obtain ⟨hspend, rfl⟩ := lift_eq_ok.mp hlifted
    cases h₅
    refine ⟨.some m _ spend hm ?_ ⟨?_, orError_eq_ok.mp hreferee, orError_eq_ok.mp hlast, rfl, hspend⟩
      ?_, rfl⟩
    · exact Option.isSome_of_mem (GameOp.getGameById_eq_ok.mp hgame)
    · simpa using List.find?_some hm
    · rw [hmoves]
      exact cons_eraseP_perm hm

/-- A redo of one of the entries, in a game that is live. -/
def RedoOf (E : ChannelEnv) (ch : ChannelState) (entries : List (Σ _ : CoinString, OnChainGameState))
    (m : CachedSendMove) (r : CoinString × PendingMoveSavedState × ChainEffect) : Prop :=
  ∃ state spend, ⟨r.1, state⟩ ∈ entries ∧ state.ourTurn = true ∧ state.gameId = m.gameId ∧
    (ch.findLiveGame m.gameId).isSome = true ∧ r.2.2 = .spendTransaction spend ∧
      m.Redoes E r.1 r.2.1 spend

/-- Each move on record is taken once at most. -/
theorem redoMoves_taken {ids : List GameID} {entries : List (Σ _ : CoinString, OnChainGameState)}
    {redos : List (CoinString × PendingMoveSavedState × ChainEffect)}
    (h : redoMoves E ids entries ch = .ok redos ch') :
    ch'.liveGames = ch.liveGames ∧ ∃ taken, (taken ++ ch'.cachedMoves).Perm ch.cachedMoves ∧
      List.Forall₂ (RedoOf E ch entries) taken redos := by
  induction entries generalizing ch redos with
  | nil =>
    cases h
    exact ⟨rfl, [], .refl _, .nil⟩
  | cons e es ih =>
    have hwiden : ∀ {ch₁ : ChannelState} {m r}, ch₁.liveGames = ch.liveGames →
        RedoOf E ch₁ es m r → RedoOf E ch (e :: es) m r := by
      rintro ch₁ m r hlive ⟨state, spend, hmem, hrest⟩
      rw [ChannelState.findLiveGame, hlive] at hrest
      exact ⟨state, spend, List.mem_cons_of_mem _ hmem, hrest⟩
    rw [redoMoves] at h
    split_ifs at h with hturn
    · obtain ⟨redo, ch₁, hredo, h₁⟩ := Act.bind_eq_ok.mp h
      obtain ⟨rest, ch₂, hrest, h₂⟩ := Act.bind_eq_ok.mp h₁
      cases h₂
      obtain ⟨hredone, hlive⟩ := redoMove_redone hredo
      obtain ⟨hlive', taken, hperm, hall⟩ := ih hrest
      refine ⟨hlive'.trans hlive, ?_⟩
      cases hredone with
      | none hexpect hch => exact ⟨taken, hch ▸ hperm, hall.imp fun _ _ => hwiden hlive⟩
      | some m pending spend hm hgame hredoes hch =>
        refine ⟨m :: taken, (hperm.cons m).trans hch, .cons ?_ (hall.imp fun _ _ => hwiden hlive)⟩
        have hid : m.gameId = e.2.gameId := by simpa using List.find?_some hm
        exact ⟨e.2, spend, List.mem_cons_self, hturn, hid.symm, hid ▸ hgame, rfl, hredoes⟩
    · obtain ⟨hlive, taken, hperm, hall⟩ := ih h
      exact ⟨hlive, taken, hperm, hall.imp fun _ _ => hwiden rfl⟩

/-- A coin that is expected to be moved on is. -/
theorem redoMoves_expected {ids : List GameID} {entries : List (Σ _ : CoinString, OnChainGameState)}
    {redos : List (CoinString × PendingMoveSavedState × ChainEffect)}
    (h : redoMoves E ids entries ch = .ok redos ch') {e : Σ _ : CoinString, OnChainGameState}
    (he : e ∈ entries) (hturn : e.2.ourTurn = true) (hid : e.2.gameId ∈ ids) :
    e.1 ∈ redos.map Prod.fst := by
  induction entries generalizing ch redos with
  | nil => cases he
  | cons e' es ih =>
    rw [redoMoves] at h
    split_ifs at h with hturn'
    · obtain ⟨redo, ch₁, hredo, h₁⟩ := Act.bind_eq_ok.mp h
      obtain ⟨rest, ch₂, hrest, h₂⟩ := Act.bind_eq_ok.mp h₁
      cases h₂
      rw [List.map_append, List.mem_append]
      rcases List.mem_cons.mp he with rfl | he
      · left
        cases redo with
        | some redo => simp
        | none =>
          obtain ⟨hredone, -⟩ := redoMove_redone hredo
          cases hredone with
          | none hexpect hch => exact absurd (decide_eq_true hid) hexpect
      · exact .inr (ih hrest he)
    · rcases List.mem_cons.mp he with rfl | he
      · exact absurd hturn hturn'
      · exact ih h he

/-- Each coin has one redo at most. -/
theorem redoMoves_coins {ids : List GameID} {entries : List (Σ _ : CoinString, OnChainGameState)}
    {redos : List (CoinString × PendingMoveSavedState × ChainEffect)}
    (h : redoMoves E ids entries ch = .ok redos ch') :
    (redos.map Prod.fst).Sublist (entries.map Sigma.fst) := by
  induction entries generalizing ch redos with
  | nil =>
    cases h
    exact .refl _
  | cons e es ih =>
    rw [redoMoves] at h
    split_ifs at h with hturn
    · obtain ⟨redo, ch₁, hredo, h₁⟩ := Act.bind_eq_ok.mp h
      obtain ⟨rest, ch₂, hrest, h₂⟩ := Act.bind_eq_ok.mp h₁
      cases h₂
      cases redo with
      | none => exact (ih hrest).cons _
      | some redo => exact (ih hrest).cons_cons _
    · exact (ih h).cons _

theorem lookup_pendingMovesOf {redos : List (CoinString × PendingMoveSavedState × ChainEffect)}
    (hnodup : (redos.map Prod.fst).Nodup) {r : CoinString × PendingMoveSavedState × ChainEffect}
    (hr : r ∈ redos) : (pendingMovesOf redos).lookup r.1 = some r.2.1 := by
  have hkeep : ∀ (redos : List (CoinString × PendingMoveSavedState × ChainEffect))
      (d : Dict CoinString PendingMoveSavedState) (c : CoinString), c ∉ redos.map Prod.fst →
        (redos.foldl (fun d r => d.insert r.1 r.2.1) d).lookup c = d.lookup c := by
    intro redos
    induction redos with
    | nil => exact fun _ _ _ => rfl
    | cons r redos ih =>
      intro d c hc
      rw [List.map_cons, List.mem_cons, not_or] at hc
      exact (ih _ c hc.2).trans (AList.lookup_insert_ne hc.1)
  rw [pendingMovesOf]
  generalize (∅ : Dict CoinString PendingMoveSavedState) = d
  induction redos generalizing d with
  | nil => cases hr
  | cons r' redos ih =>
    obtain ⟨hnot, hnodup⟩ := List.nodup_cons.mp hnodup
    rcases List.mem_cons.mp hr with rfl | hr
    · exact (hkeep redos _ _ hnot).trans (AList.lookup_insert _)
    · exact ih hnodup hr _

end SpendChannelCoinPhase.Running

/-- A game that is live is not being settled. -/
theorem ChannelState.ne_of_settling {ch : ChannelState}
    (hids : ((ch.liveGames ++ ch.pendingSettlements).map LiveGame.gameId).Nodup) {id : GameID}
    (hlive : (ch.findLiveGame id).isSome = true) {g : LiveGame} (hg : g ∈ ch.pendingSettlements) :
    g.gameId ≠ id := by
  intro hid
  obtain ⟨g', hg'⟩ := Option.isSome_iff_exists.mp hlive
  rw [List.map_append] at hids
  refine List.disjoint_of_nodup_append hids (List.mem_map_of_mem (List.mem_of_find?_eq_some hg')) ?_
  rw [GameOp.findLiveGame_gameId hg', ← hid]
  exact List.mem_map_of_mem hg

/-- A coin that was found by a move on record is not the last coin of its game. -/
theorem ChannelState.gameOfCoin_not_latest {ch : ChannelState} {matched : List GameID} {ph : Hash}
    {amount : ℕ} {state : OnChainGameState} {live : Bool}
    (h : ch.gameOfCoin matched ph amount = some (state, live)) {g : LiveGame}
    (hg : ch.findLiveGame state.gameId = some g) (hwaits : g.isMyTurn = false)
    (hturn : state.ourTurn = true)
    (hids : ((ch.liveGames ++ ch.pendingSettlements).map LiveGame.gameId).Nodup) :
    g.lastRefereePuzzleHash ≠ ph := by
  intro hlast
  rw [gameOfCoin] at h
  cases hlatest : ch.latestGame matched ph amount with
  | some g' =>
    rw [hlatest] at h
    cases h
    have hg' : ch.findLiveGame g'.gameId = some g' :=
      findLiveGame_of_mem hids (List.mem_of_find?_eq_some hlatest)
    obtain rfl : g' = g := Option.some.inj (hg'.symm.trans hg)
    exact Bool.noConfusion (hwaits.symm.trans hturn)
  | none =>
    rw [hlatest] at h
    dsimp only at h
    cases hredo : ch.redoGame matched ph amount with
    | some g' =>
      rw [hredo] at h
      cases h
      obtain ⟨m, hm, hgame⟩ := List.exists_of_findSome?_eq_some hredo
      split_ifs at hgame with hmatch
      have hcond := List.find?_some hgame
      simp only [decide_eq_true_eq] at hcond
      have hmem := List.mem_of_find?_eq_some hgame
      obtain rfl : g' = g := Option.some.inj ((findLiveGame_of_mem hids hmem).symm.trans hg)
      have hnot := List.find?_eq_none.mp hlatest g' hmem
      exact hnot (by simp [hcond, hmatch.2, hlast])
    | none =>
      rw [hredo] at h
      obtain ⟨g', hg', heq⟩ := Option.map_eq_some_iff.mp h
      cases heq
      exact ne_of_settling hids (Option.isSome_of_mem hg) (List.mem_of_find?_eq_some hg') rfl

theorem firstCreated_of_repeat {E : Env} {p : RefereeParties} {aggSigMeAdditionalData : Hash}
    {next : Referee} {coin : CoinString} {spend : RefereeSpend}
    (h : MoveRepeat E p aggSigMeAdditionalData next coin spend)
    (hlength : ∀ b, (E.sha256 b).length = 32) (hamount : next.fixed.amount < 2 ^ 64) :
    ∃ conditions, fromPuzzleAndSolution E (.referee (spend.puzzle.coin E)) spend.solution =
      .ok conditions ∧
        firstCreated conditions = some (next.outcomeRefereePuzzleHash E, next.fixed.amount) := by
  have hph : hashFromSlice (next.outcomeRefereePuzzleHash E) =
      .ok (next.outcomeRefereePuzzleHash E) := by
    have hlen : (next.outcomeRefereePuzzleHash E).length = 32 := hlength _
    rw [hashFromSlice, if_neg (List.ne_nil_of_length_pos (by omega)), if_neg (by omega)]
  have hu64 : u64FromAtom (bytesOfNat next.fixed.amount) = some next.fixed.amount := by
    rw [u64FromAtom, natOfBytes_bytesOfNat, if_pos hamount]
  have hassert : parseCondition (Clvm.list [condAssertBeforeHeightRelative,
      .atom (bytesOfNat next.fixed.timeout)]) = .ok .other := by
    simp [parseCondition, Clvm.properList]
  have hsigned : parseCondition (Clvm.list [condAggSigMe, .atom (E.keyBytes p.myIdentity.publicKey),
      .atom (shatree E.sha256 spend.solution)]) = .ok .other := by
    have hne : condAggSigMe ≠ condCreateCoin := by decide
    simp [parseCondition, Clvm.properList, hne]
  have hcreate : parseCondition (Clvm.list [condCreateCoin, .atom (next.outcomeRefereePuzzleHash E),
      .atom (bytesOfNat next.fixed.amount)]) =
        .ok (.createCoin (next.outcomeRefereePuzzleHash E) next.fixed.amount) := by
    simp [parseCondition, Clvm.properList, hu64, hph, orError]
  refine ⟨[.other, .createCoin (next.outcomeRefereePuzzleHash E) next.fixed.amount, .other], ?_, rfl⟩
  rw [fromPuzzleAndSolution, ChainPuzzle.run, h.accepted, orError, ok_bind, Clvm.properList_list,
    orError, ok_bind]
  simp only [parseConditions, hassert, hcreate, hsigned, ok_bind]

theorem amount_lt_of_parseConditions {cs : List Clvm} {conditions : List CoinCondition} {ph : Hash}
    {amount : ℕ} (h : parseConditions cs = .ok conditions)
    (hmem : .createCoin ph amount ∈ conditions) : amount < 2 ^ 64 := by
  induction cs generalizing conditions with
  | nil =>
    cases h
    cases hmem
  | cons c cs ih =>
    obtain ⟨first, hfirst, h⟩ := bind_eq_ok.mp h
    obtain ⟨rest, hrest, h⟩ := bind_eq_ok.mp h
    cases h
    rcases List.mem_cons.mp hmem with rfl | hmem
    · unfold parseCondition at hfirst
      split at hfirst
      · split_ifs at hfirst with hcode
        · obtain ⟨amount', hamount, hrest⟩ := bind_eq_ok.mp hfirst
          obtain ⟨ph', hph, hrest⟩ := bind_eq_ok.mp hrest
          cases hrest
          have hsome := orError_eq_ok.mp hamount
          unfold u64FromAtom at hsome
          split_ifs at hsome with hlt
          cases hsome
          exact hlt
        · cases hfirst
      · cases hfirst
    · exact ih hrest hmem

theorem Referee.getTransactionForMove_coin {E : Env} {aggSigMeAdditionalData : Hash} {r : Referee}
    {coin : CoinString} {spend : RefereeSpend}
    (h : r.getTransactionForMove E aggSigMeAdditionalData coin = .ok spend) : spend.coin = coin := by
  obtain ⟨d, -, h⟩ := bind_eq_ok.mp h
  obtain ⟨share, -, h⟩ := bind_eq_ok.mp h
  cases h
  rfl

/-- The game of a move on record as the move has left it. -/
theorem ChannelState.Carries.made {E : ChannelEnv} {o : Opening E} {ch : ChannelState}
    (h : ch.Carries E o) {m : CachedSendMove} (hm : m ∈ ch.cachedMoves) {g : LiveGame}
    (hg : ch.findLiveGame m.gameId = some g) :
    ∃ t d, m.Replays E g t ∧ t.state.moveSpend = some d ∧
      Referee.Reach E.toEnv (o.channel.refereeParties E m.gameId) (.theirTurn t) ∧
      g.lastRefereePuzzleHash = (Referee.theirTurn t).outcomeRefereePuzzleHash E.toEnv := by
  obtain ⟨t, hreplays⟩ := h.moves m hm g hg
  obtain ⟨d, hd, -⟩ := hreplays.moveSpend
  have hseated := h.live g (List.mem_of_find?_eq_some hg)
  have hreach := hseated.referee
  have hlast := hseated.coin
  rw [hreplays.referee] at hreach hlast
  rw [GameOp.findLiveGame_gameId hg, h.parties] at hreach
  exact ⟨t, d, hreplays, hd, hreach, hlast⟩

namespace SpendChannelCoinPhase.Running

variable {E : ChannelEnv} {o : Opening E} {s s' : Running} {ch : ChannelState} {coin : CoinString}
  {state : OnChainGameState} {m : CachedSendMove} {gameMap : Dict CoinString OnChainGameState}
  {redos : List (CoinString × PendingMoveSavedState × ChainEffect)}

/-- The redos of the coins that are followed. -/
structure Redos (E : ChannelEnv) (ch : ChannelState) (gameMap : Dict CoinString OnChainGameState)
    (redos : List (CoinString × PendingMoveSavedState × ChainEffect)) : Prop where
  coins : (redos.map Prod.fst).Nodup
  taken : ∃ taken rest, (taken ++ rest).Perm ch.cachedMoves ∧
    List.Forall₂ (RedoOf E ch gameMap.entries) taken redos
  expected : ∀ coin state, gameMap.lookup coin = some state → state.ourTurn = true →
    ch.hasCachedMoveForGame state.gameId = true → ∃ r ∈ redos, r.1 = coin

theorem redos_of_redoMoves {ch' : ChannelState}
    (h : redoMoves E ((gameMap.entries.filter fun e =>
      e.2.ourTurn && ch.hasCachedMoveForGame e.2.gameId).map fun e => e.2.gameId)
        gameMap.entries ch = .ok redos ch') : Redos E ch gameMap redos := by
  obtain ⟨-, taken, hperm, hall⟩ := redoMoves_taken h
  refine ⟨(redoMoves_coins h).nodup gameMap.nodupKeys, ⟨taken, _, hperm, hall⟩, ?_⟩
  intro coin state hcoin hturn hcached
  have hentry := Dict.lookup_eq_some.mp hcoin
  refine List.mem_map.mp (redoMoves_expected h hentry hturn (List.mem_map.mpr ⟨_, ?_, rfl⟩))
  exact List.mem_filter.mpr ⟨hentry, by simp [hturn, hcached]⟩

theorem Redos.exists_move (h : Redos E ch gameMap redos)
    {r : CoinString × PendingMoveSavedState × ChainEffect} (hr : r ∈ redos) :
    ∃ m ∈ ch.cachedMoves, RedoOf E ch gameMap.entries m r := by
  obtain ⟨taken, rest, hperm, hall⟩ := h.taken
  suffices hmem : ∃ m ∈ taken, RedoOf E ch gameMap.entries m r by
    obtain ⟨m, hm, hof⟩ := hmem
    exact ⟨m, hperm.subset (List.mem_append_left _ hm), hof⟩
  clear hperm h
  induction hall with
  | nil => cases hr
  | cons hof _ ih =>
    rcases List.mem_cons.mp hr with rfl | hr
    · exact ⟨_, List.mem_cons_self, hof⟩
    · obtain ⟨m, hm, hof⟩ := ih hr
      exact ⟨m, List.mem_cons_of_mem _ hm, hof⟩

/-- The spends are those of the redos. -/
theorem Redos.spends (h : Redos E ch gameMap redos) :
    ∃ taken rest, (taken ++ rest).Perm ch.cachedMoves ∧
      List.Forall₂ (fun m spend => ∃ coin pending, CachedSendMove.Redoes E m coin pending spend) taken
        ((redos.map fun r => r.2.2).filterMap spendOf) := by
  obtain ⟨taken, rest, hperm, hall⟩ := h.taken
  refine ⟨taken, rest, hperm, ?_⟩
  clear hperm h
  induction hall with
  | nil => exact .nil
  | cons hof _ ih =>
    obtain ⟨state, spend, -, -, -, -, heffect, hredoes⟩ := hof
    rw [List.map_cons, heffect]
    exact .cons ⟨_, _, hredoes⟩ ih

/-- The last move of the coin's game is made again: the puzzle takes the spend and creates the coin
that is waited for, and once the spend is seen the phase goes on from the game after the move. -/
structure MadeAgain (E : ChannelEnv) (parties : RefereeParties) (m : CachedSendMove)
    (coin : CoinString) (effects : List ChainEffect) (q : OnChainPhase)
    (pending : PendingMoveSavedState) (spend : RefereeSpend) : Prop where
  redoes : m.Redoes E coin pending spend
  sent : .spendTransaction spend ∈ effects
  waited : q.pendingMoves.lookup coin = some pending
  taken : MoveRepeat E.toEnv parties E.aggSigMeAdditionalData pending.postMoveReferee coin spend
  lastPh : pending.postMoveLastPh = pending.expectedPh
  lands : ∀ (p : OnChainPhase) (state : OnChainGameState) (g : LiveGame),
    p.pendingMoves.lookup coin = some pending → p.gameMap.lookup coin = some state →
      p.findLiveGame m.gameId = some g →
        (OnChainPhase.pendingMoveSpent E coin (.referee (spend.puzzle.coin E.toEnv))
          spend.solution).after p =
            OnChainPhase.landed E p coin pending g state pending.postMoveReferee.fixed.amount

variable {g : LiveGame}

/-- What is made again as it should be fits. -/
theorem MadeAgain.fits {parties : RefereeParties} {effects : List ChainEffect} {q : OnChainPhase}
    {pending : PendingMoveSavedState} {spend : RefereeSpend}
    (h : MadeAgain E parties m coin effects q pending spend) (hcarries : ch.Carries E o)
    (hlength : ∀ b, (E.sha256 b).length = 32) (hparties : parties = o.channel.refereeParties E m.gameId)
    (hm : m ∈ ch.cachedMoves) (hg : ch.findLiveGame m.gameId = some g)
    (hph : coin.puzzleHash = m.matchPuzzleHash) : m.Fits := by
  obtain ⟨t, d, hreplays, hd, hreach, -⟩ := hcarries.made hm hg
  have hnext : pending.postMoveReferee = .theirTurn t :=
    Option.some.inj (h.redoes.referee.symm.trans hreplays.saved)
  have hgot := h.redoes.spend
  have htaken := h.taken
  rw [hnext] at hgot htaken
  rw [hparties] at htaken
  exact (CachedSendMove.fits_iff hreplays.saved hd).mpr ((Referee.getTransactionForMove_repeats hreach
    hlength hd (hph.trans hreplays.coin) E.aggSigMeAdditionalData).mp ⟨spend, hgot, htaken⟩)

theorem Redos.of_survived {ids : List GameID} (h : Redos E (ch.survived ids) gameMap redos) :
    Redos E ch gameMap redos := by
  have hmoves := @ChannelState.cachedMoves_survived ch ids
  obtain ⟨taken, rest, hperm, hall⟩ := h.taken
  refine ⟨h.coins, ⟨taken, rest, hmoves ▸ hperm, hall⟩, fun coin state hcoin hturn hcached => ?_⟩
  refine h.expected coin state hcoin hturn ?_
  rw [ChannelState.hasCachedMoveForGame, ChannelState.cachedMoveForGame, hmoves]
  exact hcached

theorem eq_of_spendOf {effect : ChainEffect} {spend : RefereeSpend}
    (h : spendOf effect = some spend) : effect = .spendTransaction spend := by
  unfold spendOf at h
  split at h
  · cases h
    rfl
  · cases h

/-- Of the effects of a handover the redos are the spends. -/
theorem spendOf_handedOver (gameMap : Dict CoinString OnChainGameState) :
    (gameMap.entries.map (unrollStatus ch) ++ redos.map fun r => r.2.2).filterMap spendOf =
      (redos.map fun r => r.2.2).filterMap spendOf := by
  have hstatuses : (gameMap.entries.map (unrollStatus ch)).filterMap spendOf = [] := by
    rw [List.filterMap_map]
    exact List.filterMap_eq_nil_iff.mpr fun _ _ => rfl
  rw [List.filterMap_append, hstatuses]
  rfl

/-- A coin with a redo is ours to move on, and the game of the move waits for the opponent. -/
theorem Redos.waits (h : Redos E ch gameMap redos) (hcarries : ch.Carries E o)
    (hcoin : gameMap.lookup coin = some state) (hm : m ∈ ch.cachedMoves)
    (hid : m.gameId = state.gameId) {spend : RefereeSpend} (hspends : spend.coin = coin)
    (hspend : spend ∈ (redos.map fun r => r.2.2).filterMap spendOf) :
    state.ourTurn = true ∧ ∃ g, ch.findLiveGame m.gameId = some g ∧ g.isMyTurn = false := by
  obtain ⟨effect, heffect, hspend⟩ := List.mem_filterMap.mp hspend
  obtain ⟨r, hr, rfl⟩ := List.mem_map.mp heffect
  obtain ⟨m₁, hm₁, state₁, spend₁, hentry, hturn, hid₁, hlive, heffect₁, hredoes₁⟩ :=
    h.exists_move hr
  rw [heffect₁] at hspend
  obtain rfl : spend₁ = spend := Option.some.inj hspend
  obtain rfl : r.1 = coin := (Referee.getTransactionForMove_coin hredoes₁.spend).symm.trans hspends
  obtain rfl : state₁ = state :=
    Option.some.inj ((Dict.lookup_eq_some.mpr hentry).symm.trans hcoin)
  obtain ⟨g, hg⟩ := Option.isSome_iff_exists.mp hlive
  rw [← hid₁, ← hid] at hg
  obtain ⟨t, d, hreplays, -⟩ := hcarries.made hm hg
  refine ⟨hturn, g, hg, ?_⟩
  rw [LiveGame.isMyTurn, hreplays.referee]
  rfl

/-- A redo of the coin makes the move on record again, if that fits. -/
theorem Redos.madeAgain (h : Redos E ch gameMap redos) (hcarries : ch.Carries E o)
    (hlength : ∀ b, (E.sha256 b).length = 32) (hcoin : gameMap.lookup coin = some state)
    (hm : m ∈ ch.cachedMoves) (hid : m.gameId = state.gameId)
    (hph : coin.puzzleHash = m.matchPuzzleHash) (hg : ch.findLiveGame m.gameId = some g)
    (hamount : g.getAmount < 2 ^ 64) (hfits : m.Fits) {r : CoinString × PendingMoveSavedState × ChainEffect}
    (hr : r ∈ redos) (hrcoin : r.1 = coin) {effects : List ChainEffect} {q : OnChainPhase}
    (heffects : ∀ r ∈ redos, r.2.2 ∈ effects) (hq : q.pendingMoves = pendingMovesOf redos) :
    ∃ pending spend, MadeAgain E (o.channel.refereeParties E m.gameId) m coin effects q pending
      spend := by
  obtain ⟨m₁, hm₁, state₁, spend, hentry, hturn, hid₁, hlive, heffect, hredoes⟩ := h.exists_move hr
  subst hrcoin
  obtain rfl : state₁ = state :=
    Option.some.inj ((Dict.lookup_eq_some.mpr hentry).symm.trans hcoin)
  have hids : m₁.gameId = m.gameId := hid₁.symm.trans hid.symm
  obtain ⟨t, d, hreplays, hd, hreach, hlast⟩ := hcarries.made hm hg
  obtain ⟨t₁, d₁, hreplays₁, -⟩ := hcarries.made hm₁ (hids ▸ hg)
  obtain rfl : t₁ = t := Referee.theirTurn.inj (hreplays₁.referee.symm.trans hreplays.referee)
  have hnext : r.2.1.postMoveReferee = .theirTurn t₁ :=
    Option.some.inj (hredoes.referee.symm.trans hreplays₁.saved)
  have hredoes' : m.Redoes E r.1 r.2.1 spend :=
    ⟨hids.symm.trans hredoes.gameId, hreplays.saved.trans (congrArg some hnext.symm),
      hreplays.lastPh.trans (hreplays₁.lastPh.symm.trans hredoes.lastPh), hredoes.expected,
      hredoes.spend⟩
  obtain ⟨spend', hspend', htaken⟩ := (Referee.getTransactionForMove_repeats hreach hlength hd
    (hph.trans hreplays.coin) E.aggSigMeAdditionalData).mpr
      ((CachedSendMove.fits_iff hreplays.saved hd).mp hfits)
  have hgot := hredoes.spend
  rw [hnext] at hgot
  obtain rfl : spend = spend' := Except.ok.inj (hgot.symm.trans hspend')
  rw [← hnext] at htaken
  have hlastPh : r.2.1.postMoveLastPh = r.2.1.expectedPh := by
    rw [hredoes.expected, hnext, ← hlast]
    exact Option.some.inj (hredoes'.lastPh.symm.trans hreplays.lastPh)
  have hfixed : r.2.1.postMoveReferee.fixed.amount < 2 ^ 64 := by
    rw [hnext, ← hreplays.referee]
    exact hamount
  refine ⟨r.2.1, spend, hredoes', heffect ▸ heffects r hr, ?_, htaken, hlastPh, ?_⟩
  · rw [hq]
    exact lookup_pendingMovesOf h.coins hr
  · intro p state g' hpending hstate hg'
    obtain ⟨conditions, hconditions, hcreated⟩ := firstCreated_of_repeat htaken hlength hfixed
    rw [← hredoes.expected] at hcreated
    exact OnChainPhase.after_pendingMoveSpent hpending hstate (hredoes'.gameId ▸ hg') hconditions
      hcreated

/-- The moves on record are made again once at most, on the coins that they were made on, and so that
the puzzle takes them if and only if they fit, unless the coin is that after the move as well. -/
theorem madeAgain_iff (hlength : ∀ b, (E.sha256 b).length = 32)
    (hcarried : OffChainPhase.Carried E o ch) (hch : s.channelState = some ch)
    {unrollCoin : CoinString} {unrolled : Option (ChainPuzzle × Clvm)} {n : ℕ}
    {effects : List ChainEffect} {handed : Bool}
    (h : takeOver E unrollCoin unrolled n s = .ok (effects, handed) s') :
    ∃ q, s'.replacement = some q ∧
      (∃ taken rest, (taken ++ rest).Perm ch.cachedMoves ∧
        List.Forall₂ (fun m spend => ∃ coin pending, CachedSendMove.Redoes E m coin pending spend)
          taken (effects.filterMap spendOf)) ∧
      ∀ coin state m, q.gameMap.lookup coin = some state → m ∈ ch.cachedMoves →
        m.gameId = state.gameId → coin.puzzleHash = m.matchPuzzleHash →
          ((∃ pending spend, MadeAgain E (o.channel.refereeParties E m.gameId) m coin effects q
              pending spend) ↔
            m.Fits ∧ ∀ g, ch.findLiveGame m.gameId = some g →
              g.lastRefereePuzzleHash ≠ coin.puzzleHash) := by
  obtain ⟨puzzle, solution, conditions, found, -, hok, hprospects, hends⟩ := takeOver_handedOver hch h
  have hcarries := ChannelState.carries_of_last hcarried.last
  rcases hends with ⟨-, -, ⟨q, hq, hmap⟩, hquiet⟩ | ⟨-, s₁, effects₁, -, hover, hspends⟩
  · refine ⟨q, hq, ⟨[], ch.cachedMoves, .refl _, hquiet ▸ .nil⟩, fun coin state m hcoin => ?_⟩
    rw [hmap] at hcoin
    cases hcoin
  obtain ⟨redos, ch', wasStale, rewardCoin, hredoMoves, heffects, hq⟩ := hover.replaced
  have hredos := (redos_of_redoMoves hredoMoves).of_survived
  have hsent : effects.filterMap spendOf = (redos.map fun r => r.2.2).filterMap spendOf := by
    rw [hspends, heffects]
    exact spendOf_handedOver _
  refine ⟨_, hq, hsent ▸ hredos.spends, fun coin state m hcoin hm hid hph => ?_⟩
  obtain ⟨hunroll, -⟩ := (lookup_keptCoins hprospects).mp hcoin
  obtain ⟨hcreated, -, matched, live, hgame⟩ := ChannelState.setStateForCoins_gameOfCoin hunroll
  have hfound := ChannelState.gameOfCoin_found hgame
  constructor
  · rintro ⟨pending, spend, hmade⟩
    have hspend : spend ∈ (redos.map fun r => r.2.2).filterMap spendOf :=
      hsent ▸ List.mem_filterMap.mpr ⟨_, hmade.sent, rfl⟩
    obtain ⟨hturn, g, hg, hwaits⟩ :=
      hredos.waits hcarries hcoin hm hid hmade.taken.spends hspend
    refine ⟨hmade.fits hcarries hlength rfl hm hg hph, fun g' hg' => ?_⟩
    obtain rfl : g = g' := Option.some.inj (hg.symm.trans hg')
    exact ChannelState.gameOfCoin_not_latest hgame (hid ▸ hg) hwaits hturn hcarries.ids
  · rintro ⟨hfits, hnot⟩
    have hcached : ch.hasCachedMoveForGame state.gameId = true :=
      List.find?_isSome.mpr ⟨m, hm, by simp [hid]⟩
    have hamount : coin.amount < 2 ^ 64 := by
      obtain ⟨raw, -, hspend⟩ := bind_eq_ok.mp hok
      obtain ⟨list, -, hparsed⟩ := bind_eq_ok.mp hspend
      exact amount_lt_of_parseConditions hparsed (mem_gameCoins.mp hcreated).1
    -- the coin was found by the move, as the game is neither at it nor settled
    obtain ⟨hturn, g, hg, hstake⟩ : state.ourTurn = true ∧ ∃ g,
        ch.findLiveGame m.gameId = some g ∧ g.getAmount = coin.amount := by
      generalize coin.puzzleHash = ph at hfound hnot
      cases hfound with
      | latest g hg hlast hstake =>
        exact absurd hlast (hnot g (hid ▸ ChannelState.findLiveGame_of_mem hcarries.ids hg))
      | redo m' g hm' hg hid' hph' hstake =>
        exact ⟨rfl, g, hid ▸ ChannelState.findLiveGame_of_mem hcarries.ids hg, hstake⟩
      | settling g hg hlast hstake =>
        obtain ⟨r, hr, rfl⟩ := hredos.expected coin _ hcoin rfl hcached
        obtain ⟨m₁, hm₁, state₁, spend₁, hentry, -, hid₁, hlive, -⟩ := hredos.exists_move hr
        have hstate := (Dict.lookup_eq_some.mpr hentry).symm.trans hcoin
        rw [← hid₁, Option.some.inj hstate] at hlive
        exact absurd rfl (ChannelState.ne_of_settling hcarries.ids hlive hg)
    obtain ⟨r, hr, hrcoin⟩ := hredos.expected coin state hcoin hturn hcached
    refine hredos.madeAgain hcarries hlength hcoin hm hid hph hg (hstake ▸ hamount) hfits hr hrcoin
      (fun r hr => ?_) rfl
    obtain ⟨m₁, -, state₁, spend₁, -, -, -, -, heffect, -⟩ := hredos.exists_move hr
    have hspend : spend₁ ∈ effects.filterMap spendOf := by
      rw [hsent]
      exact List.mem_filterMap.mpr ⟨_, List.mem_map_of_mem hr, by rw [heffect]; rfl⟩
    obtain ⟨effect, hmem, hsome⟩ := List.mem_filterMap.mp hspend
    rw [heffect, ← eq_of_spendOf hsome]
    exact hmem

end SpendChannelCoinPhase.Running

/-! A game of single moves again, in which the peer's move comes with a bound of its choice. -/

namespace Volley

open Gambit (validator myHandler theirHandler factory hash)

def record : Clvm :=
  .list [.nat 1, .nat 1, .nat 2, .nat 1, .atom (shatree Steady.digest validator), .nil, .nat 5,
    .nat 3, .nat 1, myHandler, theirHandler, validator]

/-- Each move leaves one to each player. -/
def run : Run := fun program env =>
  if program = factory then some (.list [record])
  else if program = validator then (env.nth 2).map fun state => answer hash state [5] .nil
  else if program = myHandler then
    some (.list [.atom [0x73], .atom [9], validator, .atom hash, validator, .atom hash, .nat 5,
      .nat 1, theirHandler])
  else if program = theirHandler then some (.list [.nil, .nil, myHandler])
  else none

def env : ChannelEnv where
  sha256 := Steady.digest
  run := run
  keyBytes pk := bytesOfNat pk.sum
  unrollPuzzleHash := [5]
  refereeCoinPuzzleHash := [1]
  standardPuzzleHash := [6]
  aggSigMeAdditionalData := [7]

def opening : Opening env where
  initiator := true
  setup := Gambit.setup
  signatures := (ChannelState.opened env Gambit.setup).peerSignaturesAt env 21 22 0
  startPotato := Gambit.setup_startPotato
  valid := Gambit.setup_valid
  channelKey := Steady.setup_channelKey
  unrollKey := Steady.setup_unrollKey
  verified := (ChannelState.verifies_iff _ _ rfl rfl).mpr rfl

open OffChainPhase

def channelOf (p : OffChainPhase) : ChannelState := p.channelState.getD opening.channel

def signedBatch (p : OffChainPhase) (actions : List BatchAction) : PeerMessage :=
  .batch ⟨actions, let ch := channelOf ((applyActions env actions).after p)
    ch.peerSignaturesAt env 21 22 (ch.stateNumber + 1), none⟩

def receiving (p : OffChainPhase) (actions : List BatchAction) : OffChainPhase :=
  { p with incomingMessages := p.incomingMessages ++ [signedBatch p actions] }

def moving (p : OffChainPhase) : OffChainPhase :=
  (runLocal env .flush).after ((runLocal env (.move 1 .nil hash)).after p)

def proposing (p : OffChainPhase) : OffChainPhase :=
  (runLocal env .flush).after ((runLocal env (.propose ⟨[1], 15, .nil⟩)).after p)

/-- We propose the game. -/
def proposed : OffChainPhase :=
  proposing (fromCompletedHandshake opening [([1], some factory)] [])

/-- The peer accepts. -/
def accepted : OffChainPhase :=
  (processQueuedMessage env).after (receiving proposed [.acceptProposal 1])

/-- We move. -/
def served : OffChainPhase := moving accepted

/-- A move of the peer's, with the bound for the next one as the coin will have it. -/
def reply (raw : Bytes) : List BatchAction := [.move 1 ⟨⟨[9], 1, 5, raw⟩, .hash hash, none⟩]

def replied (raw : Bytes) : OffChainPhase :=
  (processQueuedMessage env).after (receiving served (reply raw))

/-- We move again. -/
def returned (raw : Bytes) : OffChainPhase := moving (replied raw)

def channel (raw : Bytes) : ChannelState := channelOf (returned raw)

def running (raw : Bytes) : SpendChannelCoinPhase.Running :=
  { Gambit.running with
    state := .unrollConditions Gambit.unrollCoin 4
    channelState := some (channel raw) }

def unrolled (raw : Bytes) : Option (ChainPuzzle × Clvm) :=
  some (.unroll ((channelOf (replied raw)).argsAt env 4), (channelOf (replied raw)).timeoutConditionsAt 4)

def takeOver (raw : Bytes) : Act Error SpendChannelCoinPhase.Running (List ChainEffect × Bool) :=
  SpendChannelCoinPhase.Running.takeOver env Gambit.unrollCoin (unrolled raw) 4


/-- Whether a coin is followed that a move on record was made on, and not the last one of its game. -/
def follows (fits : Bool) (ch : ChannelState) (q : OnChainPhase) : Bool :=
  q.gameMap.entries.any fun e => ch.cachedMoves.any fun m =>
    decide (m.gameId = e.2.gameId ∧ e.1.puzzleHash = m.matchPuzzleHash ∧ decide m.Fits = fits) &&
      (ch.findLiveGame m.gameId).any fun g => g.lastRefereePuzzleHash ≠ e.1.puzzleHash

/-- Whether the session goes on without an error, up to the unroll. -/
def evaluated (raw : Bytes) (fits : Bool) : Bool :=
  ((processQueuedMessage env).succeeds (receiving proposed [.acceptProposal 1]) &&
    accepted.channelSpendNextPhase.isNone) &&
  ((processQueuedMessage env).succeeds (receiving served (reply raw)) &&
    (replied raw).channelSpendNextPhase.isNone && (returned raw).channelState.isSome) &&
  ((takeOver raw).succeeds (running raw) &&
    ((takeOver raw).after (running raw)).replacement.any (follows fits (channel raw)))

variable {raw : Bytes} {fits : Bool}

theorem digest_length (b : Bytes) : (env.sha256 b).length = 32 := by
  have h : env.sha256 b = Steady.digest b := rfl
  simp [h, Steady.digest]

theorem moving_reached {p : OffChainPhase} (h : Reach env opening p) :
    Reach env opening (moving p) := (h.act _).act _

theorem proposing_reached {p : OffChainPhase} (h : Reach env opening p) :
    Reach env opening (proposing p) := (h.act _).act _

theorem received_reached {p : OffChainPhase} {actions : List BatchAction} (h : Reach env opening p)
    (hok : (processQueuedMessage env).succeeds (receiving p actions) = true)
    (hnext : ((processQueuedMessage env).after (receiving p actions)).channelSpendNextPhase.isNone =
      true) : Reach env opening ((processQueuedMessage env).after (receiving p actions)) := by
  obtain ⟨effects, hok⟩ := Act.eq_ok_of_succeeds hok
  exact h.receive (signedBatch p actions) hok (Option.isNone_iff_eq_none.mp hnext)

theorem carried_of_reached {p : OffChainPhase} (h : Reach env opening p)
    (hsome : p.channelState.isSome = true) : Carried env opening (channelOf p) := by
  obtain ⟨ch, hch⟩ := Option.isSome_iff_exists.mp hsome
  rw [channelOf, hch]
  exact .disputed (.running h hch)

theorem channel_carried (h : evaluated raw fits = true) : Carried env opening (channel raw) := by
  simp only [evaluated, Bool.and_eq_true] at h
  obtain ⟨⟨⟨haccepted, hgoesOn⟩, ⟨hreplied, hgoesOn'⟩, hsome⟩, -⟩ := h
  have hserved := moving_reached (received_reached (proposing_reached (.start _ _)) haccepted hgoesOn)
  exact carried_of_reached (moving_reached (received_reached hserved hreplied hgoesOn')) hsome

theorem coin_of_follows {ch : ChannelState} {q : OnChainPhase} (h : follows fits ch q = true) :
    ∃ coin state m, q.gameMap.lookup coin = some state ∧ m ∈ ch.cachedMoves ∧
      m.gameId = state.gameId ∧ coin.puzzleHash = m.matchPuzzleHash ∧ decide m.Fits = fits ∧
      ∃ g, ch.findLiveGame m.gameId = some g ∧ g.lastRefereePuzzleHash ≠ coin.puzzleHash := by
  obtain ⟨e, he, h⟩ := List.any_eq_true.mp h
  obtain ⟨m, hm, h⟩ := List.any_eq_true.mp h
  obtain ⟨hcond, hlast⟩ := Bool.and_eq_true_iff.mp h
  obtain ⟨hid, hph, hfits⟩ := of_decide_eq_true hcond
  obtain ⟨g, hg, hlast⟩ := Option.any_eq_true _ _ |>.mp hlast
  exact ⟨e.1, e.2, m, Dict.lookup_eq_some.mpr he, hm, hid, hph, hfits, g, hg, of_decide_eq_true hlast⟩

/-- The coin that our last move was made on is followed, and it is not the last one of the game. -/
theorem coin_followed (h : evaluated raw fits = true) :
    ∃ effects handed s' q, takeOver raw (running raw) = .ok (effects, handed) s' ∧
      s'.replacement = some q ∧ follows fits (channel raw) q = true := by
  simp only [evaluated, Bool.and_eq_true] at h
  obtain ⟨-, htaken, hfollows⟩ := h
  obtain ⟨⟨effects, handed⟩, htaken⟩ := Act.eq_ok_of_succeeds htaken
  obtain ⟨q, hq, hfollows⟩ := Option.any_eq_true _ _ |>.mp hfollows
  exact ⟨effects, handed, _, q, htaken, hq, hfollows⟩

end Volley

open SpendChannelCoinPhase.Running (MadeAgain)

/-- With the bound that the peer's move is sent with, our move is made again. -/
theorem madeAgain_iff_volley :
    ∃ effects handed s' q coin state m pending spend,
      Volley.takeOver [5] (Volley.running [5]) = .ok (effects, handed) s' ∧
      s'.replacement = some q ∧ q.gameMap.lookup coin = some state ∧
      m ∈ (Volley.channel [5]).cachedMoves ∧
      MadeAgain Volley.env (Volley.opening.channel.refereeParties Volley.env m.gameId) m coin effects q
        pending spend := by
  have hevaluated : Volley.evaluated [5] true = true := by decide +kernel
  obtain ⟨effects, handed, s', q, htaken, hq, hfollows⟩ := Volley.coin_followed hevaluated
  obtain ⟨coin, state, m, hcoin, hm, hid, hph, hfits, g, hg, hlast⟩ := Volley.coin_of_follows hfollows
  obtain ⟨q', hq', -, hmade⟩ := SpendChannelCoinPhase.Running.madeAgain_iff Volley.digest_length
    (Volley.channel_carried hevaluated) rfl htaken
  obtain rfl : q = q' := Option.some.inj (hq.symm.trans hq')
  obtain ⟨pending, spend, hmade⟩ := (hmade coin state m hcoin hm hid hph).mpr
    ⟨of_decide_eq_true hfits, fun g' hg' => by
      obtain rfl : g = g' := Option.some.inj (hg.symm.trans hg')
      exact hlast⟩
  exact ⟨effects, handed, s', q, coin, state, m, pending, spend, htaken, hq, hcoin, hm, hmade⟩

/-- The coin that the peer's move leaves takes no move, and ours is not made again on it. -/
theorem unbounded_coin_not_moved_on :
    OffChainPhase.Carried Volley.env Volley.opening (Volley.channel []) ∧
    ∃ effects handed s' q coin state m,
      Volley.takeOver [] (Volley.running []) = .ok (effects, handed) s' ∧
      s'.replacement = some q ∧ q.gameMap.lookup coin = some state ∧
      m ∈ (Volley.channel []).cachedMoves ∧ m.gameId = state.gameId ∧
      coin.puzzleHash = m.matchPuzzleHash ∧
      ¬ ∃ pending spend, MadeAgain Volley.env
        (Volley.opening.channel.refereeParties Volley.env m.gameId) m coin effects q pending spend := by
  have hevaluated : Volley.evaluated [] false = true := by decide +kernel
  have hcarried := Volley.channel_carried hevaluated
  obtain ⟨effects, handed, s', q, htaken, hq, hfollows⟩ := Volley.coin_followed hevaluated
  obtain ⟨coin, state, m, hcoin, hm, hid, hph, hfits, g, hg, -⟩ := Volley.coin_of_follows hfollows
  refine ⟨hcarried, effects, handed, s', q, coin, state, m, htaken, hq, hcoin, hm, hid, hph, ?_⟩
  rintro ⟨pending, spend, hmade⟩
  exact of_decide_eq_false hfits (hmade.fits (ChannelState.carries_of_last hcarried.last)
    Volley.digest_length rfl hm hg hph)

end ChiaGaming
