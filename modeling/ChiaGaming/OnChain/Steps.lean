import ChiaGaming.OnChain.Runs

namespace ChiaGaming

theorem putGame_cons_of_eq {g game : LiveGame} (games : List LiveGame) (h : g.gameId = game.gameId) :
    putGame game (g :: games) = game :: games := if_pos h

theorem putGame_cons_of_ne {g game : LiveGame} (games : List LiveGame) (h : g.gameId ≠ game.gameId) :
    putGame game (g :: games) = g :: putGame game games := if_neg h

theorem find_putGame {game g : LiveGame} {games : List LiveGame}
    (h : games.find? (fun g => g.gameId = game.gameId) = some g) :
    (putGame game games).find? (fun g => g.gameId = game.gameId) = some game := by
  induction games with
  | nil => cases h
  | cons g' games ih =>
    by_cases hid : g'.gameId = game.gameId
    · rw [putGame_cons_of_eq games hid, List.find?_cons_of_pos (by simp)]
    · rw [putGame_cons_of_ne games hid, List.find?_cons_of_neg (by simpa using hid)]
      rw [List.find?_cons_of_neg (by simpa using hid)] at h
      exact ih h

theorem find_putGame_of_ne {game : LiveGame} {id : GameID} {games : List LiveGame}
    (h : id ≠ game.gameId) :
    (putGame game games).find? (fun g => g.gameId = id) = games.find? fun g => g.gameId = id := by
  induction games with
  | nil => rfl
  | cons g games ih =>
    by_cases hid : g.gameId = game.gameId
    · rw [putGame_cons_of_eq games hid, List.find?_cons_of_neg (by simpa using h.symm),
        List.find?_cons_of_neg (by simpa [hid] using h.symm)]
    · rw [putGame_cons_of_ne games hid, List.find?_cons, List.find?_cons, ih]

/-! What the steps of the phase can do. -/

def isMove : ParsedRefereeSolution → Bool
  | .move _ => true
  | _ => false

section Referee

variable {E : Env} {r : Referee} {coin : CoinString} {conditions : List CoinCondition}
  {solution : ParsedRefereeSolution} {n : ℕ}

theorem Referee.theirTurnCoinSpent_arrives {ph : Hash} {amount : ℕ}
    (hcreated : firstCreated conditions = some (ph, amount))
    (harrives : r.arrives E coin (firstCreated conditions) = true) :
    r.theirTurnCoinSpent E coin conditions n solution =
      .ok (some r, .expected r.stateNumber ph amount) := by
  unfold Referee.theirTurnCoinSpent
  rw [harrives, hcreated]

theorem Referee.theirTurnCoinSpent_timedout
    (harrives : r.arrives E coin (firstCreated conditions) = false)
    (hmove : isMove solution = false) :
    r.theirTurnCoinSpent E coin conditions n solution = (do
      let share ← r.getOurCurrentShare
      .ok (some r, .timedout (r.rewardCoin E coin share))) := by
  unfold Referee.theirTurnCoinSpent
  rw [harrives]
  cases solution with
  | move m => cases hmove
  | timeout => cases firstCreated conditions <;> rfl
  | slash => cases firstCreated conditions <;> rfl

theorem Referee.theirTurnCoinSpent_moved {t : TheirTurnReferee} {m : MoveSolution}
    (harrives : (Referee.theirTurn t).arrives E coin (firstCreated conditions) = false) :
    (Referee.theirTurn t).theirTurnCoinSpent E coin conditions n (.move m) = (do
      let (next, result) ← t.theirTurnCoinSpent E coin conditions n (.move m)
      .ok (next, .theirs result)) := by
  unfold Referee.theirTurnCoinSpent
  rw [harrives]
  cases firstCreated conditions <;> rfl

theorem Referee.theirTurnCoinSpent_myTurn {r : MyTurnReferee} {m : MoveSolution}
    (harrives : (Referee.myTurn r).arrives E coin (firstCreated conditions) = false) :
    (Referee.myTurn r).theirTurnCoinSpent E coin conditions n (.move m) =
      .error (.channel "their_turn_coin_spent called on MyTurn referee") := by
  unfold Referee.theirTurnCoinSpent
  rw [harrives]
  cases firstCreated conditions <;> rfl

end Referee

namespace OnChainPhase

open Act

variable {E : ChannelEnv} {p : OnChainPhase} {gameId : GameID} {game moved : LiveGame}
  {coin : CoinString}

theorem gameId_of_findLiveGame (h : p.findLiveGame gameId = some game) : game.gameId = gameId := by
  have := List.find?_some h
  simpa using this

theorem findLiveGame_withGame (h : p.findLiveGame gameId = some game) (hid : moved.gameId = gameId) :
    (p.withGame moved).findLiveGame gameId = some moved := by
  subst hid
  exact find_putGame h

theorem findLiveGame_withGame_of_ne (h : gameId ≠ moved.gameId) :
    (p.withGame moved).findLiveGame gameId = p.findLiveGame gameId := find_putGame_of_ne h

theorem getGameById_of_find (h : p.findLiveGame gameId = some game) :
    p.getGameById gameId = .ok game := by
  rw [getGameById, h]
  rfl

theorem findGame_of_find (h : p.findLiveGame gameId = some game) : p.findGame gameId = some game := by
  rw [findGame, h]
  rfl

theorem getGameOurCurrentShare_of_find (h : p.findLiveGame gameId = some game) :
    p.getGameOurCurrentShare gameId = game.getOurCurrentShare := by
  rw [getGameOurCurrentShare, findGame_of_find h]
  rfl

theorem getGameAmount_of_find (h : p.findLiveGame gameId = some game) :
    p.getGameAmount gameId = .ok game.getAmount := by
  rw [getGameAmount, findGame_of_find h]
  rfl

theorem isGameOver_of_find (h : p.findLiveGame gameId = some game) :
    p.isGameOver gameId = .ok game.isGameOver := by
  rw [isGameOver, getGameById_of_find h]
  rfl

/-! The spend of a coin of a live game. -/

variable (E) in
/-- The first coin that is created is one that our referee knows, as the next one of the game. -/
def goesOn (game : LiveGame) (coin : CoinString) (ph : Hash) : Prop :=
  (ph = game.currentPuzzleHash E.toEnv ∨ ph = game.outcomePuzzleHash E.toEnv) ∧
      coin.puzzleHash ≠ ph ∨
    coin.puzzleHash = game.currentPuzzleHash E.toEnv ∧ ph = game.outcomePuzzleHash E.toEnv

instance (game : LiveGame) (coin : CoinString) (ph : Hash) : Decidable (goesOn E game coin ph) :=
  inferInstanceAs (Decidable (_ ∨ _))

variable {conditions : List CoinCondition} {ph : Hash} {amount : ℕ} {solution : ParsedRefereeSolution}

theorem gameCoinSpent_reward (hcreated : firstCreated conditions = some (ph, amount))
    (hreward : p.rewardPuzzleHash = ph) :
    gameCoinSpent E gameId coin conditions solution p = .ok (.ourReward ph amount) p := by
  unfold gameCoinSpent
  rw [bind_of_ok (get_apply p), hcreated]
  refine (bind_of_ok (lift_ok _ p) _).trans ?_
  dsimp only
  rw [if_pos hreward]
  rfl

theorem gameCoinSpent_none (hcreated : firstCreated conditions = none) :
    gameCoinSpent E gameId coin conditions solution p = .error (.strErr "bad coin" []) p := by
  unfold gameCoinSpent
  rw [bind_of_ok (get_apply p), hcreated]
  rfl

/-- The coin is one of a game that the phase does not have. -/
theorem gameCoinSpent_missing (hcreated : firstCreated conditions = some (ph, amount))
    (hreward : p.rewardPuzzleHash ≠ ph) (hgame : p.findLiveGame gameId = none) :
    ∃ e, gameCoinSpent E gameId coin conditions solution p = .error e p := by
  refine ⟨.strErr "no live game with the given game id" [], ?_⟩
  unfold gameCoinSpent
  rw [bind_of_ok (get_apply p), hcreated]
  refine (bind_of_ok (lift_ok _ p) _).trans ?_
  dsimp only
  rw [if_neg hreward, getGameById, hgame]
  rfl

theorem gameCoinSpent_of_find (hcreated : firstCreated conditions = some (ph, amount))
    (hreward : p.rewardPuzzleHash ≠ ph) (hgame : p.findLiveGame gameId = some game) :
    gameCoinSpent E gameId coin conditions solution p =
      if (ph = game.currentPuzzleHash E.toEnv ∨ ph = game.outcomePuzzleHash E.toEnv) ∧
          coin.puzzleHash ≠ ph ∨ game.isGameOver = true ∧ isMove solution = true then
        .ok (.theirSpend (.expected p.stateNumber ph amount))
          (p.withGame { game with lastRefereePuzzleHash := ph })
      else match game.theirTurnCoinSpent E.toEnv coin conditions p.stateNumber solution with
        | .ok next => .ok (.theirSpend next.2) (p.withGame next.1)
        | .error e => .error e p := by
  unfold gameCoinSpent
  rw [bind_of_ok (get_apply p), hcreated]
  refine (bind_of_ok (lift_ok _ p) _).trans ?_
  dsimp only
  rw [if_neg hreward, getGameById_of_find hgame]
  refine (bind_of_ok (lift_ok _ p) _).trans ?_
  by_cases hgoes : (ph = game.currentPuzzleHash E.toEnv ∨ ph = game.outcomePuzzleHash E.toEnv) ∧
      coin.puzzleHash ≠ ph ∨ game.isGameOver = true ∧ isMove solution = true
  · rw [if_pos hgoes, if_pos]
    · rfl
    · cases solution with
      | move m => simpa [isMove] using hgoes
      | timeout => simpa [isMove] using hgoes
      | slash => simpa [isMove] using hgoes
  · rw [if_neg hgoes, if_neg]
    · cases game.theirTurnCoinSpent E.toEnv coin conditions p.stateNumber solution with
      | ok next => rfl
      | error e => rfl
    · cases solution with
      | move m => simpa [isMove] using hgoes
      | timeout => simpa [isMove] using hgoes
      | slash => simpa [isMove] using hgoes

theorem arrives_eq (hcreated : firstCreated conditions = some (ph, amount)) :
    game.refereeMaker.arrives E.toEnv coin (firstCreated conditions) = true ↔
      coin.puzzleHash = game.currentPuzzleHash E.toEnv ∧ ph = game.outcomePuzzleHash E.toEnv := by
  rw [Referee.arrives, hcreated]
  simp [LiveGame.currentPuzzleHash, LiveGame.outcomePuzzleHash]

/-- The referee stays where it is. -/
theorem gameCoinSpent_goesOn (hcreated : firstCreated conditions = some (ph, amount))
    (hreward : p.rewardPuzzleHash ≠ ph) (hgame : p.findLiveGame gameId = some game)
    (hgoes : goesOn E game coin ph ∨ game.isGameOver = true ∧ isMove solution = true) :
    ∃ n, gameCoinSpent E gameId coin conditions solution p =
      .ok (.theirSpend (.expected n ph amount))
        (p.withGame { game with lastRefereePuzzleHash := ph }) := by
  rw [gameCoinSpent_of_find hcreated hreward hgame]
  split
  · exact ⟨p.stateNumber, rfl⟩
  · rename_i hneither
    have harrives : game.refereeMaker.arrives E.toEnv coin (firstCreated conditions) = true := by
      rw [arrives_eq hcreated]
      rcases hgoes with (hknown | h) | hover
      · exact absurd (.inl hknown) hneither
      · exact h
      · exact absurd (.inr hover) hneither
    refine ⟨game.refereeMaker.stateNumber, ?_⟩
    rw [LiveGame.theirTurnCoinSpent, Referee.theirTurnCoinSpent_arrives hcreated harrives]
    rfl

/-- Neither of the two cases in which the referee stays where it is. -/
theorem gameCoinSpent_judged (hcreated : firstCreated conditions = some (ph, amount))
    (hreward : p.rewardPuzzleHash ≠ ph) (hgame : p.findLiveGame gameId = some game)
    (hgoes : ¬ goesOn E game coin ph) (hover : ¬ (game.isGameOver = true ∧ isMove solution = true)) :
    gameCoinSpent E gameId coin conditions solution p =
      match game.theirTurnCoinSpent E.toEnv coin conditions p.stateNumber solution with
        | .ok next => .ok (.theirSpend next.2) (p.withGame next.1)
        | .error e => .error e p := by
  rw [gameCoinSpent_of_find hcreated hreward hgame, if_neg]
  rintro (hknown | h)
  · exact hgoes (.inl hknown)
  · exact hover h

/-- A timeout or a slash: what is paid is what the referee stands for. -/
theorem gameCoinSpent_timedout (hcreated : firstCreated conditions = some (ph, amount))
    (hreward : p.rewardPuzzleHash ≠ ph) (hgame : p.findLiveGame gameId = some game)
    (hgoes : ¬ goesOn E game coin ph) (hmove : isMove solution = false) :
    gameCoinSpent E gameId coin conditions solution p =
      match game.getOurCurrentShare with
      | .ok share => .ok (.theirSpend (.timedout (game.refereeMaker.rewardCoin E.toEnv coin share)))
          (p.withGame { game with lastRefereePuzzleHash := game.currentPuzzleHash E.toEnv })
      | .error e => .error e p := by
  rw [gameCoinSpent_judged hcreated hreward hgame hgoes (by simp [hmove])]
  have harrives : game.refereeMaker.arrives E.toEnv coin (firstCreated conditions) = false := by
    rw [Bool.eq_false_iff, Ne, arrives_eq hcreated]
    exact fun h => hgoes (.inr h)
  have hspent : game.theirTurnCoinSpent E.toEnv coin conditions p.stateNumber solution =
      match game.getOurCurrentShare with
      | .ok share => .ok ({ game with lastRefereePuzzleHash := game.currentPuzzleHash E.toEnv },
          .timedout (game.refereeMaker.rewardCoin E.toEnv coin share))
      | .error e => .error e := by
    rw [LiveGame.theirTurnCoinSpent, Referee.theirTurnCoinSpent_timedout harrives hmove,
      LiveGame.getOurCurrentShare]
    cases game.refereeMaker.getOurCurrentShare with
    | ok share => rfl
    | error e => rfl
  rw [hspent]
  cases game.getOurCurrentShare with
  | ok share => rfl
  | error e => rfl

/-! A game that moves on to its next coin. -/

/-- Whether the game is settled at once. -/
def autoSettles (game : LiveGame) (isMyTurn : Bool) : Except Error Bool :=
  if ¬ isMyTurn then .ok false
  else do
    let ourShare ← game.getOurCurrentShare
    if ourShare = game.getAmount then .ok true else .ok (game.isGameOver && 0 < ourShare)

/-- The opponent has won the game, and everything at stake in it. -/
def lost (game : LiveGame) (isMyTurn : Bool) : Prop :=
  isMyTurn = true ∧ game.isGameOver = true ∧ game.getOurCurrentShare = .ok 0 ∧ game.getAmount ≠ 0

theorem shouldAutoSettle_of_find (hgame : p.findLiveGame gameId = some game) (isMyTurn : Bool) :
    p.shouldAutoSettle gameId isMyTurn = autoSettles game isMyTurn := by
  rw [shouldAutoSettle, getGameOurCurrentShare_of_find hgame, getGameAmount_of_find hgame,
    isGameOver_of_find hgame]
  rfl

theorem autoSettles_of_lost {isMyTurn : Bool} (h : lost game isMyTurn) :
    autoSettles game isMyTurn = .ok false := by
  obtain ⟨hturn, hover, hshare, hamount⟩ := h
  rw [autoSettles, hturn, if_neg (by simp), hshare]
  simp [hamount.symm]

/-- The coin that the game is at next. -/
def nextState (state : OnChainGameState) (game : LiveGame) (coin : CoinString) (isMyTurn : Bool) :
    OnChainGameState :=
  { state with
    puzzleHash := coin.puzzleHash
    ourTurn := isMyTurn
    gameFinished := state.gameFinished || game.isGameOver }

variable {state : OnChainGameState} {isMyTurn : Bool} {readable : Option (Clvm × ℕ)}

theorem zeroReward_of_find (hgame : p.findLiveGame gameId = some game) {ended : Bool} :
    zeroReward gameId ended p =
      if ended then
        match game.getOurCurrentShare with
        | .ok share => .ok (decide (share = 0)) p
        | .error e => .error e p
      else .ok false p := by
  rw [zeroReward]
  split
  · rw [bind_of_ok (get_apply p), getGameOurCurrentShare_of_find hgame]
    cases game.getOurCurrentShare with
    | ok share => rfl
    | error e => rfl
  · rfl

/-- The coin is tracked first. -/
theorem gameAdvanced_of_find (hgame : p.findLiveGame state.gameId = some game) :
    gameAdvanced E state coin isMyTurn readable p = (do
      let autoSettle ← Act.lift (autoSettles game isMyTurn)
      modify fun p : OnChainPhase => if autoSettle then p.markFinished coin else p
      if ← zeroReward state.gameId (!autoSettle && isMyTurn && game.isGameOver) then
        emitLoserForfeitTerminal state.gameId readable
      else
        let terminal := state.gameFinished || game.isGameOver
        awaitCoin E state coin isMyTurn terminal autoSettle readable)
          (p.advance coin (nextState state game coin isMyTurn)) := by
  have hgame' : (p.advance coin (nextState state game coin isMyTurn)).findLiveGame state.gameId =
      some game := hgame
  rw [gameAdvanced, bind_of_ok (get_apply p), isGameOver_of_find hgame]
  refine (bind_of_ok (lift_ok _ p) _).trans ?_
  refine (bind_of_ok (modify_apply _ p) _).trans ?_
  rw [bind_of_ok (get_apply _), ← shouldAutoSettle_of_find hgame']
  rfl

theorem gameAdvanced_of_lost (hgame : p.findLiveGame state.gameId = some game)
    (hlost : lost game isMyTurn) :
    gameAdvanced E state coin isMyTurn readable p =
      .ok (readable.toList.map (readableMove state.gameId true) ++
          [.notify (.gameSettled state.gameId .forfeitedOpponentWon 0 none)])
        ((p.advance coin (nextState state game coin isMyTurn)).dropGame state.gameId) := by
  have hauto := autoSettles_of_lost hlost
  obtain ⟨rfl, hover, hshare, -⟩ := hlost
  have hgame' : (p.advance coin (nextState state game coin true)).findLiveGame state.gameId =
      some game := hgame
  have hzero : zeroReward state.gameId (!false && true && game.isGameOver)
      (p.advance coin (nextState state game coin true)) =
        .ok true (p.advance coin (nextState state game coin true)) := by
    rw [zeroReward_of_find hgame', hover, hshare]
    rfl
  rw [gameAdvanced_of_find hgame, hauto, bind_of_ok (lift_ok false _)]
  refine (bind_of_ok (modify_apply _ _) _).trans ?_
  refine (bind_of_ok hzero _).trans ?_
  rfl

theorem awaitCoin_ok {effects : List ChainEffect} {terminal autoSettle : Bool} {p' : OnChainPhase}
    (h : awaitCoin E state coin isMyTurn terminal autoSettle readable p = .ok effects p') :
    ∃ claim, p.buildTimeoutClaim E state.gameId coin = .ok claim ∧
      effects = .notify (.gameStatus state.gameId (onChainTurn isMyTurn) (some coin) none (some {
          gameFinished := gameFinishedFlag terminal })) ::
        readable.toList.map (readableMove state.gameId terminal) ++
        [.registerCoin coin state.gameTimeout claim
          (opponentTimeoutClaimSemantic state.gameId isMyTurn terminal)] ∧
      p' = if autoSettle then p.queueSettlement state.gameId else p := by
  rw [awaitCoin, bind_of_ok (get_apply p)] at h
  obtain ⟨claim, p₁, hlift, hok⟩ := Act.bind_eq_ok.mp h
  obtain ⟨hclaim, rfl⟩ := lift_eq_ok.mp hlift
  cases hok
  exact ⟨claim, hclaim, rfl, rfl⟩

/-- The game goes on at the coin, if the opponent has not won it. -/
theorem gameAdvanced_ok {effects : List ChainEffect} {p' : OnChainPhase}
    (hgame : p.findLiveGame state.gameId = some game) (hlost : ¬ lost game isMyTurn)
    (h : gameAdvanced E state coin isMyTurn readable p = .ok effects p') :
    ∃ autoSettle, autoSettles game isMyTurn = .ok autoSettle ∧
      awaitCoin E state coin isMyTurn (state.gameFinished || game.isGameOver) autoSettle readable
        (if autoSettle then (p.advance coin (nextState state game coin isMyTurn)).markFinished coin
          else p.advance coin (nextState state game coin isMyTurn)) = .ok effects p' := by
  have hgame' : ∀ auto : Bool, (if auto then
      (p.advance coin (nextState state game coin isMyTurn)).markFinished coin
        else p.advance coin (nextState state game coin isMyTurn)).findLiveGame state.gameId =
      some game := by
    intro auto
    cases auto with
    | true => exact hgame
    | false => exact hgame
  rw [gameAdvanced_of_find hgame] at h
  obtain ⟨autoSettle, p₁, hlift, hok⟩ := Act.bind_eq_ok.mp h
  obtain ⟨hauto, rfl⟩ := lift_eq_ok.mp hlift
  refine ⟨autoSettle, hauto, ?_⟩
  obtain ⟨zero, p₃, hzero, hok⟩ := Act.bind_eq_ok.mp
    ((bind_of_ok (modify_apply _ _) _).symm.trans hok)
  rw [zeroReward_of_find (hgame' autoSettle)] at hzero
  have hnotlost : zero = false ∧ p₃ = if autoSettle then
      (p.advance coin (nextState state game coin isMyTurn)).markFinished coin
        else p.advance coin (nextState state game coin isMyTurn) := by
    split at hzero
    · rename_i hended
      simp only [Bool.and_eq_true, Bool.not_eq_true'] at hended
      obtain ⟨⟨rfl, rfl⟩, hover⟩ := hended
      cases hshare : game.getOurCurrentShare with
      | error e =>
        rw [hshare] at hzero
        cases hzero
      | ok share =>
        rw [hshare] at hzero
        cases hzero
        refine ⟨decide_eq_false ?_, rfl⟩
        rintro rfl
        refine hlost ⟨rfl, hover, hshare, fun hamount => ?_⟩
        rw [autoSettles, if_neg (by simp), hshare] at hauto
        simp [hamount] at hauto
    · cases hzero
      exact ⟨rfl, rfl⟩
  obtain ⟨rfl, rfl⟩ := hnotlost
  exact hok

/-! The spend of a coin that a move of ours was submitted for. -/

variable {puzzle : ChainPuzzle} {program : Clvm} {pending : PendingMoveSavedState}

theorem pendingMoveSpent_of_none (hpending : p.pendingMoves.lookup coin = none) :
    pendingMoveSpent E coin puzzle program p = .ok none p := by
  rw [pendingMoveSpent, bind_of_ok (get_apply p), hpending]
  rfl

theorem pendingMoveSpent_of_some (hpending : p.pendingMoves.lookup coin = some pending)
    (hconditions : fromPuzzleAndSolution E.toEnv puzzle program = .ok conditions) :
    pendingMoveSpent E coin puzzle program p =
      match firstCreated conditions, p.gameMap.lookup coin with
      | none, _ => .ok none (p.forgetMove coin)
      | some _, none =>
        .error (.strErr "pending move coin not in game_map" []) (p.forgetMove coin)
      | some created, some state =>
        if created.1 = pending.expectedPh then
          (some <$> moveLanded E pending state ⟨coin.toCoinId E.sha256, created.1, created.2⟩)
            ((p.forgetMove coin).released coin)
        else if created.1 = p.theirRewardPuzzleHash then
          (some <$> moveTooLate state) ((p.forgetMove coin).released coin)
        else .ok none (((p.forgetMove coin).released coin).track coin { state with
          ourTurn := false }) := by
  rw [pendingMoveSpent, bind_of_ok (get_apply p), hpending]
  dsimp only
  rw [bind_of_ok (modify_apply _ p), hconditions, bind_of_ok (lift_ok conditions _)]
  have hlookup : (p.forgetMove coin).gameMap.lookup coin = p.gameMap.lookup coin := rfl
  cases firstCreated conditions with
  | none => rfl
  | some created =>
    dsimp only
    rw [bind_of_ok (get_apply _), hlookup]
    cases p.gameMap.lookup coin with
    | none => rfl
    | some state =>
      refine (bind_of_ok (lift_ok state _) _).trans ?_
      rw [bind_of_ok (modify_apply _ _)]
      dsimp only
      by_cases hexpected : created.1 = pending.expectedPh
      · rw [if_pos hexpected, if_pos hexpected]
      rw [if_neg hexpected, if_neg hexpected, bind_of_ok (get_apply _)]
      by_cases htheirs : created.1 = p.theirRewardPuzzleHash
      · have htheirs' : created.1 = ((p.forgetMove coin).released coin).theirRewardPuzzleHash :=
          htheirs
        rw [if_pos htheirs', if_pos htheirs]
      · have htheirs' : created.1 ≠ ((p.forgetMove coin).released coin).theirRewardPuzzleHash :=
          htheirs
        rw [if_neg htheirs', if_neg htheirs]
        rfl

end OnChainPhase

end ChiaGaming
