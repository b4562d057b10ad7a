import ChiaGaming.OnChain.Steps
import ChiaGaming.OnChain.Transition
import ChiaGaming.Session.Drain

namespace ChiaGaming

namespace OnChainPhase

open Act

variable (E : ChannelEnv)

/-! What a settlement reports as our share, and what the spend has paid us. -/

def settledShare? : ChainEffect → Option ℕ
  | .notify (.gameSettled _ _ share _) => some share
  | _ => none

/-- What is reported of an observed spend that is not a move is what its conditions pay us. -/
def SharePaid (p : OnChainPhase) : Input → Prop
  | .observed coin puzzle solution => ∀ conditions,
      fromPuzzleAndSolution E.toEnv puzzle solution = .ok conditions →
      (∀ m, ParsedRefereeSolution.parse solution ≠ .ok (.move m)) →
      ∀ share ∈ (reports (step E (.observed coin puzzle solution)) p).filterMap settledShare?,
        share = paidIn p.rewardPuzzleHash conditions
  | _ => True

/-- The share that our referee stands for.  A slash by the opponent leaves us nothing. -/
def timeoutShare (game : LiveGame) (state : OnChainGameState) (solution : ParsedRefereeSolution) :
    Except Error ℕ := do
  let share ← game.getOurCurrentShare
  .ok (match solution, state.ourTurn with
    | .slash, false => 0
    | _, _ => share)

/-- The condition on a coin of a live game that is neither slashed nor armed: the reward that comes
first is all we get; a finished game that goes on with nothing for us pays us nothing; and
otherwise the referee has the share that is paid. -/
def liveShareRead (p : OnChainPhase) (game : LiveGame) (coin : CoinString) (state : OnChainGameState)
    (conditions : List CoinCondition) (solution : ParsedRefereeSolution) (ph : Hash) (amount : ℕ) :
    Prop :=
  let paid := paidIn p.rewardPuzzleHash conditions
  if p.rewardPuzzleHash = ph then state.notificationSent ∨ amount = paid
  else if goesOn E game coin ph then lost game (!state.ourTurn) → 0 = paid
  else state.notificationSent ∨
    ∀ share, timeoutShare game state solution = .ok share → share = paid

/-- The condition on a coin without a pending move.  A reward that is read off the conditions is
all that they pay us; a slashed coin that the opponent has claimed pays the recorded share. -/
def trackedShareRead (p : OnChainPhase) (coin : CoinString) (state : OnChainGameState)
    (conditions : List CoinCondition) (solution : Clvm) : Prop :=
  let paid := paidIn p.rewardPuzzleHash conditions
  if state.pendingSlashAmount.isSome then
    if (rewardCreated p.theirRewardPuzzleHash conditions).isSome then
      state.cheatingMoveMoverShare.getD 0 = paid
    else ∀ amount, rewardCreated p.rewardPuzzleHash conditions = some amount → amount = paid
  else if state.timeoutClaimArmed then
    state.notificationSent ∨
      ∀ amount, createdFor p.rewardPuzzleHash conditions = some amount → amount = paid
  else ∀ game parsed ph amount, p.findLiveGame state.gameId = some game →
    ParsedRefereeSolution.parse solution = .ok parsed → firstCreated conditions = some (ph, amount) →
      liveShareRead E p game coin state conditions parsed ph amount

/-- A timeout against a pending move pays us nothing, if the opponent's reward comes first; a spend
that is neither that nor the move is one of a coin that the opponent is to move. -/
def ShareRead (p : OnChainPhase) : Input → Prop
  | .observed coin puzzle solution => ∀ conditions,
      fromPuzzleAndSolution E.toEnv puzzle solution = .ok conditions →
      (∀ m, ParsedRefereeSolution.parse solution ≠ .ok (.move m)) →
      ∀ state, p.gameMap.lookup coin = some state →
        match p.pendingMoves.lookup coin, firstCreated conditions with
        | some pending, some (ph, _) =>
          if ph = pending.expectedPh then True
          else if ph = p.theirRewardPuzzleHash then 0 = paidIn p.rewardPuzzleHash conditions
          else trackedShareRead E p coin { state with ourTurn := false } conditions solution
        | _, _ => trackedShareRead E p coin state conditions solution
  | _ => True

/-! The shares that the parts of the handler report. -/

def settledShares (x : Act Error OnChainPhase Observed) (p : OnChainPhase) : List ℕ :=
  match x p with
  | .ok observed _ => observed.effects.filterMap settledShare?
  | .error _ _ => []

variable {E} {p p' : OnChainPhase} {x : Act Error OnChainPhase Observed} {state : OnChainGameState}
  {coin : CoinString} {conditions : List CoinCondition}

theorem settledShares_of_ok {observed : Observed} (h : x p = .ok observed p') :
    settledShares x p = observed.effects.filterMap settledShare? := by
  rw [settledShares, h]

theorem settledShares_of_error {e : Error} (h : x p = .error e p') : settledShares x p = [] := by
  rw [settledShares, h]

theorem settledShares_bind_ok {α : Type} {y : Act Error OnChainPhase α} {a : α}
    (h : y p = .ok a p') (f : α → Act Error OnChainPhase Observed) :
    settledShares (y >>= f) p = settledShares (f a) p' := by
  rw [settledShares, bind_of_ok h, settledShares]

theorem settledShares_bind_error {α : Type} {y : Act Error OnChainPhase α} {e : Error}
    (h : y p = .error e p') (f : α → Act Error OnChainPhase Observed) :
    settledShares (y >>= f) p = [] := settledShares_of_error (bind_of_error h f)

theorem tryEmitTerminal_ok (n : ChainNotification) (p : OnChainPhase) :
    ∃ p', tryEmitTerminal n p = .ok [.notify n] p' := by
  cases n with
  | gameSettled gameId outcome share coin =>
    cases coin with
    | none => exact ⟨p, rfl⟩
    | some coin =>
      by_cases hamount : coin.amount > 0
      · refine ⟨{ p with
          gamePayoutCoins := p.gamePayoutCoins.filter (fun e => e.1 ≠ gameId) ++ [(gameId, coin)] }, ?_⟩
        rw [tryEmitTerminal]
        dsimp only
        rw [if_pos hamount]
        rfl
      · refine ⟨p, ?_⟩
        rw [tryEmitTerminal]
        dsimp only
        rw [if_neg hamount]
        rfl
  | gameStatus _ _ _ _ _ => exact ⟨p, rfl⟩
  | proposalCancelled _ _ => exact ⟨p, rfl⟩

theorem settledShares_tryEmitTerminal (n : ChainNotification) :
    settledShares (Observed.resolved <$> tryEmitTerminal n) p =
      [ChainEffect.notify n].filterMap settledShare? := by
  obtain ⟨p', h⟩ := tryEmitTerminal_ok n p
  rw [map_eq_pure_bind, settledShares_bind_ok h]
  rfl

theorem settledShares_settle (outcome : SettlementOutcome) (share : ℕ) (reward : Option CoinString) :
    settledShares (settle state outcome share reward) p =
      if state.notificationSent then [] else [share] := by
  rw [settle]
  split
  · rfl
  · exact settledShares_tryEmitTerminal _

theorem settledShares_slashSpent :
    settledShares (slashSpent E coin state conditions) p =
      if (rewardCreated p.theirRewardPuzzleHash conditions).isSome then
        [state.cheatingMoveMoverShare.getD 0]
      else (rewardCreated p.rewardPuzzleHash conditions).toList := by
  rw [slashSpent, settledShares_bind_ok (get_apply p)]
  refine (settledShares_tryEmitTerminal _).trans ?_
  split
  · rfl
  · cases rewardCreated p.rewardPuzzleHash conditions with
    | none => rfl
    | some amount => rfl

theorem settledShares_armedAdvanced : settledShares (armedAdvanced E state coin) p = [] := by
  rw [armedAdvanced, settledShares_bind_ok (modify_apply _ p), settledShares_bind_ok (get_apply _)]
  cases h : (p.advance coin _).buildTimeoutClaim E state.gameId coin with
  | error e => exact settledShares_bind_error (lift_error e _) _
  | ok claim => exact settledShares_bind_ok (lift_ok claim _) _

theorem settledShares_armedSpent :
    settledShares (armedSpent E coin state conditions) p =
      if state.notificationSent then []
      else match createdFor p.rewardPuzzleHash conditions with
        | some amount => [amount]
        | none => if (createdFor p.theirRewardPuzzleHash conditions).isSome then [0] else [] := by
  rw [armedSpent, settledShares_bind_ok (get_apply p)]
  cases createdFor p.rewardPuzzleHash conditions with
  | some amount => exact settledShares_settle _ _ _
  | none =>
    dsimp only
    split
    · exact settledShares_settle _ _ _
    · rw [ite_self]
      cases firstCreated conditions with
      | none => rfl
      | some created => exact settledShares_armedAdvanced

variable {game : LiveGame} {solution : ParsedRefereeSolution} {n : ℕ} {ph : Hash} {amount : ℕ}

theorem settledShares_lost (hgame : p.findLiveGame state.gameId = some game)
    (hlost : lost game (!state.ourTurn)) :
    settledShares (liveSpent E coin state solution (.theirSpend (.expected n ph amount))) p = [0] := by
  rw [liveSpent, settledShares_bind_ok (gameAdvanced_of_lost hgame hlost)]
  rfl

theorem settledShares_goesOn (hgame : p.findLiveGame state.gameId = some game)
    (hlost : ¬ lost game (!state.ourTurn)) :
    settledShares (liveSpent E coin state solution (.theirSpend (.expected n ph amount))) p = [] := by
  rw [liveSpent]
  cases hr : gameAdvanced E state ⟨coin.toCoinId E.sha256, ph, amount⟩ (!state.ourTurn) none p with
  | error e p' => exact settledShares_bind_error hr _
  | ok effects p' =>
    rw [settledShares_bind_ok hr]
    obtain ⟨autoSettle, -, hawait⟩ := gameAdvanced_ok hgame hlost hr
    obtain ⟨claim, -, rfl, -⟩ := awaitCoin_ok hawait
    rfl

theorem settledShares_timedout {reward : Option CoinString} :
    settledShares (liveSpent E coin state solution (.theirSpend (.timedout reward))) p =
      if state.notificationSent then []
      else [match solution, state.ourTurn with
        | .slash, false => 0
        | _, _ => reward.elim 0 CoinString.amount] := by
  unfold liveSpent coinTimedOut
  cases solution with
  | slash =>
    cases state.ourTurn with
    | true => exact settledShares_settle _ _ _
    | false => exact settledShares_settle _ _ _
  | timeout => exact settledShares_settle _ _ _
  | move m => exact settledShares_settle _ _ _

theorem amount_rewardCoin (r : Referee) (share : ℕ) :
    (r.rewardCoin E.toEnv coin share).elim 0 CoinString.amount = share := by
  rw [Referee.rewardCoin]
  split
  · rfl
  · simp only [Option.elim_none]
    omega

/-- The settlement of a coin that is neither slashed nor armed, once the spend is judged. -/
def liveSettled (E : ChannelEnv) (coin : CoinString) (state : OnChainGameState)
    (conditions : List CoinCondition) (solution : ParsedRefereeSolution) :
    Act Error OnChainPhase Observed := do
  match ← tryGameCoinSpent E state.gameId coin conditions solution with
  | none => .resolved <$> tryEmitTerminal (endedError state.gameId "game_coin_spent failed")
  | some result =>
    if state.ourTurn && !isExpected result then
      .resolved <$> tryEmitTerminal (endedError state.gameId "our turn coin spent unexpectedly")
    else liveSpent E coin state solution result

theorem tryGameCoinSpent_of_ok {result : CoinSpentInformation}
    (h : gameCoinSpent E state.gameId coin conditions solution p = .ok result p') :
    tryGameCoinSpent E state.gameId coin conditions solution p = .ok (some result) p' := by
  rw [tryGameCoinSpent, h]

theorem settledShares_failed {e : Error}
    (h : gameCoinSpent E state.gameId coin conditions solution p = .error e p') :
    settledShares (liveSettled E coin state conditions solution) p = [] := by
  have htry : tryGameCoinSpent E state.gameId coin conditions solution p = .ok none p' := by
    rw [tryGameCoinSpent, h]
  rw [liveSettled, settledShares_bind_ok htry]
  exact settledShares_tryEmitTerminal _

theorem settledShares_judged {result : CoinSpentInformation} (hexpected : isExpected result = true)
    (h : gameCoinSpent E state.gameId coin conditions solution p = .ok result p') :
    settledShares (liveSettled E coin state conditions solution) p =
      settledShares (liveSpent E coin state solution result) p' := by
  rw [liveSettled, settledShares_bind_ok (tryGameCoinSpent_of_ok h)]
  dsimp only
  rw [hexpected, if_neg (by simp)]

/-- Nothing is reported twice. -/
theorem forall_reported {sent : Bool} {share paid : ℕ} :
    (∀ s ∈ (if sent then [] else [share]), s = paid) ↔ sent = true ∨ share = paid := by
  cases sent with
  | true => simp
  | false => simp

theorem liveShareRead_iff (hgame : p.findLiveGame state.gameId = some game)
    (hcreated : firstCreated conditions = some (ph, amount)) (hmove : isMove solution = false) :
    (∀ share ∈ settledShares (liveSettled E coin state conditions solution) p,
      share = paidIn p.rewardPuzzleHash conditions) ↔
        liveShareRead E p game coin state conditions solution ph amount := by
  unfold liveShareRead
  dsimp only
  split
  · rename_i hreward
    rw [settledShares_judged rfl (gameCoinSpent_reward hcreated hreward), liveSpent,
      settledShares_settle, forall_reported]
  · rename_i hreward
    split
    · rename_i hgoes
      obtain ⟨n, hspent⟩ := @gameCoinSpent_goesOn _ _ _ _ _ _ _ _ solution hcreated hreward hgame (.inl hgoes)
      have hid := gameId_of_findLiveGame hgame
      have hgame' : (p.withGame { game with lastRefereePuzzleHash := ph }).findLiveGame state.gameId =
          some { game with lastRefereePuzzleHash := ph } := findLiveGame_withGame hgame hid
      rw [settledShares_judged rfl hspent]
      by_cases hlost : lost game (!state.ourTurn)
      · rw [settledShares_lost hgame' hlost, List.forall_mem_singleton]
        exact ⟨fun h _ => h, fun h => h hlost⟩
      · rw [settledShares_goesOn hgame' hlost]
        exact iff_of_true (List.forall_mem_nil _) fun h => absurd h hlost
    · rename_i hgoes
      have hspent := @gameCoinSpent_timedout E _ _ _ _ _ _ _ solution hcreated hreward hgame
        hgoes hmove
      rw [timeoutShare]
      cases hshare : game.getOurCurrentShare with
      | error e =>
        rw [hshare] at hspent
        rw [settledShares_failed hspent]
        simp
      | ok share =>
        rw [hshare] at hspent
        rw [settledShares_judged rfl hspent, settledShares_timedout, forall_reported,
          amount_rewardCoin]
        simp

theorem paidIn_eq_zero (h : createdFor ph conditions = none) : paidIn ph conditions = 0 := by
  induction conditions with
  | nil => rfl
  | cons c conditions ih =>
    rw [createdFor, List.findSome?_cons] at h
    cases c with
    | other => exact ih h
    | createCoin ph' amount =>
      dsimp only at h
      by_cases hph : ph' = ph
      · rw [if_pos hph] at h
        cases h
      · rw [if_neg hph] at h
        rw [paidIn, if_neg hph, Nat.zero_add]
        exact ih h

theorem trackedSpent_live {puzzle : ChainPuzzle} {solution : Clvm} {parsed : ParsedRefereeSolution}
    (hconditions : fromPuzzleAndSolution E.toEnv puzzle solution = .ok conditions)
    (hslash : ¬ state.pendingSlashAmount.isSome) (harmed : ¬ state.timeoutClaimArmed)
    (hlive : p.findLiveGame state.gameId = some game)
    (hparsed : ParsedRefereeSolution.parse solution = .ok parsed) :
    trackedSpent E coin state puzzle solution p = liveSettled E coin state conditions parsed p := by
  have hhas : p.hasLiveGame state.gameId = true := by rw [hasLiveGame, hlive]; rfl
  rw [trackedSpent, hconditions]
  refine (bind_of_ok (lift_ok _ p) _).trans ?_
  rw [if_neg hslash, if_neg harmed, bind_of_ok (get_apply p), if_neg (by simp [hhas]), hparsed]
  exact bind_of_ok (lift_ok _ p) _

theorem trackedShareRead_iff {puzzle : ChainPuzzle} {solution : Clvm}
    (hconditions : fromPuzzleAndSolution E.toEnv puzzle solution = .ok conditions)
    (hmove : ∀ m, ParsedRefereeSolution.parse solution ≠ .ok (.move m)) :
    (∀ share ∈ settledShares (trackedSpent E coin state puzzle solution) p,
      share = paidIn p.rewardPuzzleHash conditions) ↔
        trackedShareRead E p coin state conditions solution := by
  have hlifted : (lift (fromPuzzleAndSolution E.toEnv puzzle solution) :
      Act Error OnChainPhase (List CoinCondition)) p = .ok conditions p := by
    rw [hconditions, lift_ok]
  unfold trackedShareRead
  dsimp only
  split
  · rename_i hslash
    rw [trackedSpent, settledShares_bind_ok hlifted, if_pos hslash, settledShares_slashSpent]
    split
    · exact List.forall_mem_singleton
    · cases rewardCreated p.rewardPuzzleHash conditions with
      | none => simp
      | some amount => simp
  split
  · rename_i hslash harmed
    rw [trackedSpent, settledShares_bind_ok hlifted, if_neg hslash, if_pos harmed,
      settledShares_armedSpent]
    cases hours : createdFor p.rewardPuzzleHash conditions with
    | some amount =>
      rw [forall_reported]
      simp
    | none =>
      rw [paidIn_eq_zero hours]
      refine iff_of_true ?_ (.inr fun amount h => by cases h)
      intro share hshare
      dsimp only at hshare
      split at hshare
      · cases hshare
      split at hshare
      · exact List.mem_singleton.mp hshare
      · cases hshare
  · rename_i hslash harmed
    cases hlive : p.findLiveGame state.gameId with
    | none =>
      have hhas : ¬ ¬ ¬ p.hasLiveGame state.gameId := by simp [hasLiveGame, hlive]
      rw [trackedSpent, settledShares_bind_ok hlifted, if_neg hslash, if_neg harmed,
        settledShares_bind_ok (get_apply p), if_pos (not_not.mp hhas)]
      exact iff_of_true (List.forall_mem_nil _) fun _ _ _ _ h => by cases h
    | some game =>
      cases hparsed : ParsedRefereeSolution.parse solution with
      | error e =>
        have hhas : p.hasLiveGame state.gameId = true := by rw [hasLiveGame, hlive]; rfl
        rw [trackedSpent, settledShares_bind_ok hlifted, if_neg hslash, if_neg harmed,
          settledShares_bind_ok (get_apply p), if_neg (by simp [hhas]), hparsed,
          settledShares_bind_error (lift_error e p)]
        exact iff_of_true (List.forall_mem_nil _) fun _ _ _ _ _ h => by cases h
      | ok parsed =>
        have hnot : isMove parsed = false := by
          cases parsed with
          | move m => exact absurd hparsed (hmove m)
          | timeout => rfl
          | slash => rfl
        rw [settledShares, trackedSpent_live hconditions hslash harmed hlive hparsed,
          ← settledShares]
        cases hcreated : firstCreated conditions with
        | none =>
          rw [settledShares_failed (gameCoinSpent_none hcreated)]
          exact iff_of_true (List.forall_mem_nil _) fun _ _ _ _ _ _ h => by cases h
        | some created =>
          rw [liveShareRead_iff hlive hcreated hnot]
          constructor
          · rintro h _ _ _ _ ⟨⟩ ⟨⟩ ⟨⟩
            exact h
          · exact fun h => h game parsed created.1 created.2 rfl rfl rfl

theorem settledShares_moveLanded (pending : PendingMoveSavedState) :
    settledShares (moveLanded E pending state coin) p = [] := by
  cases hr : moveLanded E pending state coin p with
  | error e p' => exact settledShares_of_error hr
  | ok observed p' =>
    rw [settledShares_of_ok hr]
    rw [moveLanded] at hr
    obtain ⟨_, _, -, hr₁⟩ := Act.bind_eq_ok.mp hr
    obtain ⟨_, _, -, hr₂⟩ := Act.bind_eq_ok.mp hr₁
    obtain ⟨gameOver, _, -, hr₃⟩ := Act.bind_eq_ok.mp hr₂
    obtain ⟨_, _, -, hr₄⟩ := Act.bind_eq_ok.mp hr₃
    obtain ⟨_, _, -, hr₅⟩ := Act.bind_eq_ok.mp hr₄
    obtain ⟨claim, _, -, hr₆⟩ := Act.bind_eq_ok.mp hr₅
    cases hr₆
    rfl

theorem settledShares_observed_untracked {puzzle : ChainPuzzle} {solution : Clvm} {p₁ : OnChainPhase}
    (hpending : pendingMoveSpent E coin puzzle solution p = .ok none p₁)
    (hstate : p₁.gameMap.lookup coin = none) :
    settledShares (observeGameCoinSpent E coin puzzle solution) p = [] := by
  rw [observeGameCoinSpent, settledShares_bind_ok hpending]
  dsimp only
  rw [settledShares_bind_ok (get_apply p₁), hstate]
  rfl

theorem settledShares_observed_tracked {puzzle : ChainPuzzle} {solution : Clvm} {p₁ : OnChainPhase}
    (hpending : pendingMoveSpent E coin puzzle solution p = .ok none p₁)
    (hstate : p₁.gameMap.lookup coin = some state) :
    settledShares (observeGameCoinSpent E coin puzzle solution) p =
      settledShares (trackedSpent E coin state puzzle solution)
        (p₁.released coin) := by
  rw [observeGameCoinSpent, settledShares_bind_ok hpending]
  dsimp only
  rw [settledShares_bind_ok (get_apply p₁), hstate]
  rfl

theorem reported_observed {puzzle : ChainPuzzle} {solution : Clvm} :
    (reports (step E (.observed coin puzzle solution)) p).filterMap settledShare? =
      settledShares (observeGameCoinSpent E coin puzzle solution) p := by
  rw [settledShares]
  cases hr : observeGameCoinSpent E coin puzzle solution p with
  | ok observed p' =>
    have hstep : step E (.observed coin puzzle solution) p = .ok observed.effects p' := by
      rw [step, bind_of_ok hr]
      rfl
    rw [reports_of_ok hstep]
  | error e p' =>
    have hstep : step E (.observed coin puzzle solution) p = .error e p' := by
      rw [step]
      exact bind_of_error hr _
    rw [reports_of_error hstep]
    rfl

/-- A spend that no pending move of ours accounts for is one of a tracked coin. -/
theorem observed_iff {puzzle : ChainPuzzle} {solution : Clvm} {p₁ : OnChainPhase}
    (hconditions : fromPuzzleAndSolution E.toEnv puzzle solution = .ok conditions)
    (hmove : ∀ m, ParsedRefereeSolution.parse solution ≠ .ok (.move m))
    (hpending : pendingMoveSpent E coin puzzle solution p = .ok none p₁)
    (hpast : p₁.rewardPuzzleHash = p.rewardPuzzleHash) :
    (∀ share ∈ settledShares (observeGameCoinSpent E coin puzzle solution) p,
      share = paidIn p.rewardPuzzleHash conditions) ↔
        ∀ state, p₁.gameMap.lookup coin = some state →
          trackedShareRead E p₁ coin state conditions solution := by
  cases hstate : p₁.gameMap.lookup coin with
  | none =>
    rw [settledShares_observed_untracked hpending hstate]
    exact iff_of_true (List.forall_mem_nil _) fun _ h => by cases h
  | some state =>
    have htracked := @trackedShareRead_iff _ (p₁.released coin) state coin _ _ _ hconditions hmove
    rw [settledShares_observed_tracked hpending hstate, ← hpast]
    refine htracked.trans ⟨?_, fun h => h state rfl⟩
    rintro h _ ⟨⟩
    exact h

/-- The move itself, or the timeout that it was too late for, accounts for the spend. -/
theorem settledShares_of_pending {puzzle : ChainPuzzle} {solution : Clvm} {p₁ : OnChainPhase}
    {y : Act Error OnChainPhase Observed}
    (hpending : pendingMoveSpent E coin puzzle solution p = (some <$> y) p₁) :
    settledShares (observeGameCoinSpent E coin puzzle solution) p = settledShares y p₁ := by
  rw [observeGameCoinSpent]
  cases hr : y p₁ with
  | ok observed p₂ =>
    have hsome : (some <$> y) p₁ = .ok (some observed) p₂ := by
      rw [map_eq_pure_bind, bind_of_ok hr]
      rfl
    rw [settledShares_bind_ok (hpending.trans hsome), settledShares_of_ok hr]
    rfl
  | error e p₂ =>
    have herror : (some <$> y) p₁ = .error e p₂ := by rw [map_eq_pure_bind, bind_of_error hr]
    rw [settledShares_bind_error (hpending.trans herror), settledShares_of_error hr]

theorem sharePaid_iff (p : OnChainPhase) (input : Input) : SharePaid E p input ↔ ShareRead E p input := by
  cases input with
  | unseen coin => exact Iff.rfl
  | queued => exact Iff.rfl
  | played action => exact Iff.rfl
  | observed coin puzzle solution =>
    refine forall_congr' fun conditions => forall_congr' fun hconditions =>
      forall_congr' fun hmove => ?_
    rw [reported_observed]
    have hlifted : ∀ p : OnChainPhase, (lift (fromPuzzleAndSolution E.toEnv puzzle solution) :
        Act Error OnChainPhase (List CoinCondition)) p = .ok conditions p := by
      intro p
      rw [hconditions, lift_ok]
    cases hpending : p.pendingMoves.lookup coin with
    | none => exact observed_iff hconditions hmove (pendingMoveSpent_of_none hpending) rfl
    | some pending =>
      have hspent := @pendingMoveSpent_of_some E _ _ _ puzzle solution _ hpending
        hconditions
      cases hcreated : firstCreated conditions with
      | none =>
        rw [hcreated] at hspent
        have hnone : pendingMoveSpent E coin puzzle solution p = .ok none (p.forgetMove coin) := hspent
        have hiff := observed_iff hconditions hmove hnone rfl
        exact hiff
      | some created =>
        rw [hcreated] at hspent
        cases hstate : p.gameMap.lookup coin with
        | none =>
          rw [hstate] at hspent
          rw [observeGameCoinSpent, settledShares_bind_error hspent]
          exact iff_of_true (List.forall_mem_nil _) fun _ h => by cases h
        | some state =>
          rw [hstate] at hspent
          dsimp only at hspent ⊢
          simp only [Option.some.injEq, forall_eq']
          split
          · rename_i hexpected
            rw [if_pos hexpected] at hspent
            rw [settledShares_of_pending hspent, settledShares_moveLanded]
            exact iff_of_true (List.forall_mem_nil _) trivial
          rename_i hexpected
          rw [if_neg hexpected] at hspent
          split
          · rename_i htheirs
            rw [if_pos htheirs] at hspent
            rw [settledShares_of_pending hspent, moveTooLate, settledShares_tryEmitTerminal]
            exact List.forall_mem_singleton
          · rename_i htheirs
            rw [if_neg htheirs] at hspent
            have hiff := observed_iff hconditions hmove hspent rfl
            refine hiff.trans ⟨fun h => h _ (AList.lookup_insert _), ?_⟩
            intro h state' hstate'
            cases (AList.lookup_insert _).symm.trans hstate'
            exact h

end OnChainPhase

/-! The steady game on chain, against a peer that has taken our puzzle hash for its own. -/

namespace Steady

def evenStart : GameStartInfo := { start with initialMoverShare := 1 }

def walletHash : Hash := List.replicate 32 3

def otherHash : Hash := List.replicate 32 2

/-- The players' wallets, with the opponent's puzzle hash. -/
def walletParties (theirs : Hash) : RefereeParties :=
  { parties with
    rewardPuzzleHash := walletHash
    theirRewardPuzzleHash := theirs
    theirRewardPayoutSignature := sign 2 (rewardPayoutMessage theirs) }

def evenReferee (E : Env) (parties : RefereeParties) : Referee :=
  .myTurn {
    fixed := initialFixedContext evenStart parties
    finished := false
    enableCheating := none
    state := .initial (.nat 3) (initialPuzzleArgs E evenStart parties) (.myTurnHandler handler)
    stateNumber := 0 }

def evenGame (E : Env) (parties : RefereeParties) : LiveGame where
  gameId := 1
  lastRefereePuzzleHash := (evenReferee E parties).outcomeRefereePuzzleHash E
  refereeMaker := evenReferee E parties
  myContribution := 1
  theirContribution := 1

def evenChannel (E : ChannelEnv) (parties : RefereeParties) : ChannelState :=
  { ChannelState.opened E setup with
    rewardPuzzleHash := parties.rewardPuzzleHash
    theirRewardPuzzleHash := parties.theirRewardPuzzleHash
    liveGames := [evenGame E.toEnv parties] }

def evenCoin (parties : RefereeParties) : CoinString :=
  ⟨[9], (evenGame env parties).lastRefereePuzzleHash, 2⟩

/-- The game is found in the unroll, and it is our turn. -/
def onChain (parties : RefereeParties) : OnChainPhase :=
  OnChainPhase.new (evenChannel channelEnv parties) []
    (AList.singleton (evenCoin parties)
      ((evenGame env parties).coinState (evenCoin parties).puzzleHash 0 true false false)) ∅ false
    none

/-- A timeout, which pays one to each player. -/
def timeoutSpend (parties : RefereeParties) : OnChainPhase.Input :=
  .observed (evenCoin parties) (.referee ((initialPuzzleArgs env evenStart parties).coin env))
    (.list [.atom parties.rewardPuzzleHash, .atom parties.theirRewardPuzzleHash])

end Steady

end ChiaGaming
