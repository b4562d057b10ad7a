import ChiaGaming.Referee.Solutions

namespace ChiaGaming

/-! Following a referee coin through a move of the opponent's on chain. -/

variable {E : Env} {p : RefereeParties}

theorem curryRefereePuzzleHash_eq {args : RefereePuzzleArgs} {ph : Hash}
    (h : args.refereeCoinPuzzleHash = ph) :
    curryRefereePuzzleHash E ph args = (args.coin E).puzzleHash E.sha256 := by
  rw [← h]
  rfl

/-- A referee coin's puzzle hash tells its arguments. -/
theorem RefereeArgs.puzzleHash_injective {sha256 : Bytes → Bytes} (hh : CollisionFree sha256) :
    Function.Injective (RefereeArgs.puzzleHash sha256) := by
  intro a b h
  obtain ⟨-, hparameters⟩ := curryHashes_injective hh h
  have htree := hh.shatree_injective (List.cons.inj hparameters).1
  cases a
  cases b
  simp only [RefereeArgs.toClvm, Clvm.list, Clvm.pair.injEq, Clvm.atom.injEq] at htree
  simp only [RefereeArgs.mk.injEq]
  exact ⟨htree.1, htree.2.1, htree.2.2.1, htree.2.2.2.1, htree.2.2.2.2.1, htree.2.2.2.2.2.1,
    htree.2.2.2.2.2.2.1, htree.2.2.2.2.2.2.2.1, htree.2.2.2.2.2.2.2.2.1,
    htree.2.2.2.2.2.2.2.2.2.1, htree.2.2.2.2.2.2.2.2.2.2.1⟩

/-- What the game was set up with stands in the arguments of its coins. -/
structure RefereePuzzleArgs.SetUp (args : RefereePuzzleArgs) (fixed : RefereeFixedContext) :
    Prop where
  timeout : args.timeout = fixed.timeout
  amount : args.amount = fixed.amount
  nonce : args.nonce = fixed.nonce
  puzzleHash : args.refereeCoinPuzzleHash = fixed.refereeCoinPuzzleHash

theorem RefereePuzzleArgs.SetUp.matches {args : RefereePuzzleArgs} {fixed : RefereeFixedContext}
    (h : args.SetUp fixed) (hamount : fixed.amount < 2 ^ 64) : args.Matches fixed :=
  ⟨h.timeout, h.amount, h.nonce, h.puzzleHash, hamount⟩

namespace Referee

variable {r : Referee} {t : TheirTurnReferee}

theorem Reach.setUp (h : Reach E p r) :
    r.spendThisCoin.SetUp r.fixed ∧ r.argsForThisCoin.SetUp r.fixed := by
  induction h with
  | @new g n r ph h =>
    rw [Referee.new] at h
    split at h
    · rw [MyTurnReferee.new, refereeInitialSetup_eq_ok] at h
      cases h
      exact ⟨⟨rfl, rfl, rfl, rfl⟩, ⟨rfl, rfl, rfl, rfl⟩⟩
    · rw [TheirTurnReferee.new, refereeInitialSetup_eq_ok] at h
      cases h
      exact ⟨⟨rfl, rfl, rfl, rfl⟩, ⟨rfl, rfl, rfl, rfl⟩⟩
  | cheating _ makeMove moverShare ih => exact ih
  | mine _ hmove ih =>
    obtain ⟨handler, result, newState, -, -, -, rfl, -⟩ := myTurnMakeMove_eq_ok hmove
    obtain ⟨htimeout, hamount, hnonce, hph⟩ := ih.1
    exact ⟨⟨htimeout, hamount, hnonce, hph⟩, ih.1⟩
  | theirs _ hmove ih =>
    obtain ⟨handler, newState, answer, -, -, -, -, rfl, -⟩ := theirTurnMoveOffChain_eq_some hmove
    obtain ⟨htimeout, hamount, hnonce, hph⟩ := ih.1
    exact ⟨⟨htimeout, hamount, hnonce, hph⟩, ih.1⟩
  | moved _ hspent ih =>
    obtain ⟨details, next', move, hmove, rfl⟩ := theirTurnCoinSpent_eq_some hspent
    obtain ⟨handler, newState, answer, -, -, -, -, rfl, -⟩ := theirTurnMoveOffChain_eq_some hmove
    obtain ⟨htimeout, hamount, hnonce, hph⟩ := ih.1
    exact ⟨⟨htimeout, hamount, hnonce, hph⟩, ⟨htimeout, hamount, hnonce, hph⟩⟩

/-- After a terminal move of ours the coin commits to nothing. -/
theorem Reach.finished (h : Reach E p (.theirTurn t)) (hnone : t.state.gameHandler = none) :
    t.spendThisCoin.gameMove.validationInfoHash = .none := by
  cases h with
  | new h =>
    rw [Referee.new] at h
    split at h
    · rw [MyTurnReferee.new, refereeInitialSetup_eq_ok] at h
      cases h
    · rw [TheirTurnReferee.new, refereeInitialSetup_eq_ok] at h
      cases h
      cases hnone
  | mine _ hmove =>
    obtain ⟨handler, result, newState, -, -, -, hnext, -⟩ := myTurnMakeMove_eq_ok hmove
    cases hnext
    have hnone' : result.waitingHandler = none := hnone
    simp [TheirTurnReferee.spendThisCoin, MyTurnReferee.acceptThisMove, MyTurnReferee.moveArgs,
      MyTurnReferee.moveDetails, hnone']
  | moved _ hspent =>
    obtain ⟨details, next', move, -, hnext⟩ := theirTurnCoinSpent_eq_some hspent
    cases hnext

end Referee

namespace TheirTurnReferee

variable (E) (t : TheirTurnReferee) {details : GameMoveDetails} {m : MoveSolution} {n : ℕ}

/-- The game's validator has a verdict on the move, unless that is the last one, and our handler
takes the move. -/
def Answers (details : GameMoveDetails) : Prop :=
  ∃ verdict, t.stateAfterTheirMove E details = .ok verdict ∧
    ∀ handler newState, t.state.gameHandler = some handler → verdict = some newState →
      ∃ result, t.callHandler E handler details newState = .ok result

variable {E} {t}

theorem theirTurnMoveOffChain_answers {x : Option MyTurnReferee × TheirTurnMoveResult}
    (h : t.theirTurnMoveOffChain E details n = .ok x) : t.Answers E details := by
  rw [theirTurnMoveOffChain] at h
  cases hh : t.state.gameHandler with
  | none => simp [hh] at h
  | some handler =>
    simp only [hh, bind_eq_ok] at h
    obtain ⟨verdict, hverdict, h⟩ := h
    refine ⟨verdict, hverdict, fun handler' newState hhandler hsome => ?_⟩
    cases hh.symm.trans hhandler
    subst hsome
    simp only [bind_eq_ok] at h
    obtain ⟨result, hresult, -⟩ := h
    exact ⟨result, hresult⟩

/-- With a verdict and an answer the move ends in a slash or in our turn at the coin it creates. -/
theorem Answers.theirTurnMoveOffChain (h : t.Answers E details)
    (hhandler : t.state.gameHandler ≠ none) (n : ℕ) :
    ∃ newSelf move, t.theirTurnMoveOffChain E details n = .ok (newSelf, move) ∧
      (move.slash = none →
        ∃ next, newSelf = some next ∧ next.spendThisCoin = t.theirArgs details) := by
  obtain ⟨handler, hh⟩ := Option.ne_none_iff_exists'.mp hhandler
  obtain ⟨verdict, hverdict, hcall⟩ := h
  rw [TheirTurnReferee.theirTurnMoveOffChain, hh]
  simp only [hverdict, ok_bind]
  cases verdict with
  | none => exact ⟨none, _, rfl, fun hno => by cases hno⟩
  | some newState =>
    obtain ⟨result, hresult⟩ := hcall handler newState hh rfl
    simp only [hresult, ok_bind]
    cases t.findSlash E details result.slashEvidence with
    | some evidence => exact ⟨none, _, rfl, fun hno => by cases hno⟩
    | none => exact ⟨_, _, rfl, fun _ => ⟨_, rfl, rfl⟩⟩

end TheirTurnReferee

/-- The coin that the referee goes on with, or that it slashes, has the puzzle hash. -/
def TheirTurnCoinSpentResult.At (E : Env) (ph : Hash) : TheirTurnCoinSpentResult → Prop
  | moved newCoinString _ _ _ => newCoinString.puzzleHash = ph
  | slash transaction _ _ => transaction.coin.puzzleHash = ph ∧
      (transaction.puzzle.coin E).puzzleHash E.sha256 = ph

namespace TheirTurnReferee

variable {t : TheirTurnReferee} {details : GameMoveDetails} {m : MoveSolution}

/-- The details name the created coin if and only if its share is written canonically. -/
theorem createdCoin_iff (hh : CollisionFree E.sha256)
    (hm : t.spendThisCoin.moverPubkey = t.fixed.theirRefereePubkey)
    (hw : t.spendThisCoin.waiterPubkey = t.fixed.myIdentity.publicKey)
    (hf : t.spendThisCoin.Matches t.fixed)
    (hmove : details.basic.moveMade = m.newMove)
    (hmover : details.basic.moverShare = natOfBytes m.newMoverShare)
    (hsize : details.basic.maxMoveSizeRaw = m.newMaxMoveSize)
    (hinfo : details.validationInfoHash.toAtom = m.infohashC) {args : RefereePuzzleArgs}
    (hargs : args = t.theirArgs details ∨ args = t.slashArgs details) :
    curryRefereePuzzleHash E t.fixed.refereeCoinPuzzleHash args =
        (t.createdCoin E m).puzzleHash E.sha256 ↔
      m.newMoverShare = bytesOfNat (natOfBytes m.newMoverShare) := by
  have hph : args.refereeCoinPuzzleHash = t.fixed.refereeCoinPuzzleHash := by
    rcases hargs with rfl | rfl
    · exact hf.puzzleHash
    · rfl
  have hdetails : args.gameMove = details := by
    rcases hargs with rfl | rfl
    · rfl
    · rfl
  rw [curryRefereePuzzleHash_eq hph]
  constructor
  · intro heq
    have hcoin := RefereeArgs.puzzleHash_injective hh heq
    have hshare : bytesOfNat args.gameMove.basic.moverShare = m.newMoverShare :=
      congrArg RefereeArgs.moverShare hcoin
    rw [hdetails, hmover] at hshare
    exact hshare.symm
  · intro hshare
    obtain ⟨htheir, hslash⟩ := theirArgs_coin hm hw hf hshare hmove hmover hsize hinfo
    rcases hargs with rfl | rfl
    · rw [htheir]
    · rw [hslash]

/-- A move seen on chain is followed to the coin it creates exactly if its share is written
canonically and the game answers it. -/
theorem theirTurnCoinSpent_at_iff (hh : CollisionFree E.sha256)
    (hreach : Referee.Reach E p (.theirTurn t)) (hamount : t.fixed.amount < 2 ^ 64) {conds : Clvm}
    (hspend : refereePuzzle E.sha256 E.run (t.spendThisCoin.coin E) m.toClvm = some conds)
    (coin : CoinString) (n : ℕ) :
    (∃ ph next result, createdPuzzleHash (coinConditions conds) = some ph ∧
        t.theirTurnCoinSpent E coin (coinConditions conds) n (.move m) = .ok (next, result) ∧
        result.At E ph) ↔
      m.newMoverShare = bytesOfNat (natOfBytes m.newMoverShare) ∧
        ∀ details, t.detailsOfSolution m = .ok details → t.Answers E details := by
  obtain ⟨haccept, hcreated⟩ := createdPuzzleHash_of_move hspend
  have hfixed := hreach.setUp.1.matches hamount
  obtain ⟨hm, hw⟩ := hreach.mover
  have hhandler : t.state.gameHandler ≠ none := handler_of_acceptsMove hreach.finished haccept
  obtain ⟨details, hdetails, hmove, hmover, hsize, hinfo⟩ :=
    detailsOfSolution_of_acceptsMove hfixed haccept
  have hcoin : ∀ args, args = t.theirArgs details ∨ args = t.slashArgs details →
      (curryRefereePuzzleHash E t.fixed.refereeCoinPuzzleHash args =
        (t.createdCoin E m).puzzleHash E.sha256 ↔
          m.newMoverShare = bytesOfNat (natOfBytes m.newMoverShare)) := fun args hargs =>
    createdCoin_iff hh hm hw hfixed hmove hmover hsize hinfo hargs
  have hanswers : (∀ d, t.detailsOfSolution m = .ok d → t.Answers E d) ↔ t.Answers E details :=
    ⟨fun h => h details hdetails, fun h d hd => Except.ok.inj (hdetails.symm.trans hd) ▸ h⟩
  rw [hanswers]
  constructor
  · rintro ⟨ph, next, result, hph, h, hat⟩
    obtain rfl : (t.createdCoin E m).puzzleHash E.sha256 = ph :=
      Option.some.inj (hcreated.symm.trans hph)
    simp only [theirTurnCoinSpent, hdetails, ok_bind, bind_eq_ok] at h
    obtain ⟨⟨newSelf, move⟩, hoff, h⟩ := h
    refine ⟨?_, theirTurnMoveOffChain_answers hoff⟩
    obtain ⟨newSelf', move', hoff', hnext⟩ :=
      (theirTurnMoveOffChain_answers hoff).theirTurnMoveOffChain hhandler n
    obtain ⟨rfl, rfl⟩ := Prod.mk.inj (Except.ok.inj (hoff.symm.trans hoff'))
    cases hs : move.slash with
    | some evidence =>
      simp only [hs, hcreated] at h
      split at h
      · cases h
      · rename_i hsame
        exact (hcoin _ (.inr rfl)).mp (not_not.mp hsame)
    | none =>
      obtain ⟨next', rfl, hspends⟩ := hnext hs
      simp only [hs, Except.ok.injEq, Prod.mk.injEq] at h
      obtain ⟨-, rfl⟩ := h
      rw [TheirTurnCoinSpentResult.At, hspends] at hat
      exact (hcoin _ (.inl rfl)).mp hat
  · rintro ⟨hshare, hans⟩
    obtain ⟨newSelf, move, hoff, hnext⟩ := hans.theirTurnMoveOffChain hhandler n
    have hslash := (hcoin _ (.inr rfl)).mpr hshare
    cases hs : move.slash with
    | some evidence =>
      have hspent : t.theirTurnCoinSpent E coin (coinConditions conds) n (.move m) =
          .ok (none, t.makeSlashForTheirTurn E t.state.slashValidationProgram t.state.slashState
            ⟨coin.toCoinId E.sha256, (t.createdCoin E m).puzzleHash E.sha256, t.fixed.amount⟩
            (t.slashArgs details) evidence details.basic.moverShare) := by
        simp only [theirTurnCoinSpent, hdetails, ok_bind, hoff, hs, hcreated]
        exact if_neg (not_not.mpr hslash)
      exact ⟨_, none, _, hcreated, hspent, rfl, hslash⟩
    | none =>
      obtain ⟨next', rfl, hspends⟩ := hnext hs
      have hspent : t.theirTurnCoinSpent E coin (coinConditions conds) n (.move m) =
          .ok (some (.myTurn (adjust next')), .moved
            ⟨coin.toCoinId E.sha256, curryRefereePuzzleHash E t.fixed.refereeCoinPuzzleHash
              next'.spendThisCoin, t.fixed.amount⟩ n move.readableMove
            next'.spendThisCoin.gameMove.basic.moverShare) := by
        simp only [theirTurnCoinSpent, hdetails, ok_bind, hoff, hs]
      refine ⟨_, _, _, hcreated, hspent, ?_⟩
      rw [TheirTurnCoinSpentResult.At, hspends]
      exact (hcoin _ (.inl rfl)).mpr hshare

end TheirTurnReferee

/-! The faulty game at the opponent's turn. -/

namespace Faulty

def env : Env where
  sha256 := frame
  run := run
  keyBytes pk := bytesOfNat pk.sum

def start : GameStartInfo where
  amount := 2
  gameHandler := .theirTurnHandler (.nat 1)
  myContributionThisGame := 1
  theirContributionThisGame := 1
  initialValidationProgram := StateUpdateProgram.new env program
  initialState := .nil
  initialMove := []
  initialMaxMoveSize := 4
  initialMoverShare := 1
  gameId := 1
  timeout := 15

def waiting : TheirTurnReferee where
  fixed := initialFixedContext start Steady.parties
  finished := false
  messageHandler := none
  state := {
    gameHandler := some (.theirTurnHandler (.nat 1))
    slashValidationProgram := start.initialValidationProgram
    slashState := .nil
    theirTurnValidationProgram := start.initialValidationProgram
    currentState := .nil
    createThisCoin := initialPuzzleArgs env start Steady.parties
    spendThisCoin := initialPuzzleArgs env start Steady.parties
    moveSpend := none }
  stateNumber := 0

theorem waiting_reached : Referee.Reach env Steady.parties (.theirTurn waiting) := by
  have hnew : Referee.new env start Steady.parties 0 = .ok (.theirTurn waiting,
      curryRefereePuzzleHash env Steady.parties.refereeCoinPuzzleHash
        (initialPuzzleArgs env start Steady.parties)) := by
    have hturn : ¬ start.gameHandler.isMyTurn := by simp [start, GameHandler.isMyTurn]
    rw [Referee.new, if_neg hturn, TheirTurnReferee.new, refereeInitialSetup_eq_ok]
    rfl
  exact .new hnew

/-- A move that leaves one mojo to the next mover. -/
def moveWithShare (share : Bytes) : MoveSolution := ⟨[9], List.replicate 32 7, share, [4]⟩

def moveDetails : GameMoveDetails where
  basic := { moveMade := [9], moverShare := 1, maxMoveSize := 4, maxMoveSizeRaw := [4] }
  validationInfoHash := .hash (List.replicate 32 7)
  validationProgramHash := none

def tracked : CoinString := ⟨[], [], 2⟩

end Faulty

/-- A share of one byte: the faulty move is slashed at the coin that it creates. -/
theorem theirTurnCoinSpent_at_iff_faulty :
    ∃ conds, refereePuzzle frame Faulty.run (Faulty.waiting.spendThisCoin.coin Faulty.env)
        (Faulty.moveWithShare [1]).toClvm = some conds ∧
      ∃ ph next result,
        TheirTurnReferee.createdPuzzleHash (coinConditions conds) = some ph ∧
        Faulty.waiting.theirTurnCoinSpent Faulty.env Faulty.tracked (coinConditions conds) 1
          (.move (Faulty.moveWithShare [1])) = .ok (next, result) ∧ result.At Faulty.env ph := by
  have hspend : refereePuzzle frame Faulty.run (Faulty.waiting.spendThisCoin.coin Faulty.env)
      (Faulty.moveWithShare [1]).toClvm = some (.list (moveConditions frame
        (Faulty.waiting.spendThisCoin.coin Faulty.env) (Faulty.moveWithShare [1]))) := by
    decide +kernel
  refine ⟨_, hspend, (TheirTurnReferee.theirTurnCoinSpent_at_iff frame_collisionFree
    Faulty.waiting_reached (by decide) hspend Faulty.tracked 1).mpr ⟨by decide, fun details h => ?_⟩⟩
  have hdetails : Faulty.waiting.detailsOfSolution (Faulty.moveWithShare [1]) =
      .ok Faulty.moveDetails := rfl
  obtain rfl : Faulty.moveDetails = details := Except.ok.inj (hdetails.symm.trans h)
  have hverdict : Faulty.waiting.stateAfterTheirMove Faulty.env Faulty.moveDetails = .ok none := by
    decide +kernel
  exact ⟨none, hverdict, fun _ _ _ hsome => by cases hsome⟩

/-- A zero in front of the share: the puzzle takes the move, and the referee loses the coin. -/
theorem padded_share_not_tracked :
    Referee.Reach Faulty.env Steady.parties (.theirTurn Faulty.waiting) ∧
    ∃ conds, refereePuzzle frame Faulty.run (Faulty.waiting.spendThisCoin.coin Faulty.env)
        (Faulty.moveWithShare [0, 1]).toClvm = some conds ∧
      ¬ ∃ ph next result,
        TheirTurnReferee.createdPuzzleHash (coinConditions conds) = some ph ∧
        Faulty.waiting.theirTurnCoinSpent Faulty.env Faulty.tracked (coinConditions conds) 1
          (.move (Faulty.moveWithShare [0, 1])) = .ok (next, result) ∧ result.At Faulty.env ph := by
  have hspend : refereePuzzle frame Faulty.run (Faulty.waiting.spendThisCoin.coin Faulty.env)
      (Faulty.moveWithShare [0, 1]).toClvm = some (.list (moveConditions frame
        (Faulty.waiting.spendThisCoin.coin Faulty.env) (Faulty.moveWithShare [0, 1]))) := by
    decide +kernel
  have hlost : (Faulty.waiting.theirTurnCoinSpent Faulty.env Faulty.tracked
      (coinConditions (.list (moveConditions frame
        (Faulty.waiting.spendThisCoin.coin Faulty.env) (Faulty.moveWithShare [0, 1])))) 1
      (.move (Faulty.moveWithShare [0, 1]))).isOk = false := by
    decide +kernel
  refine ⟨Faulty.waiting_reached, _, hspend, ?_⟩
  rintro ⟨ph, next, result, -, h, -⟩
  rw [h] at hlost
  cases hlost

end ChiaGaming
