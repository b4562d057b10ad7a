import ChiaGaming.Referee.Runs

namespace ChiaGaming

variable {E : Env}

/-- The conditions of a spend as the bookkeeping reads them. -/
def coinConditions (conds : Clvm) : List CoinCondition :=
  (conds.properList.getD []).map fun cond =>
    match cond.properList with
    | some [code, .atom ph, .atom amount] =>
      if code = condCreateCoin then .createCoin ph (natOfBytes amount) else .other
    | _ => .other

/-- The first coin that a move creates is the next referee coin. -/
theorem createdPuzzleHash_of_move {a : RefereeArgs} {m : MoveSolution} {conds : Clvm}
    (h : refereePuzzle E.sha256 E.run a m.toClvm = some conds) :
    a.AcceptsMove m ∧ TheirTurnReferee.createdPuzzleHash (coinConditions conds) =
      some ((a.afterMove m).puzzleHash E.sha256) := by
  rw [refereePuzzle_move] at h
  refine ⟨(moveBranch_isSome_iff m).mp (Option.isSome_of_mem h), ?_⟩
  simp only [moveBranch, MoveSolution.toClvm, Clvm.nth, Clvm.list_cons, Clvm.list_nil,
    Clvm.first_pair, Clvm.rest_pair, Clvm.bytes_atom, Option.bind_eq_bind, Option.bind_some,
    true_and] at h
  split at h
  · rw [← Option.some.inj h]
    simp [coinConditions, Clvm.properList, TheirTurnReferee.createdPuzzleHash]
  · cases h

/-- The validator reads neither the order of the keys nor what follows the evidence. -/
def Blind (run : Run) (program : Clvm) : Prop :=
  ∀ modHash a state evidence tail tail',
    run program (validatorEnv modHash a (.pair state (.pair program (.pair evidence tail)))) =
      run program (validatorEnv modHash a.swap (.pair state (.pair program (.pair evidence tail'))))

namespace TheirTurnReferee

variable (E : Env) (t : TheirTurnReferee)

/-- The evidence that our handler offers against a move. -/
def offered (details : GameMoveDetails) : List Clvm :=
  match t.state.gameHandler, t.stateAfterTheirMove E details with
  | some handler, .ok (some newState) =>
    match t.callHandler E handler details newState with
    | .ok result => result.slashEvidence
    | .error _ => []
  | _, _ => []

/-- The coin that a move seen on chain creates. -/
def createdCoin (m : MoveSolution) : RefereeArgs := (t.spendThisCoin.coin E).afterMove m

/-- The committed validator's answer, on chain, to a piece of evidence. -/
def answerOnChain (m : MoveSolution) (evidence : Clvm) (ph : Bytes) : Option Clvm :=
  E.run t.state.slashValidationProgram.program
    (validatorEnv (shatree E.sha256 t.state.slashValidationProgram.program) (t.createdCoin E m)
      (slashSolution t.state.slashState t.state.slashValidationProgram.program evidence ph))

/-- An answer that calls for no slash, or for one that needs no more than a nil verdict. -/
def PlainAnswer (created : RefereeArgs) (result : Clvm) : Prop :=
  result = .nil ∨ ∃ nextValidatorHash newState maxMoveSize,
    result = answer nextValidatorHash newState maxMoveSize .nil ∧
      Aligned E.sha256 created nextValidatorHash newState maxMoveSize

end TheirTurnReferee

/-- A move under which the verdict on chain and off chain can be compared: the share is written
canonically, the validator can be revealed and is blind, and its answers are plain. -/
structure PlainMove (E : Env) (t : TheirTurnReferee) (m : MoveSolution) : Prop where
  share : m.newMoverShare = bytesOfNat (natOfBytes m.newMoverShare)
  pair : t.state.slashValidationProgram.program.isPair
  blind : Blind E.run t.state.slashValidationProgram.program
  plain : ∀ details, t.detailsOfSolution m = .ok details →
    ∀ evidence ∈ Clvm.nil :: t.offered E details, ∀ ph result,
      t.answerOnChain E m evidence ph = some result →
      TheirTurnReferee.PlainAnswer E (t.createdCoin E m) result

/-- A slash is accepted and pays everything to us; without one no evidence of ours would pay. -/
structure SlashComplete (E : Env) (t : TheirTurnReferee) (m : MoveSolution) (coin : CoinString)
    (conditions : List CoinCondition) (n : ℕ) : Prop where
  sound : ∀ next transaction reward share,
    t.theirTurnCoinSpent E coin conditions n (.move m) =
      .ok (next, .slash transaction reward share) →
    transaction.puzzle.coin E = t.createdCoin E m ∧
      ∃ conds, refereePuzzle E.sha256 E.run (t.createdCoin E m) transaction.solution = some conds ∧
        paidTo t.fixed.rewardPuzzleHash conds = t.fixed.amount
  complete : (∀ next transaction reward share,
      t.theirTurnCoinSpent E coin conditions n (.move m) ≠
        .ok (next, .slash transaction reward share)) →
    ∀ details, t.detailsOfSolution m = .ok details →
      ∀ evidence ∈ Clvm.nil :: t.offered E details,
        ¬ SlashPays E.sha256 E.run (t.createdCoin E m) t.state.slashState
          t.state.slashValidationProgram.program evidence

section Complete

variable {t : TheirTurnReferee} {m : MoveSolution} {details : GameMoveDetails}

/-- A move that the referee accepts can be read, and nothing is lost but a non-canonical share. -/
theorem detailsOfSolution_of_acceptsMove (hfixed : t.spendThisCoin.Matches t.fixed)
    (haccept : (t.spendThisCoin.coin E).AcceptsMove m) :
    ∃ details, t.detailsOfSolution m = .ok details ∧ details.basic.moveMade = m.newMove ∧
      details.basic.moverShare = natOfBytes m.newMoverShare ∧
      details.basic.maxMoveSizeRaw = m.newMaxMoveSize ∧
      details.validationInfoHash.toAtom = m.infohashC := by
  obtain ⟨-, -, hsize, hle, h0, hinfo⟩ := haccept
  have hshare : natOfBytes m.newMoverShare ≤ t.fixed.amount := by
    have hamount : intOfBytes (t.spendThisCoin.coin E).amount = t.fixed.amount := by
      rw [RefereePuzzleArgs.coin, intOfBytes_bytesOfNat, hfixed.amount]
    rw [hamount, intOfBytes_of_nonneg h0] at hle
    exact_mod_cast hle
  have hshare' : u64FromAtom m.newMoverShare = some (natOfBytes m.newMoverShare) := by
    rw [u64FromAtom, if_pos (hshare.trans_lt hfixed.amount_lt)]
  have hmms : u64FromAtom m.newMaxMoveSize = some (natOfBytes m.newMaxMoveSize) := by
    have hlt : natOfBytes m.newMaxMoveSize < 2 ^ 64 := by
      refine (natOfBytes_lt _).trans_le ?_
      calc 256 ^ m.newMaxMoveSize.length ≤ 256 ^ 2 := Nat.pow_le_pow_right (by norm_num) hsize
        _ ≤ 2 ^ 64 := by norm_num
    rw [u64FromAtom, if_pos hlt]
  obtain ⟨vih, hvih, hatom⟩ := ValidationInfoHash.ofRaw_eq_ok hinfo
  refine ⟨⟨⟨m.newMove, natOfBytes m.newMoverShare, natOfBytes m.newMaxMoveSize, m.newMaxMoveSize⟩,
    vih, none⟩, ?_, rfl, rfl, rfl, hatom⟩
  rw [TheirTurnReferee.detailsOfSolution, hvih, ok_bind, hshare', orError, ok_bind,
    if_neg (by omega), hmms]
  rfl

/-- The coin that the players compute is the one on chain. -/
theorem theirArgs_coin (hm : t.spendThisCoin.moverPubkey = t.fixed.theirRefereePubkey)
    (hw : t.spendThisCoin.waiterPubkey = t.fixed.myIdentity.publicKey)
    (hf : t.spendThisCoin.Matches t.fixed)
    (hshare : m.newMoverShare = bytesOfNat (natOfBytes m.newMoverShare))
    (hmove : details.basic.moveMade = m.newMove)
    (hmover : details.basic.moverShare = natOfBytes m.newMoverShare)
    (hsize : details.basic.maxMoveSizeRaw = m.newMaxMoveSize)
    (hinfo : details.validationInfoHash.toAtom = m.infohashC) :
    (t.theirArgs details).coin E = t.createdCoin E m ∧
      (t.slashArgs details).coin E = t.createdCoin E m := by
  constructor
  · simp [TheirTurnReferee.theirArgs, TheirTurnReferee.createdCoin, RefereePuzzleArgs.coin,
      RefereeArgs.afterMove, hm, hw, hmove, hmover, hsize, hinfo, ← hshare]
  · simp [TheirTurnReferee.slashArgs, TheirTurnReferee.createdCoin, RefereePuzzleArgs.coin,
      RefereeArgs.afterMove, hm, hw, hmove, hmover, hsize, hinfo, ← hshare, hf.timeout, hf.amount,
      hf.nonce, hf.puzzleHash]

theorem parseValidatorResult_eq_ok_none {result : Clvm} :
    parseValidatorResult result = .ok none ↔ result = .nil := by
  rw [parseValidatorResult]
  constructor
  · intro h
    split at h
    · cases h
    · rename_i hnil
      exact (Clvm.properList_eq_some_iff _ _).mp hnil
    · cases h
  · rintro rfl
    rfl

/-- If the player is in step with the coin, the verdict off chain is the one on chain. -/
theorem judge_eq_ok_none_iff (hinv : t.Inv E) (hhandler : t.state.gameHandler ≠ none)
    (hblind : Blind E.run t.state.slashValidationProgram.program)
    (hcoin : (t.theirArgs details).coin E = t.createdCoin E m) (evidence : Clvm) (ph : Bytes) :
    t.judge E details evidence = .ok none ↔ t.answerOnChain E m evidence ph = some .nil := by
  obtain ⟨hprogram, hstate⟩ := hinv.inStep hhandler
  have hrun : t.answerOnChain E m evidence ph =
      E.run (t.theirArgs details).validationProgram.program
        (validatorEnv (t.theirArgs details).validationProgram.hash
          ((t.theirArgs details).coin E).swap
          (.list [t.state.currentState, (t.theirArgs details).validationProgram.program,
            evidence])) := by
    have hV : (t.theirArgs details).validationProgram = t.state.slashValidationProgram :=
      hprogram.symm
    have hhash : (t.theirArgs details).validationProgram.hash =
        shatree E.sha256 t.state.slashValidationProgram.program := by
      rw [hV, hprogram]
      exact hinv.declared hhandler
    rw [TheirTurnReferee.answerOnChain, hhash, hV, hcoin, ← hstate]
    exact hblind _ _ _ _ _ _
  rw [TheirTurnReferee.judge, TheirTurnReferee.runStateUpdate, runInternalStateUpdate_swap, hrun]
  cases E.run (t.theirArgs details).validationProgram.program _ with
  | none => simp
  | some result => simp [parseValidatorResult_eq_ok_none]

/-- How a move comes to be slashed. -/
theorem theirTurnMoveOffChain_slash {n : ℕ} {next : Option MyTurnReferee}
    {move : TheirTurnMoveResult} {evidence : Clvm}
    (h : t.theirTurnMoveOffChain E details n = .ok (next, move)) (hslash : move.slash = some evidence) :
    t.judge E details evidence = .ok none := by
  rw [TheirTurnReferee.theirTurnMoveOffChain] at h
  cases hh : t.state.gameHandler with
  | none => simp [hh] at h
  | some handler =>
    simp only [hh, bind_eq_ok] at h
    obtain ⟨state, hstate, h⟩ := h
    cases state with
    | none =>
      obtain ⟨-, rfl⟩ := Prod.mk.inj (Except.ok.inj h)
      obtain rfl : Clvm.nil = evidence := Option.some.inj hslash
      rw [TheirTurnReferee.stateAfterTheirMove] at hstate
      split at hstate
      · split at hstate
        · assumption
        · cases hstate
      · exact hstate
    | some newState =>
      simp only [bind_eq_ok] at h
      obtain ⟨result, -, h⟩ := h
      split at h
      · rename_i found hfound
        obtain ⟨-, rfl⟩ := Prod.mk.inj (Except.ok.inj h)
        obtain rfl : found = evidence := Option.some.inj hslash
        simpa using List.find?_some hfound
      · obtain ⟨-, rfl⟩ := Prod.mk.inj (Except.ok.inj h)
        cases hslash

/-- Evidence with a nil verdict is found, ours or the empty one. -/
theorem theirTurnMoveOffChain_of_judge (hhandler : t.state.gameHandler ≠ none) {evidence : Clvm}
    (hmem : evidence ∈ Clvm.nil :: t.offered E details)
    (hjudge : t.judge E details evidence = .ok none) (n : ℕ) :
    ∃ move found, t.theirTurnMoveOffChain E details n = .ok (none, move) ∧
      move.slash = some found := by
  obtain ⟨handler, hh⟩ := Option.ne_none_iff_exists'.mp hhandler
  rw [TheirTurnReferee.theirTurnMoveOffChain, hh]
  by_cases hnil : t.judge E details .nil = .ok none
  · have hstate : t.stateAfterTheirMove E details = .ok none := by
      rw [TheirTurnReferee.stateAfterTheirMove, hnil]
      split <;> rfl
    simp only [hstate, ok_bind]
    exact ⟨_, .nil, rfl, rfl⟩
  · rcases List.mem_cons.mp hmem with rfl | hmem
    · exact absurd hjudge hnil
    -- the evidence is offered, so the handler was called
    rw [TheirTurnReferee.offered, hh] at hmem
    split at hmem
    · rename_i handler' newState heq hstate
      obtain rfl : handler = handler' := Option.some.inj heq
      split at hmem
      · rename_i result hcall
        have hfound : (t.findSlash E details result.slashEvidence).isSome := by
          rw [TheirTurnReferee.findSlash, List.find?_isSome]
          exact ⟨evidence, hmem, by simpa using hjudge⟩
        obtain ⟨found, hfound⟩ := Option.isSome_iff_exists.mp hfound
        simp only [hstate, ok_bind, hcall, hfound]
        exact ⟨_, found, rfl, rfl⟩
      · simp at hmem
    · simp at hmem

/-- The created coin commits to the slash pair. -/
theorem createdCoin_infohashA (hinv : t.Inv E) (hhandler : t.state.gameHandler ≠ none) :
    (t.createdCoin E m).infohashA = infohash E.sha256
      (shatree E.sha256 t.state.slashValidationProgram.program) t.state.slashState := by
  have hhash := hinv.declared hhandler
  rw [← (hinv.inStep hhandler).1] at hhash
  rw [← hhash]
  exact congrArg ValidationInfoHash.toAtom (hinv.commits hhandler)

theorem refereePuzzle_slash_created (hinv : t.Inv E) (hhandler : t.state.gameHandler ≠ none)
    (hpair : t.state.slashValidationProgram.program.isPair) (evidence : Clvm) (ph : Bytes) :
    refereePuzzle E.sha256 E.run (t.createdCoin E m) (slashSolution t.state.slashState
        t.state.slashValidationProgram.program evidence ph) =
      (t.answerOnChain E m evidence ph).bind fun result =>
        slashConditions E.sha256 (t.createdCoin E m) result ph := by
  rw [refereePuzzle_slash hpair, slashBranch_slashSolution,
    if_pos (createdCoin_infohashA hinv hhandler)]
  rfl

theorem paidTo_payoutConditions (a : RefereeArgs) (ph : Bytes) :
    paidTo ph (.list (payoutConditions a ph)) = intOfBytes a.amount := by
  rw [paidTo_list, payoutConditions]
  simp only [List.map_cons, List.map_nil, createCoinAmount_createCoin,
    createCoinAmount_aggSigUnsafe, if_true, List.sum_cons, List.sum_nil, add_zero]

theorem handler_of_acceptsMove (hfinished : t.state.gameHandler = none →
      t.spendThisCoin.gameMove.validationInfoHash = .none)
    (haccept : (t.spendThisCoin.coin E).AcceptsMove m) : t.state.gameHandler ≠ none := by
  intro hnone
  apply haccept.1
  exact congrArg ValidationInfoHash.toAtom (hfinished hnone)

/-- What a slash on chain consists of. -/
theorem theirTurnCoinSpent_slash {coin : CoinString} {conditions : List CoinCondition} {n : ℕ}
    {next : Option Referee} {transaction : RefereeSpend} {reward : CoinString} {share : ℕ}
    (h : t.theirTurnCoinSpent E coin conditions n (.move m) =
      .ok (next, .slash transaction reward share)) :
    ∃ details evidence, t.detailsOfSolution m = .ok details ∧
      t.judge E details evidence = .ok none ∧ transaction.puzzle = t.slashArgs details ∧
      transaction.solution = slashSolution t.state.slashState t.state.slashValidationProgram.program
        evidence t.fixed.rewardPuzzleHash := by
  simp only [TheirTurnReferee.theirTurnCoinSpent, bind_eq_ok] at h
  obtain ⟨details, hdetails, ⟨newSelf, move⟩, hoff, h⟩ := h
  simp only at h
  cases hs : move.slash with
  | none =>
    cases newSelf with
    | none => simp [hs] at h
    | some newSelf => simp [hs] at h
  | some evidence =>
    simp only [hs] at h
    split at h
    · cases h
    · split at h
      · cases h
      · simp only [TheirTurnReferee.makeSlashForTheirTurn, Except.ok.injEq, Prod.mk.injEq,
          TheirTurnCoinSpentResult.slash.injEq] at h
        obtain ⟨-, rfl, -, -⟩ := h
        exact ⟨details, evidence, hdetails, theirTurnMoveOffChain_slash hoff hs, rfl, rfl⟩

theorem slash_sound (hinv : t.Inv E) (haccept : (t.spendThisCoin.coin E).AcceptsMove m)
    (hplain : PlainMove E t m) {coin : CoinString} {conditions : List CoinCondition} {n : ℕ}
    {next : Option Referee} {transaction : RefereeSpend} {reward : CoinString} {share : ℕ}
    (h : t.theirTurnCoinSpent E coin conditions n (.move m) =
      .ok (next, .slash transaction reward share)) :
    transaction.puzzle.coin E = t.createdCoin E m ∧
      ∃ conds, refereePuzzle E.sha256 E.run (t.createdCoin E m) transaction.solution = some conds ∧
        paidTo t.fixed.rewardPuzzleHash conds = t.fixed.amount := by
  have hhandler := handler_of_acceptsMove hinv.finished haccept
  obtain ⟨details, hdetails, hmove, hmover, hsize, hinfo⟩ :=
    detailsOfSolution_of_acceptsMove hinv.fixed haccept
  obtain ⟨htheir, hslash⟩ := theirArgs_coin hinv.mover hinv.waiter hinv.fixed hplain.share hmove hmover hsize hinfo
  obtain ⟨details', evidence, hdetails', hjudge, hpuzzle, hsolution⟩ := theirTurnCoinSpent_slash h
  obtain rfl : details = details' := Except.ok.inj (hdetails.symm.trans hdetails')
  have hanswer := (judge_eq_ok_none_iff hinv hhandler hplain.blind htheir evidence
    t.fixed.rewardPuzzleHash).mp hjudge
  rw [hpuzzle, hsolution]
  refine ⟨hslash, .list (payoutConditions (t.createdCoin E m) t.fixed.rewardPuzzleHash), ?_, ?_⟩
  · rw [refereePuzzle_slash_created hinv hhandler hplain.pair, hanswer, Option.bind_some,
      slashConditions_nil]
  · rw [paidTo_payoutConditions, TheirTurnReferee.createdCoin, afterMove_amount,
      RefereePuzzleArgs.coin, intOfBytes_bytesOfNat, hinv.fixed.amount]

/-- Evidence that pays on chain makes the player slash. -/
theorem slash_of_pays (hinv : t.Inv E) (haccept : (t.spendThisCoin.coin E).AcceptsMove m)
    (hplain : PlainMove E t m) (hdetails : t.detailsOfSolution m = .ok details) {evidence : Clvm}
    (hmem : evidence ∈ Clvm.nil :: t.offered E details)
    (hpays : SlashPays E.sha256 E.run (t.createdCoin E m) t.state.slashState
      t.state.slashValidationProgram.program evidence) {conditions : List CoinCondition}
    (hcreated : TheirTurnReferee.createdPuzzleHash conditions =
      some ((t.createdCoin E m).puzzleHash E.sha256)) (coin : CoinString) (n : ℕ) :
    ∃ next transaction reward share, t.theirTurnCoinSpent E coin conditions n (.move m) =
      .ok (next, .slash transaction reward share) := by
  have hhandler := handler_of_acceptsMove hinv.finished haccept
  obtain ⟨details', hdetails', hmove, hmover, hsize, hinfo⟩ :=
    detailsOfSolution_of_acceptsMove hinv.fixed haccept
  obtain rfl : details = details' := Except.ok.inj (hdetails.symm.trans hdetails')
  obtain ⟨htheir, hslash⟩ := theirArgs_coin hinv.mover hinv.waiter hinv.fixed hplain.share hmove hmover hsize hinfo
  obtain ⟨ph, conds, hconds⟩ := hpays
  rw [refereePuzzle_slash_created hinv hhandler hplain.pair, Option.bind_eq_some_iff] at hconds
  obtain ⟨result, hanswer, hconds⟩ := hconds
  -- a plain answer that pays is nil
  obtain rfl : result = .nil := by
    rcases hplain.plain details hdetails evidence hmem ph result hanswer with
      hnil | ⟨nvh, ns, mms, rfl, haligned⟩
    · exact hnil
    · rw [slashConditions_answer, if_pos haligned, if_pos rfl] at hconds
      cases hconds
  have hjudge := (judge_eq_ok_none_iff hinv hhandler hplain.blind htheir evidence ph).mpr hanswer
  obtain ⟨move, found, hoff, hfound⟩ := theirTurnMoveOffChain_of_judge hhandler hmem hjudge n
  have hhash : curryRefereePuzzleHash E t.fixed.refereeCoinPuzzleHash (t.slashArgs details) =
      (t.createdCoin E m).puzzleHash E.sha256 := by
    rw [curryRefereePuzzleHash, hslash, RefereeArgs.puzzleHash]
    congr 1
    exact hinv.fixed.puzzleHash.symm
  simp only [TheirTurnReferee.theirTurnCoinSpent, hdetails, ok_bind, hoff, hfound, hcreated]
  rw [if_neg (by simpa using hhash)]
  exact ⟨_, _, _, _, rfl⟩

/-- In every run in which our moves keep step, plain moves are slashed exactly as the coin
demands. -/
theorem slash_complete (hreach : SteadyReach E (.theirTurn t)) {conds : Clvm}
    (hspend : refereePuzzle E.sha256 E.run (t.spendThisCoin.coin E) m.toClvm = some conds)
    (hplain : PlainMove E t m) (coin : CoinString) (n : ℕ) :
    SlashComplete E t m coin (coinConditions conds) n := by
  have hinv : t.Inv E := hreach.inv
  obtain ⟨haccept, hcreated⟩ := createdPuzzleHash_of_move hspend
  constructor
  · intro next transaction reward share h
    exact slash_sound hinv haccept hplain h
  · intro hno details hdetails evidence hmem hpays
    obtain ⟨next, transaction, reward, share, h⟩ :=
      slash_of_pays hinv haccept hplain hdetails hmem hpays hcreated coin n
    exact hno next transaction reward share h

end Complete

/-! Space poker: Bob receives Alice's opening. -/

namespace Spacepoker

def bobStart : GameStartInfo := gameStart Sha256.sha256 programs 100 10 false

def bob : TheirTurnReferee where
  fixed := initialFixedContext bobStart (seats 2 1)
  finished := false
  messageHandler := none
  state := {
    gameHandler := some (.theirTurnHandler programs.bobHandlerCommitA)
    slashValidationProgram := bobStart.initialValidationProgram
    slashState := .nat 10
    theirTurnValidationProgram := bobStart.initialValidationProgram
    currentState := .nat 10
    createThisCoin := initialPuzzleArgs table bobStart (seats 2 1)
    spendThisCoin := initialPuzzleArgs table bobStart (seats 2 1)
    moveSpend := none }
  stateNumber := 0

theorem bob_new : Referee.new table bobStart (seats 2 1) 0 =
    .ok (.theirTurn bob, curryRefereePuzzleHash table (seats 2 1).refereeCoinPuzzleHash
      (initialPuzzleArgs table bobStart (seats 2 1))) := by
  have hturn : ¬ bobStart.gameHandler.isMyTurn := by simp [bobStart, gameStart, GameHandler.isMyTurn]
  rw [Referee.new, if_neg hturn, TheirTurnReferee.new, refereeInitialSetup_eq_ok]
  rfl

theorem bob_reached : SteadyReach table (.theirTurn bob) :=
  .new ⟨rfl, by decide⟩ bob_new

/-- An opening with half of the amount. -/
def openingSolution (tip maxMoveSize : Bytes) : MoveSolution :=
  ⟨tip, List.replicate 32 7, bytesOfNat 100, maxMoveSize⟩

theorem openingSolution_accepted {tip maxMoveSize : Bytes} (htip : tip.length ≤ 32)
    (hsize : maxMoveSize.length ≤ 2) :
    ∃ conds, refereePuzzle table.sha256 table.run (bob.spendThisCoin.coin table)
      (openingSolution tip maxMoveSize).toClvm = some conds := by
  rw [refereePuzzle_move]
  apply Option.isSome_iff_exists.mp
  rw [moveBranch_isSome_iff]
  have hne : (bob.spendThisCoin.coin table).infohashB ≠ [] := by
    apply List.ne_nil_of_length_pos
    rw [show (bob.spendThisCoin.coin table).infohashB.length = 32 from Sha256.sha256_length _]
    omega
  have hmax : intOfBytes (bob.spendThisCoin.coin table).maxMoveSize = 32 := rfl
  have hshare : intOfBytes (openingSolution tip maxMoveSize).newMoverShare = 100 := rfl
  have hamount : intOfBytes (bob.spendThisCoin.coin table).amount = 200 := rfl
  refine ⟨hne, ?_, hsize, ?_, ?_, .inr rfl⟩
  · rw [hmax]
    exact_mod_cast htip
  · rw [hshare, hamount]
    norm_num
  · rw [hshare]
    norm_num

theorem valCommitA_blind : Blind table.run programs.valCommitA := by
  intro modHash a state evidence tail tail'
  have hruns := Programs.runs_valCommitA Sha256.sha256 programs
  have htable : table.run = programs.run Sha256.sha256 := rfl
  rw [htable, hruns, hruns]
  rfl

/-- A tip that is too short is slashed. -/
theorem slash_complete_short_tip :
    ∃ conds, refereePuzzle table.sha256 table.run (bob.spendThisCoin.coin table)
        (openingSolution [1, 2, 3] [32]).toClvm = some conds ∧
      SlashComplete table bob (openingSolution [1, 2, 3] [32]) ⟨[], [], 200⟩
        (coinConditions conds) 0 := by
  obtain ⟨conds, hconds⟩ := @openingSolution_accepted [1, 2, 3] [32] (by decide) (by decide)
  refine ⟨conds, hconds, slash_complete bob_reached hconds ⟨by decide, rfl, valCommitA_blind, ?_⟩
    ⟨[], [], 200⟩ 0⟩
  intro details _ evidence _ ph result hanswer
  left
  have hruns := Programs.runs_valCommitA Sha256.sha256 programs
    (shatree Sha256.sha256 programs.valCommitA) (bob.createdCoin table (openingSolution [1, 2, 3] [32]))
    (.nat 10) programs.valCommitA evidence (.pair (.atom ph) .nil)
  exact (Option.some.inj (hanswer.symm.trans hruns)).trans rfl

/-- A legal opening that commits to a wrong size is not slashed, though the slash would pay. -/
theorem wrong_size_not_slashed :
    (∃ ph, Referee.new table bobStart (seats 2 1) 0 = .ok (.theirTurn bob, ph)) ∧
    ∃ conds, refereePuzzle table.sha256 table.run (bob.spendThisCoin.coin table)
        (openingSolution tip [31]).toClvm = some conds ∧
      ¬ SlashComplete table bob (openingSolution tip [31]) ⟨[], [], 200⟩ (coinConditions conds) 0 := by
  obtain ⟨conds, hconds⟩ := @openingSolution_accepted tip [31] tip_length.le (by decide)
  refine ⟨⟨_, bob_new⟩, conds, hconds, fun hcomplete => ?_⟩
  have hinv : bob.Inv table := bob_reached.inv
  obtain ⟨haccept, -⟩ := createdPuzzleHash_of_move hconds
  obtain ⟨details, hdetails, hmove, hmover, hsize, hinfo⟩ :=
    detailsOfSolution_of_acceptsMove hinv.fixed haccept
  obtain ⟨hcoin, -⟩ := theirArgs_coin hinv.mover hinv.waiter hinv.fixed (by decide) hmove hmover hsize hinfo
  have hanswer : ∀ evidence ph, bob.answerOnChain table (openingSolution tip [31]) evidence ph =
      some (answer (shatree Sha256.sha256 programs.valCommitB) openedState (bytesOfNat 32) .nil) :=
    fun evidence ph => valCommitA_lets_through rfl rfl rfl _ _ _
  refine hcomplete.complete ?_ details hdetails .nil List.mem_cons_self ?_
  · intro next transaction reward share hslash
    obtain ⟨details', evidence, hdetails', hjudge, -⟩ := theirTurnCoinSpent_slash hslash
    obtain rfl : details = details' := Except.ok.inj (hdetails.symm.trans hdetails')
    rw [judge_eq_ok_none_iff hinv (by simp [bob]) valCommitA_blind hcoin evidence [], hanswer] at hjudge
    cases hjudge
  · refine ⟨[], .list (payoutConditions (bob.createdCoin table (openingSolution tip [31])) []), ?_⟩
    rw [refereePuzzle_slash_created hinv (by simp [bob]) rfl, hanswer, Option.bind_some,
      slashConditions_answer, if_neg]
    rintro ⟨-, h⟩
    exact absurd h (by decide)

end Spacepoker

end ChiaGaming
