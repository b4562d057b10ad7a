import ChiaGaming.Games.SpacepokerOpening
import ChiaGaming.Lib.Result

namespace ChiaGaming

variable {E : Env}

/-- What a successful local move consists of. -/
theorem myTurnMakeMove_eq_ok {r : MyTurnReferee} {readableMove : Clvm} {newEntropy : Hash}
    {stateNumber : ℕ} {next : Referee} {wire : GameMoveWireData}
    (h : r.myTurnMakeMove E readableMove newEntropy stateNumber = .ok (next, wire)) :
    ∃ handler result newState, r.state.gameHandler = some handler ∧
      r.handlerResult E handler readableMove newEntropy = .ok result ∧
      r.stateAfterMove E result = .ok newState ∧
      next = .theirTurn (r.acceptThisMove result.waitingHandler newState r.state.stateToUpdate
        r.spendThisCoin (r.moveArgs E result) result result.messageParser stateNumber) ∧
      wire.details = r.moveDetails E result := by
  rw [MyTurnReferee.myTurnMakeMove] at h
  cases hh : r.state.gameHandler with
  | none => simp [hh] at h
  | some handler =>
    simp only [hh, bind_eq_ok] at h
    obtain ⟨result, hresult, h⟩ := h
    split at h
    · cases h
    · obtain ⟨newState, hstate, h⟩ := bind_eq_ok.mp h
      rw [Except.ok.injEq, Prod.mk.injEq] at h
      obtain ⟨rfl, rfl⟩ := h
      exact ⟨handler, result, newState, rfl, hresult, hstate, rfl, rfl⟩

/-- A handler's result hashes the programs it names. -/
theorem parseMyTurnResult_hashes {value : Clvm} {result : MyTurnResult}
    (h : parseMyTurnResult E value = .ok result) :
    result.outgoingMoveStateUpdateProgram =
        StateUpdateProgram.new E result.outgoingMoveStateUpdateProgram.program ∧
      result.incomingMoveStateUpdateProgram =
        StateUpdateProgram.new E result.incomingMoveStateUpdateProgram.program := by
  obtain ⟨pl, -, h⟩ := bind_eq_ok.mp h
  split at h
  · obtain ⟨_, -, h⟩ := bind_eq_ok.mp h
    obtain ⟨_, -, h⟩ := bind_eq_ok.mp h
    cases h
  · obtain ⟨_, -, h⟩ := bind_eq_ok.mp h
    split at h
    · cases h
    · obtain ⟨_, -, h⟩ := bind_eq_ok.mp h
      obtain ⟨_, -, h⟩ := bind_eq_ok.mp h
      obtain ⟨_, -, h⟩ := bind_eq_ok.mp h
      obtain ⟨_, -, h⟩ := bind_eq_ok.mp h
      obtain ⟨_, -, h⟩ := bind_eq_ok.mp h
      obtain ⟨_, -, h⟩ := bind_eq_ok.mp h
      obtain ⟨_, -, h⟩ := bind_eq_ok.mp h
      cases h
      exact ⟨rfl, rfl⟩
  · cases h

theorem handlerResult_hashes {r : MyTurnReferee} {handler : GameHandler} {readableMove : Clvm}
    {newEntropy : Hash} {result : MyTurnResult} (hhonest : r.enableCheating = none)
    (h : r.handlerResult E handler readableMove newEntropy = .ok result) :
    result.outgoingMoveStateUpdateProgram =
        StateUpdateProgram.new E result.outgoingMoveStateUpdateProgram.program ∧
      result.incomingMoveStateUpdateProgram =
        StateUpdateProgram.new E result.incomingMoveStateUpdateProgram.program := by
  rw [MyTurnReferee.handlerResult, hhonest] at h
  cases handler with
  | theirTurnHandler p => cases h
  | myTurnHandler p =>
    obtain ⟨value, -, h⟩ := bind_eq_ok.mp h
    exact parseMyTurnResult_hashes h

/-- A local move that went through, with the data to play it on chain. -/
structure MadeMove (E : Env) (r : MyTurnReferee) where
  readableMove : Clvm
  newEntropy : Hash
  stateNumber : ℕ
  handler : GameHandler
  result : MyTurnResult
  next : TheirTurnReferee
  wire : GameMoveWireData
  data : OnChainRefereeMoveData
  handler_eq : r.state.gameHandler = some handler
  result_eq : r.handlerResult E handler readableMove newEntropy = .ok result
  move_eq : r.myTurnMakeMove E readableMove newEntropy stateNumber = .ok (.theirTurn next, wire)
  data_eq : next.state.moveSpend = some data

namespace MadeMove

variable {r : MyTurnReferee}

/-- The steps of a local move, put together. -/
def ofResult {handler : GameHandler} {result : MyTurnResult} {readableMove newState : Clvm}
    {newEntropy : Hash} (handler_eq : r.state.gameHandler = some handler)
    (result_eq : r.handlerResult E handler readableMove newEntropy = .ok result)
    (size_le : result.moveBytes.length ≤ r.spendThisCoin.gameMove.basic.maxMoveSize)
    (state_eq : r.stateAfterMove E result = .ok newState) : MadeMove E r where
  readableMove := readableMove
  newEntropy := newEntropy
  stateNumber := 0
  handler := handler
  result := result
  next := r.acceptThisMove result.waitingHandler newState r.state.stateToUpdate r.spendThisCoin
    (r.moveArgs E result) result result.messageParser 0
  wire := ⟨curryRefereePuzzleHash E r.fixed.refereeCoinPuzzleHash r.spendThisCoin,
    r.moveDetails E result⟩
  data := ⟨r.state.stateToUpdate, result.outgoingMoveStateUpdateProgram, r.moveDetails E result,
    r.spendThisCoin, r.moveArgs E result⟩
  handler_eq := handler_eq
  result_eq := result_eq
  move_eq := by
    have hsize : ¬ (r.enableCheating.isNone ∧
        r.spendThisCoin.gameMove.basic.maxMoveSize < result.moveBytes.length) := by
      rintro ⟨-, h⟩
      omega
    rw [MyTurnReferee.myTurnMakeMove, handler_eq]
    simp only [result_eq, ok_bind, if_neg hsize, state_eq]
  data_eq := rfl

def spentCoin (m : MadeMove E r) : RefereeArgs := m.data.beforeArgs.coin E

/-- The coin that the move creates when it is played on chain. -/
def createdCoin (m : MadeMove E r) : RefereeArgs := m.spentCoin.afterMove (m.data.solution E)

theorem data_spec (m : MadeMove E r) :
    m.data.beforeArgs = r.spendThisCoin ∧ m.data.state = r.state.stateToUpdate ∧
      m.data.validationProgram = m.result.outgoingMoveStateUpdateProgram ∧
      m.data.newMove = r.moveDetails E m.result := by
  obtain ⟨handler, result, newState, hh, hresult, -, hnext, -⟩ := myTurnMakeMove_eq_ok m.move_eq
  obtain rfl : m.handler = handler := Option.some.inj (m.handler_eq.symm.trans hh)
  obtain rfl : m.result = result := Except.ok.inj (m.result_eq.symm.trans hresult)
  have hdata := m.data_eq
  rw [Referee.theirTurn.injEq] at hnext
  rw [hnext, MyTurnReferee.acceptThisMove, Option.some.injEq] at hdata
  rw [← hdata]
  exact ⟨rfl, rfl, rfl, rfl⟩

/-- A move after which the game goes on commits to the validator that judges it and to the state
before it. -/
theorem createdCoin_infohashB (m : MadeMove E r) (h : m.result.waitingHandler.isSome) :
    m.createdCoin.infohashB =
      validationInfoHash E m.result.outgoingMoveStateUpdateProgram r.state.stateToUpdate := by
  obtain ⟨-, hstate, hprogram, hmove⟩ := m.data_spec
  rw [createdCoin, afterMove_infohashB, OnChainRefereeMoveData.solution, hstate, hprogram, hmove]
  simp [MyTurnReferee.moveDetails, h, ValidationInfoHash.isSome]

theorem createdCoin_maxMoveSize (m : MadeMove E r) :
    m.createdCoin.maxMoveSize = canonicalAtomFromUsize m.result.maxMoveSize := by
  obtain ⟨-, -, -, hmove⟩ := m.data_spec
  rw [createdCoin, afterMove_maxMoveSize, OnChainRefereeMoveData.solution, hmove]
  rfl

end MadeMove

/-- Some slash solution that opens INFOHASH_A is accepted on the coin. -/
def Slashable (E : Env) (coin : RefereeArgs) : Prop :=
  ∃ state program evidence ph conds, program.isPair ∧
    infohash E.sha256 (shatree E.sha256 program) state = coin.infohashA ∧
    refereePuzzle E.sha256 E.run coin (slashSolution state program evidence ph) = some conds

/-- The validator that the spent coin commits to lets the move through, with the next validator
and the size that the handler declared. -/
structure LetsThrough {r : MyTurnReferee} (m : MadeMove E r) (validator state newState : Clvm)
    (maxMoveSize : Bytes) : Prop where
  commits : m.spentCoin.infohashB = infohash E.sha256 (shatree E.sha256 validator) state
  declared : m.result.incomingMoveStateUpdateProgramHash =
    shatree E.sha256 m.result.incomingMoveStateUpdateProgram.program
  size : intOfBytes maxMoveSize = m.result.maxMoveSize
  answers : ∃ ph, E.run validator (validatorEnv (shatree E.sha256 validator) m.createdCoin
      (slashSolution state validator .nil ph)) =
    some (answer m.result.incomingMoveStateUpdateProgramHash newState maxMoveSize .nil)
  only : ∀ evidence ph result, E.run validator (validatorEnv (shatree E.sha256 validator)
      m.createdCoin (slashSolution state validator evidence ph)) = some result →
    result = answer m.result.incomingMoveStateUpdateProgramHash newState maxMoveSize .nil

section Unslashable

variable {r : MyTurnReferee} {m : MadeMove E r} {validator state newState : Clvm}
  {maxMoveSize : Bytes}

theorem LetsThrough.infohashA (h : LetsThrough m validator state newState maxMoveSize) :
    m.createdCoin.infohashA = infohash E.sha256 (shatree E.sha256 validator) state := by
  rw [MadeMove.createdCoin, afterMove_infohashA, h.commits]

/-- A move whose coin does not agree with the validator's answer can be slashed. -/
theorem LetsThrough.slashable (h : LetsThrough m validator state newState maxMoveSize)
    (hpair : validator.isPair) (hmis : ¬ Aligned E.sha256 m.createdCoin
      m.result.incomingMoveStateUpdateProgramHash newState maxMoveSize) :
    Slashable E m.createdCoin := by
  obtain ⟨ph, hrun⟩ := h.answers
  refine ⟨state, validator, .nil, ph, .list (payoutConditions m.createdCoin ph), hpair,
    h.infohashA.symm, ?_⟩
  rw [refereePuzzle_slash hpair, slashBranch_slashSolution, if_pos h.infohashA, hrun,
    Option.bind_some, slashConditions_answer, if_neg hmis]

theorem LetsThrough.slashable_iff (h : LetsThrough m validator state newState maxMoveSize)
    (hh : CollisionFree E.sha256) :
    Slashable E m.createdCoin ↔ validator.isPair ∧
      ¬ Aligned E.sha256 m.createdCoin m.result.incomingMoveStateUpdateProgramHash newState
        maxMoveSize := by
  constructor
  · rintro ⟨state', program, evidence, ph, conds, hpair, hopen, hpays⟩
    obtain ⟨rfl, rfl⟩ := infohash_injective hh (hopen.trans h.infohashA)
    refine ⟨hpair, fun haligned => ?_⟩
    rw [refereePuzzle_slash hpair, slashBranch_slashSolution, if_pos h.infohashA,
      Option.bind_eq_some_iff] at hpays
    obtain ⟨result, hrun, hcond⟩ := hpays
    rw [h.only evidence ph result hrun, slashConditions_answer, if_pos haligned, if_pos rfl] at hcond
    cases hcond
  · rintro ⟨hpair, hmis⟩
    exact h.slashable hpair hmis

/-- An honest move that goes on is safe, and commits to the next validator and state, exactly if
the validator and the state do not change with it and the validator writes the size canonically. -/
theorem honest_move_unslashable_iff (hh : CollisionFree E.sha256) (hhonest : r.enableCheating = none)
    (hgoes : m.result.waitingHandler.isSome)
    (h : LetsThrough m validator state newState maxMoveSize) :
    (¬ Slashable E m.createdCoin ∧ m.createdCoin.infohashB =
        infohash E.sha256 m.result.incomingMoveStateUpdateProgramHash newState) ↔
      m.result.incomingMoveStateUpdateProgram = m.result.outgoingMoveStateUpdateProgram ∧
        newState = r.state.stateToUpdate ∧
        (validator.isPair → maxMoveSize = canonicalAtomFromUsize m.result.maxMoveSize) := by
  obtain ⟨hout, hin⟩ := handlerResult_hashes hhonest m.result_eq
  have hne : m.result.incomingMoveStateUpdateProgramHash ≠ [] := by
    rw [h.declared]
    cases m.result.incomingMoveStateUpdateProgram.program <;> exact hh.ne_nil _
  -- the two commitments agree exactly if they are to the same program and state
  have hB : m.createdCoin.infohashB =
      infohash E.sha256 m.result.incomingMoveStateUpdateProgramHash newState ↔
      m.result.incomingMoveStateUpdateProgram = m.result.outgoingMoveStateUpdateProgram ∧
        newState = r.state.stateToUpdate := by
    rw [m.createdCoin_infohashB hgoes, h.declared, validationInfoHash, hout]
    constructor
    · intro heq
      obtain ⟨hp, hs⟩ := infohash_injective hh heq
      refine ⟨?_, hs.symm⟩
      rw [hin, ← hp]
    · rintro ⟨hp, rfl⟩
      rw [hp]
      rfl
  rw [h.slashable_iff hh, Aligned, resultInfohash, if_neg hne, m.createdCoin_maxMoveSize, hB]
  constructor
  · rintro ⟨hsafe, hp, hs⟩
    refine ⟨hp, hs, fun hpair => ?_⟩
    by_contra hsize
    exact hsafe ⟨hpair, fun haligned => hsize haligned.2⟩
  · rintro ⟨hp, hs, hsize⟩
    refine ⟨?_, hp, hs⟩
    rintro ⟨hpair, hmis⟩
    exact hmis ⟨(hB.mpr ⟨hp, hs⟩).symm, hsize hpair⟩

end Unslashable

/-! A game that stays where it is: one validator, which returns the state it is given. -/

namespace Steady

def validator : Clvm := .pair (.atom (List.replicate 23 7)) .nil

def handler : Clvm := .list [.nat 1, .nat 2]

def run : Run := fun program env =>
  if program = validator then
    (env.nth 2).map fun state => answer (shatree frame validator) state (bytesOfNat 5) .nil
  else if program = handler then
    some (.list [.atom [0x73], .atom [9], validator, .atom (shatree frame validator), validator,
      .atom (shatree frame validator), .nat 5, .nat 1, .nat 1])
  else none

def env : Env where
  sha256 := frame
  run := run
  keyBytes pk := bytesOfNat pk.sum

def start : GameStartInfo where
  amount := 2
  gameHandler := .myTurnHandler handler
  myContributionThisGame := 1
  theirContributionThisGame := 1
  initialValidationProgram := StateUpdateProgram.new env validator
  initialState := .nat 3
  initialMove := []
  initialMaxMoveSize := 5
  initialMoverShare := 0
  gameId := 1
  timeout := 15

def parties : RefereeParties where
  refereeCoinPuzzleHash := [1]
  myIdentity := ⟨1⟩
  theirPubkey := publicKey 2
  theirRewardPuzzleHash := [2]
  theirRewardPayoutSignature := sign 2 (rewardPayoutMessage [2])
  rewardPuzzleHash := [3]
  nonce := 1

def referee : MyTurnReferee where
  fixed := initialFixedContext start parties
  finished := false
  enableCheating := none
  state := .initial (.nat 3) (initialPuzzleArgs env start parties) (.myTurnHandler handler)
  stateNumber := 0

def result : MyTurnResult where
  name := [0x73]
  moveBytes := [9]
  outgoingMoveStateUpdateProgram := StateUpdateProgram.new env validator
  outgoingMoveStateUpdateProgramHash := shatree frame validator
  incomingMoveStateUpdateProgram := StateUpdateProgram.new env validator
  incomingMoveStateUpdateProgramHash := shatree frame validator
  maxMoveSize := 5
  moverShare := 1
  waitingHandler := some (.theirTurnHandler (.nat 1))
  messageParser := none

theorem handlerResult_eq :
    referee.handlerResult env (.myTurnHandler handler) .nil [] = .ok result := by
  decide +kernel

theorem stateAfterMove_eq : referee.stateAfterMove env result = .ok (.nat 3) := by
  decide +kernel

def move : MadeMove env referee := .ofResult rfl handlerResult_eq (by decide) stateAfterMove_eq

theorem move_letsThrough : LetsThrough move validator (.nat 3) (.nat 3) (bytesOfNat 5) where
  commits := rfl
  declared := rfl
  size := rfl
  answers := ⟨[], rfl⟩
  only := by
    intro evidence ph result hrun
    exact (Option.some.inj hrun).symm

end Steady

theorem honest_move_unslashable_steady :
    ¬ Slashable Steady.env Steady.move.createdCoin ∧ Steady.move.createdCoin.infohashB =
      infohash frame (shatree frame Steady.validator) (.nat 3) :=
  (honest_move_unslashable_iff frame_collisionFree rfl rfl Steady.move_letsThrough).mpr
    ⟨rfl, rfl, fun _ => rfl⟩

/-! Space poker: Alice's opening commits to the validator of the opening itself. -/

namespace Spacepoker

def aliceStart : GameStartInfo := gameStart Sha256.sha256 programs 100 10 true

def alice : MyTurnReferee where
  fixed := initialFixedContext aliceStart (seats 1 2)
  finished := false
  enableCheating := none
  state := .initial (.nat 10) (initialPuzzleArgs table aliceStart (seats 1 2))
    (.myTurnHandler programs.aliceCommitA)
  stateNumber := 0

theorem alice_new : MyTurnReferee.new table aliceStart (seats 1 2) 0 =
    .ok (alice, curryRefereePuzzleHash table (seats 1 2).refereeCoinPuzzleHash
      (initialPuzzleArgs table aliceStart (seats 1 2))) := by
  rw [MyTurnReferee.new, refereeInitialSetup_eq_ok]
  rfl

def aliceChain : List Bytes := buildImageChain Sha256.sha256 (List.replicate 16 5)

def tip : Bytes := aliceChain.getLast (by simp [aliceChain, buildImageChain])

theorem tip_length : tip.length = 32 := Sha256.sha256_length _

def opening : MyTurnResult where
  name := aliceCommitALabel
  moveBytes := tip
  outgoingMoveStateUpdateProgram := StateUpdateProgram.new table programs.valCommitA
  outgoingMoveStateUpdateProgramHash := shatree Sha256.sha256 programs.valCommitA
  incomingMoveStateUpdateProgram := StateUpdateProgram.new table programs.valCommitB
  incomingMoveStateUpdateProgramHash := shatree Sha256.sha256 programs.valCommitB
  maxMoveSize := 32
  moverShare := 100
  waitingHandler := some (.theirTurnHandler
    (curry programs.aliceHandlerCommitB (.list (aliceChain.map .atom))))
  messageParser := none

theorem alice_opening : alice.handlerResult table (.myTurnHandler programs.aliceCommitA) .nil
    (List.replicate 32 5) = .ok opening := by
  have hhash : ∀ v, hashFromSlice (shatree Sha256.sha256 v) = .ok (shatree Sha256.sha256 v) := by
    intro v
    have hlen : (shatree Sha256.sha256 v).length = 32 := by
      cases v <;> exact Sha256.sha256_length _
    rw [hashFromSlice, if_neg (List.ne_nil_of_length_pos (by omega)), if_neg (by omega)]
  have hrun : table.run programs.aliceCommitA (.list [.nil, .nat 200, .nat 10, .nat 0,
      .atom (List.replicate 32 5)]) = some (.list [.atom aliceCommitALabel, .atom tip,
        programs.valCommitA, .atom (shatree Sha256.sha256 programs.valCommitA),
        programs.valCommitB, .atom (shatree Sha256.sha256 programs.valCommitB), .nat 32, .nat 100,
        curry programs.aliceHandlerCommitB (.list (aliceChain.map .atom))]) := by
    rfl
  have hcall : alice.handlerResult table (.myTurnHandler programs.aliceCommitA) .nil
      (List.replicate 32 5) = orError (table.run programs.aliceCommitA (.list [.nil, .nat 200,
        .nat 10, .nat 0, .atom (List.replicate 32 5)])) .clvmErr >>= parseMyTurnResult table := rfl
  have hlabel : validUtf8 aliceCommitALabel = true := by decide
  rw [hcall, hrun]
  simp only [orError, ok_bind, parseMyTurnResult, Clvm.properList_list, Clvm.bytes_atom, hlabel,
    Clvm.nat, Option.bind_some, hhash]
  rfl

def openedState : Clvm := .list [.nat 10, .atom tip]

/-- The validator of the opening lets every tip of 32 bytes with half of the amount through. -/
theorem valCommitA_lets_through {a : RefereeArgs} (hmove : a.move = tip)
    (hshare : a.moverShare = bytesOfNat 100) (hamount : a.amount = bytesOfNat 200)
    (modHash : Bytes) (evidence tail : Clvm) :
    table.run programs.valCommitA (validatorEnv modHash a
      (.pair (.nat 10) (.pair programs.valCommitA (.pair evidence tail)))) =
      some (answer (shatree Sha256.sha256 programs.valCommitB) openedState (bytesOfNat 32) .nil) := by
  have hrun := Programs.runs_valCommitA Sha256.sha256 programs modHash a (.nat 10)
    programs.valCommitA evidence tail
  have htable : table.run = programs.run Sha256.sha256 := rfl
  rw [htable, hrun, commitAValidator, if_pos ⟨by rw [hmove, tip_length], by rw [hshare, hamount]; rfl⟩, hmove]
  rfl

theorem alice_stateAfterMove : alice.stateAfterMove table opening = .ok openedState := by
  have hrun : table.run (alice.moveArgs table opening).validationProgram.program
      (validatorEnv (alice.moveArgs table opening).validationProgram.hash
        ((alice.moveArgs table opening).coin table).swap
        (.list [.nat 10, (alice.moveArgs table opening).validationProgram.program, .nil])) =
      some (answer (shatree Sha256.sha256 programs.valCommitB) openedState (bytesOfNat 32) .nil) :=
    valCommitA_lets_through rfl rfl rfl _ .nil .nil
  have hraw : MyTurnReferee.runValidatorForMyMoveRaw table (alice.moveArgs table opening) (.nat 10)
      .nil = .ok (some openedState) := by
    rw [MyTurnReferee.runValidatorForMyMoveRaw, runInternalStateUpdate_swap, hrun]
    exact parseValidatorResult_answer _ _ _
  have hgoes : opening.waitingHandler.isSome = true := rfl
  have hstate : alice.state.stateToUpdate = .nat 10 := rfl
  rw [MyTurnReferee.stateAfterMove, if_pos hgoes, MyTurnReferee.runValidatorForMyMove, hstate, hraw]

def aliceMove : MadeMove table alice :=
  .ofResult rfl alice_opening tip_length.le alice_stateAfterMove

theorem aliceMove_letsThrough :
    LetsThrough aliceMove programs.valCommitA (.nat 10) openedState (bytesOfNat 32) where
  commits := rfl
  declared := rfl
  size := rfl
  answers := ⟨[], valCommitA_lets_through rfl rfl rfl _ _ _⟩
  only := by
    intro evidence ph result hrun
    exact Option.some.inj (hrun.symm.trans (valCommitA_lets_through rfl rfl rfl _ _ _))

/-- Bob can slash Alice's honest opening. -/
theorem honest_opening_slashable :
    (∃ ph, MyTurnReferee.new table aliceStart (seats 1 2) 0 = .ok (alice, ph)) ∧
      alice.enableCheating = none ∧ aliceMove.result.waitingHandler.isSome ∧
      LetsThrough aliceMove programs.valCommitA (.nat 10) openedState (bytesOfNat 32) ∧
      Slashable table aliceMove.createdCoin ∧ aliceMove.createdCoin.infohashB ≠
        infohash Sha256.sha256 aliceMove.result.incomingMoveStateUpdateProgramHash openedState := by
  have hB : aliceMove.createdCoin.infohashB ≠
      infohash Sha256.sha256 aliceMove.result.incomingMoveStateUpdateProgramHash openedState := by
    decide +kernel
  refine ⟨⟨_, alice_new⟩, rfl, rfl, aliceMove_letsThrough, ?_, hB⟩
  apply aliceMove_letsThrough.slashable rfl
  rintro ⟨hresult, -⟩
  apply hB
  have hne : aliceMove.result.incomingMoveStateUpdateProgramHash ≠ [] := by
    apply List.ne_nil_of_length_pos
    rw [show aliceMove.result.incomingMoveStateUpdateProgramHash.length = 32 from
      Sha256.sha256_length _]
    omega
  rw [resultInfohash, if_neg hne] at hresult
  exact hresult.symm

end Spacepoker

end ChiaGaming
