import ChiaGaming.Referee.Commitments

namespace ChiaGaming

variable {E : Env}

/-- Our move goes on with the validator and the state that it was judged by. -/
def KeepsStep (E : Env) (r : MyTurnReferee) (readableMove : Clvm) (newEntropy : Hash) : Prop :=
  ∀ handler result newState, r.state.gameHandler = some handler →
    r.handlerResult E handler readableMove newEntropy = .ok result →
    result.waitingHandler.isSome → r.stateAfterMove E result = .ok newState →
    result.incomingMoveStateUpdateProgram = result.outgoingMoveStateUpdateProgram ∧
      newState = r.state.stateToUpdate

/-- The initial validator is declared with its tree hash, and the amount is a 64-bit number. -/
structure GameStartInfo.WellFormed (E : Env) (g : GameStartInfo) : Prop where
  declared : g.initialValidationProgram.hash =
    shatree E.sha256 g.initialValidationProgram.program
  amount_lt : g.amount < 2 ^ 64

/-- The referees that a run of any length arrives at, if every move of ours keeps step.  Their
moves come over the wire or from the chain, and nothing is asked of them. -/
inductive SteadyReach (E : Env) : Referee → Prop
  | new {g p n r ph} : g.WellFormed E → Referee.new E g p n = .ok (r, ph) → SteadyReach E r
  | cheating {r makeMove moverShare} : SteadyReach E (.myTurn r) →
      SteadyReach E (.myTurn (r.setCheating makeMove moverShare))
  | mine {r readableMove newEntropy n next wire} : SteadyReach E (.myTurn r) →
      KeepsStep E r readableMove newEntropy →
      r.myTurnMakeMove E readableMove newEntropy n = .ok (next, wire) → SteadyReach E next
  | theirs {t details n next result} : SteadyReach E (.theirTurn t) →
      t.theirTurnMoveOffChain E details n = .ok (some next, result) →
      SteadyReach E (.myTurn next)
  | moved {t coin conditions n solution next result} : SteadyReach E (.theirTurn t) →
      t.theirTurnCoinSpent E coin conditions n solution = .ok (some next, result) →
      SteadyReach E next

/-- The parts of the arguments that never change. -/
structure RefereePuzzleArgs.Matches (args : RefereePuzzleArgs) (fixed : RefereeFixedContext) :
    Prop where
  timeout : args.timeout = fixed.timeout
  amount : args.amount = fixed.amount
  nonce : args.nonce = fixed.nonce
  puzzleHash : args.refereeCoinPuzzleHash = fixed.refereeCoinPuzzleHash
  amount_lt : fixed.amount < 2 ^ 64

structure MyTurnReferee.Inv (E : Env) (r : MyTurnReferee) : Prop where
  mover : r.spendThisCoin.moverPubkey = r.fixed.myIdentity.publicKey
  waiter : r.spendThisCoin.waiterPubkey = r.fixed.theirRefereePubkey
  fixed : r.spendThisCoin.Matches r.fixed
  declared : r.spendThisCoin.validationProgram.hash =
    shatree E.sha256 r.spendThisCoin.validationProgram.program

structure TheirTurnReferee.Inv (E : Env) (t : TheirTurnReferee) : Prop where
  mover : t.spendThisCoin.moverPubkey = t.fixed.theirRefereePubkey
  waiter : t.spendThisCoin.waiterPubkey = t.fixed.myIdentity.publicKey
  fixed : t.spendThisCoin.Matches t.fixed
  size : t.spendThisCoin.gameMove.basic.maxMoveSizeRaw =
    canonicalAtomFromUsize t.spendThisCoin.gameMove.basic.maxMoveSize
  finished : t.state.gameHandler = none → t.spendThisCoin.gameMove.validationInfoHash = .none
  commits : t.state.gameHandler ≠ none → t.spendThisCoin.gameMove.validationInfoHash =
    .hash (validationInfoHash E t.state.slashValidationProgram t.state.slashState)
  inStep : t.state.gameHandler ≠ none →
    t.state.slashValidationProgram = t.state.theirTurnValidationProgram ∧
      t.state.slashState = t.state.currentState
  declared : t.state.gameHandler ≠ none → t.state.theirTurnValidationProgram.hash =
    shatree E.sha256 t.state.theirTurnValidationProgram.program

def Referee.Inv (E : Env) : Referee → Prop
  | myTurn r => r.Inv E
  | theirTurn t => t.Inv E

theorem new_inv {g : GameStartInfo} {p : RefereeParties} {n : ℕ} {r : Referee} {ph : Hash}
    (hg : g.WellFormed E) (h : Referee.new E g p n = .ok (r, ph)) : r.Inv E := by
  rw [Referee.new] at h
  cases hturn : g.gameHandler.isMyTurn with
  | true =>
    rw [if_pos hturn, MyTurnReferee.new, refereeInitialSetup_eq_ok] at h
    obtain ⟨rfl, rfl⟩ := Prod.mk.inj (Except.ok.inj h)
    exact ⟨by simp [MyTurnReferee.spendThisCoin, MyTurnRefereeGameState.spendThisCoin,
        initialPuzzleArgs, RefereePuzzleArgs.new, hturn],
      by simp [MyTurnReferee.spendThisCoin, MyTurnRefereeGameState.spendThisCoin,
        initialPuzzleArgs, RefereePuzzleArgs.new, hturn],
      ⟨rfl, rfl, rfl, rfl, hg.amount_lt⟩, hg.declared⟩
  | false =>
    rw [if_neg (by simp [hturn]), TheirTurnReferee.new, refereeInitialSetup_eq_ok] at h
    obtain ⟨rfl, rfl⟩ := Prod.mk.inj (Except.ok.inj h)
    exact ⟨by simp [TheirTurnReferee.spendThisCoin, initialPuzzleArgs, RefereePuzzleArgs.new, hturn],
      by simp [TheirTurnReferee.spendThisCoin, initialPuzzleArgs, RefereePuzzleArgs.new, hturn],
      ⟨rfl, rfl, rfl, rfl, hg.amount_lt⟩, rfl, fun hnone => by simp at hnone, fun _ => rfl, fun _ => ⟨rfl, rfl⟩,
      fun _ => hg.declared⟩

/-- Whatever a handler or a cheat declares, its outgoing program carries its tree hash. -/
theorem MyTurnReferee.Inv.outgoing_hash {r : MyTurnReferee} (hinv : r.Inv E) {handler : GameHandler}
    {readableMove : Clvm} {newEntropy : Hash} {result : MyTurnResult}
    (h : r.handlerResult E handler readableMove newEntropy = .ok result) :
    result.outgoingMoveStateUpdateProgram.hash =
      shatree E.sha256 result.outgoingMoveStateUpdateProgram.program := by
  cases hc : r.enableCheating with
  | none =>
    rw [(handlerResult_hashes hc h).1]
    rfl
  | some cheat =>
    rw [MyTurnReferee.handlerResult, hc] at h
    rw [← Except.ok.inj h]
    exact hinv.declared

theorem mine_inv {r : MyTurnReferee} {readableMove : Clvm} {newEntropy : Hash} {n : ℕ}
    {next : Referee} {wire : GameMoveWireData} (hinv : r.Inv E)
    (hkeeps : KeepsStep E r readableMove newEntropy)
    (h : r.myTurnMakeMove E readableMove newEntropy n = .ok (next, wire)) : next.Inv E := by
  obtain ⟨handler, result, newState, hhandler, hresult, hstate, rfl, -⟩ := myTurnMakeMove_eq_ok h
  have hwaits : result.waitingHandler ≠ none → result.waitingHandler.isSome := fun hne =>
    Option.isSome_iff_ne_none.mpr hne
  refine ⟨rfl, rfl, ⟨hinv.fixed.timeout, hinv.fixed.amount, hinv.fixed.nonce,
    hinv.fixed.puzzleHash, hinv.fixed.amount_lt⟩, rfl, ?_, ?_, ?_, ?_⟩
  · intro hnone
    have hnone' : result.waitingHandler = none := hnone
    simp [TheirTurnReferee.spendThisCoin, MyTurnReferee.acceptThisMove, MyTurnReferee.moveArgs,
      MyTurnReferee.moveDetails, hnone']
  · intro hne
    have hsome := hwaits hne
    simp [TheirTurnReferee.spendThisCoin, MyTurnReferee.acceptThisMove, MyTurnReferee.moveArgs,
      MyTurnReferee.moveDetails, hsome]
  · intro hne
    obtain ⟨hprogram, hstate'⟩ := hkeeps handler result newState hhandler hresult (hwaits hne) hstate
    exact ⟨hprogram.symm, hstate'.symm⟩
  · intro hne
    obtain ⟨hprogram, -⟩ := hkeeps handler result newState hhandler hresult (hwaits hne) hstate
    have hhash := hinv.outgoing_hash hresult
    rw [← hprogram] at hhash
    exact hhash

/-- What an accepted move of theirs consists of. -/
theorem theirTurnMoveOffChain_eq_some {t : TheirTurnReferee} {details : GameMoveDetails} {n : ℕ}
    {next : MyTurnReferee} {move : TheirTurnMoveResult}
    (h : t.theirTurnMoveOffChain E details n = .ok (some next, move)) :
    ∃ handler newState result, t.state.gameHandler = some handler ∧
      t.stateAfterTheirMove E details = .ok (some newState) ∧
      t.callHandler E handler details newState = .ok result ∧
      t.findSlash E details result.slashEvidence = none ∧
      next = t.acceptTheirMove result.nextHandler newState t.spendThisCoin (t.theirArgs details) n ∧
      move = t.finishTheirTurn E t.spendThisCoin result := by
  rw [TheirTurnReferee.theirTurnMoveOffChain] at h
  cases hh : t.state.gameHandler with
  | none => simp [hh] at h
  | some handler =>
    simp only [hh, bind_eq_ok] at h
    obtain ⟨state, hstate, h⟩ := h
    cases state with
    | none => simp at h
    | some newState =>
      simp only [bind_eq_ok] at h
      obtain ⟨result, hresult, h⟩ := h
      cases hslash : t.findSlash E details result.slashEvidence with
      | some evidence => simp [hslash] at h
      | none =>
        simp only [hslash, Except.ok.injEq, Prod.mk.injEq, Option.some.injEq] at h
        exact ⟨handler, newState, result, rfl, hstate, hresult, hslash, h.1.symm, h.2.symm⟩

theorem theirs_inv {t : TheirTurnReferee} {details : GameMoveDetails} {n : ℕ} {next : MyTurnReferee}
    {move : TheirTurnMoveResult} (hinv : t.Inv E)
    (h : t.theirTurnMoveOffChain E details n = .ok (some next, move)) : next.Inv E := by
  obtain ⟨handler, newState, result, hh, -, -, -, rfl, -⟩ := theirTurnMoveOffChain_eq_some h
  exact ⟨rfl, rfl, ⟨hinv.fixed.timeout, hinv.fixed.amount, hinv.fixed.nonce,
    hinv.fixed.puzzleHash, hinv.fixed.amount_lt⟩, hinv.declared (by simp [hh])⟩

theorem adjust_inv {r : MyTurnReferee} (hinv : r.Inv E) : (TheirTurnReferee.adjust r).Inv E := by
  rw [TheirTurnReferee.adjust]
  obtain ⟨hm, hw, hf, hd⟩ := hinv
  split
  · exact ⟨hm, hw, hf, hd⟩
  · rename_i hstate
    rw [MyTurnReferee.spendThisCoin, hstate] at hm hw hf hd
    exact ⟨hm, hw, hf, hd⟩

/-- A move seen on chain that does not end in a slash was accepted as off chain. -/
theorem theirTurnCoinSpent_eq_some {t : TheirTurnReferee} {coin : CoinString}
    {conditions : List CoinCondition} {n : ℕ} {solution : ParsedRefereeSolution} {next : Referee}
    {result : TheirTurnCoinSpentResult}
    (h : t.theirTurnCoinSpent E coin conditions n solution = .ok (some next, result)) :
    ∃ details next' move, t.theirTurnMoveOffChain E details n = .ok (some next', move) ∧
      next = .myTurn (TheirTurnReferee.adjust next') := by
  cases solution with
  | timeout => cases h
  | slash => cases h
  | move m =>
    simp only [TheirTurnReferee.theirTurnCoinSpent, bind_eq_ok] at h
    obtain ⟨details, -, ⟨newSelf, move⟩, hmove, h⟩ := h
    simp only at h
    cases hs : move.slash with
    | some evidence =>
      simp only [hs] at h
      split at h
      · cases h
      · split at h
        · cases h
        · simp at h
    | none =>
      cases newSelf with
      | none => simp [hs] at h
      | some next' =>
        simp only [hs, Except.ok.injEq, Prod.mk.injEq, Option.some.injEq] at h
        exact ⟨details, next', move, hmove, h.1.symm⟩

theorem SteadyReach.inv {r : Referee} (h : SteadyReach E r) : r.Inv E := by
  induction h with
  | new hg hnew => exact new_inv hg hnew
  | cheating _ ih => exact ⟨ih.mover, ih.waiter, ih.fixed, ih.declared⟩
  | mine _ hkeeps hmove ih => exact mine_inv ih hkeeps hmove
  | theirs _ hmove ih => exact theirs_inv ih hmove
  | moved _ hspent ih =>
    obtain ⟨details, next', move, hmove, rfl⟩ := theirTurnCoinSpent_eq_some hspent
    exact adjust_inv (theirs_inv ih hmove)

end ChiaGaming
