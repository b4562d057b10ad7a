import ChiaGaming.Referee.Tracking

namespace ChiaGaming

/-! Our own spends of a referee coin, before the referee puzzle. -/

/-- The key and the message of a condition that asks for a signature whatever coin it is on. -/
def aggSigUnsafe (cond : Clvm) : Option (Bytes × Bytes) :=
  match cond.properList with
  | some [code, .atom pk, .atom message] =>
    if code = condAggSigUnsafe then some (pk, message) else none
  | _ => none

/-- The puzzle hash and the amount of a condition that creates a coin. -/
def createdCoin (cond : Clvm) : Option (Bytes × ℤ) :=
  match cond.properList with
  | some [code, .atom ph, .atom amount] =>
    if code = condCreateCoin then some (ph, intOfBytes amount) else none
  | _ => none

section Timeout

variable {a : RefereeArgs} {moverPh waiterPh : Bytes}

theorem createdCoin_createCoin (ph amount : Bytes) :
    createdCoin (.list [condCreateCoin, .atom ph, .atom amount]) = some (ph, intOfBytes amount) := by
  simp [createdCoin, Clvm.properList]

theorem createdCoin_aggSigUnsafe (pk message : Bytes) :
    createdCoin (.list [condAggSigUnsafe, .atom pk, .atom message]) = none := by
  have h : condAggSigUnsafe ≠ condCreateCoin := by decide
  simp [createdCoin, Clvm.properList, h]

theorem aggSigUnsafe_aggSigUnsafe (pk message : Bytes) :
    aggSigUnsafe (.list [condAggSigUnsafe, .atom pk, .atom message]) = some (pk, message) := by
  simp [aggSigUnsafe, Clvm.properList]

theorem aggSigUnsafe_createCoin (ph amount : Bytes) :
    aggSigUnsafe (.list [condCreateCoin, .atom ph, .atom amount]) = none := by
  have h : condCreateCoin ≠ condAggSigUnsafe := by decide
  simp [aggSigUnsafe, Clvm.properList, h]

/-- A timeout pays each player who has a share. -/
theorem createdCoin_timeoutConditions :
    (timeoutConditions a moverPh waiterPh).filterMap createdCoin =
      (if a.moverShare = [] then [] else [(moverPh, intOfBytes a.moverShare)]) ++
        if intOfBytes a.amount - intOfBytes a.moverShare = 0 then []
        else [(waiterPh, intOfBytes a.amount - intOfBytes a.moverShare)] := by
  have hremark : createdCoin (.list [.nat 1]) = none := rfl
  have hassert : createdCoin (.list [condAssertHeightRelative, .atom a.timeout]) = none := rfl
  rw [timeoutConditions, List.filterMap_append]
  congr 1
  · by_cases hs : a.moverShare = []
    · simp only [if_pos hs, List.filterMap_cons, List.filterMap_nil, hassert, hremark]
    · simp only [if_neg hs, List.filterMap_cons, List.filterMap_nil, hassert,
        createdCoin_createCoin, createdCoin_aggSigUnsafe]
  · by_cases hd : intOfBytes a.amount - intOfBytes a.moverShare = 0
    · simp only [if_pos hd, List.filterMap_nil]
    · simp only [if_neg hd, List.filterMap_cons, List.filterMap_nil, Clvm.int,
        createdCoin_createCoin, createdCoin_aggSigUnsafe, intOfBytes_bytesOfInt]

/-- A timeout asks each player who has a share for a signature on its puzzle hash. -/
theorem aggSigUnsafe_timeoutConditions :
    (timeoutConditions a moverPh waiterPh).filterMap aggSigUnsafe =
      (if a.moverShare = [] then [] else [(a.moverPubkey, rewardPayoutMessage moverPh)]) ++
        if intOfBytes a.amount - intOfBytes a.moverShare = 0 then []
        else [(a.waiterPubkey, rewardPayoutMessage waiterPh)] := by
  have hremark : aggSigUnsafe (.list [.nat 1]) = none := rfl
  have hassert : aggSigUnsafe (.list [condAssertHeightRelative, .atom a.timeout]) = none := rfl
  rw [timeoutConditions, List.filterMap_append]
  congr 1
  · by_cases hs : a.moverShare = []
    · simp only [if_pos hs, List.filterMap_cons, List.filterMap_nil, hassert, hremark]
    · simp only [if_neg hs, List.filterMap_cons, List.filterMap_nil, hassert,
        aggSigUnsafe_createCoin, aggSigUnsafe_aggSigUnsafe, rewardPayoutMessage]
  · by_cases hd : intOfBytes a.amount - intOfBytes a.moverShare = 0
    · simp only [if_pos hd, List.filterMap_nil]
    · simp only [if_neg hd, List.filterMap_cons, List.filterMap_nil, Clvm.int,
        aggSigUnsafe_createCoin, aggSigUnsafe_aggSigUnsafe, rewardPayoutMessage]

end Timeout

/-- The reward puzzle hashes of the coin's mover and waiter. -/
def RefereeParties.Payees (p : RefereeParties) (args : RefereePuzzleArgs)
    (moverPh waiterPh : Hash) : Prop :=
  args.moverPubkey = p.myIdentity.publicKey ∧ args.waiterPubkey = p.theirPubkey ∧
      moverPh = p.rewardPuzzleHash ∧ waiterPh = p.theirRewardPuzzleHash ∨
    args.moverPubkey = p.theirPubkey ∧ args.waiterPubkey = p.myIdentity.publicKey ∧
      moverPh = p.theirRewardPuzzleHash ∧ waiterPh = p.rewardPuzzleHash

/-- The spend is a timeout of the coin: the puzzle accepts it, pays the mover's share and the rest
where they are not zero, and asks for the signatures that it carries. -/
structure TimeoutClaim (E : Env) (p : RefereeParties) (coin : CoinString) (spend : RefereeSpend)
    (moverPh waiterPh : Hash) (conds : List Clvm) (signed : List (PublicKey × Bytes)) : Prop where
  spends : spend.coin = coin
  puzzleHash : (spend.puzzle.coin E).puzzleHash E.sha256 = coin.puzzleHash
  payees : p.Payees spend.puzzle moverPh waiterPh
  accepted : refereePuzzle E.sha256 E.run (spend.puzzle.coin E) spend.solution = some (.list conds)
  pays : conds.filterMap createdCoin =
    (if spend.puzzle.gameMove.basic.moverShare = 0 then []
      else [(moverPh, (spend.puzzle.gameMove.basic.moverShare : ℤ))]) ++
      if spend.puzzle.amount - spend.puzzle.gameMove.basic.moverShare = 0 then []
      else [(waiterPh, (spend.puzzle.amount : ℤ) - spend.puzzle.gameMove.basic.moverShare)]
  asks : conds.filterMap aggSigUnsafe = signed.map fun s => (E.keyBytes s.1, s.2)
  signature : spend.signature = (signed.map fun s => fullSignature s.1 s.2).sum

namespace Referee

variable {E : Env} {p : RefereeParties} {r : Referee}

/-- Whoever's key stands first is the mover; if the players have one key, that is us. -/
theorem roles_of_seat (hfixed : ∃ g, r.fixed = initialFixedContext g p)
    {args : RefereePuzzleArgs} (hseat : Seat r.fixed args) :
    (r.iAmMover args = true ∧ args.moverPubkey = p.myIdentity.publicKey ∧
        args.waiterPubkey = p.theirPubkey) ∨
      (r.iAmMover args = false ∧ args.moverPubkey = p.theirPubkey ∧
        args.waiterPubkey = p.myIdentity.publicKey) := by
  obtain ⟨g, hg⟩ := hfixed
  have hkeys := hseat.keys
  rw [iAmMover]
  rw [hg] at hkeys ⊢
  by_cases hmine : args.moverPubkey = p.myIdentity.publicKey
  · left
    refine ⟨decide_eq_true hmine, hmine, ?_⟩
    rcases hkeys with ⟨-, hw⟩ | ⟨hm, hw⟩
    · exact hw
    · exact hw.trans (hmine.symm.trans hm)
  · right
    refine ⟨decide_eq_false hmine, ?_⟩
    rcases hkeys with ⟨hm, -⟩ | ⟨hm, hw⟩
    · exact absurd hm hmine
    · exact ⟨hm, hw⟩

/-- A claim is signed by the players who have a share, each over its own payout. -/
theorem claim_signed (hfixed : ∃ g, r.fixed = initialFixedContext g p)
    (hsigned : verify p.theirPubkey (rewardPayoutMessage p.theirRewardPuzzleHash)
      p.theirRewardPayoutSignature)
    {args : RefereePuzzleArgs} (hseat : Seat r.fixed args) (moverShare waiterShare : ℕ) :
    p.Payees args (r.moverPh args) (r.waiterPh args) ∧
      (if (if r.iAmMover args then moverShare else waiterShare) > 0 then
          r.fixed.myRewardPayoutSignature else 0) +
        (if (if r.iAmMover args then waiterShare else moverShare) > 0 then
          r.fixed.theirRewardPayoutSignature else 0) =
      (if moverShare = 0 then 0
        else fullSignature args.moverPubkey (rewardPayoutMessage (r.moverPh args))) +
        if waiterShare = 0 then 0
        else fullSignature args.waiterPubkey (rewardPayoutMessage (r.waiterPh args)) := by
  have hroles := roles_of_seat hfixed hseat
  obtain ⟨g, hg⟩ := hfixed
  have hmine : r.fixed.myRewardPayoutSignature =
      fullSignature p.myIdentity.publicKey (rewardPayoutMessage p.rewardPuzzleHash) := by
    rw [hg]
    exact (verify_iff.mp (verify_sign _ _)).2
  have htheirs : r.fixed.theirRewardPayoutSignature =
      fullSignature p.theirPubkey (rewardPayoutMessage p.theirRewardPuzzleHash) := by
    rw [hg]
    exact (verify_iff.mp hsigned).2
  have hshare : ∀ (n : ℕ) (sig : Aggsig), (if n > 0 then sig else 0) = if n = 0 then 0 else sig := by
    intro n sig
    by_cases hn : n = 0
    · rw [if_neg (by omega), if_pos hn]
    · rw [if_pos (by omega), if_neg hn]
  have hours : r.fixed.rewardPuzzleHash = p.rewardPuzzleHash ∧
      r.fixed.theirRewardPuzzleHash = p.theirRewardPuzzleHash := by
    rw [hg]
    exact ⟨rfl, rfl⟩
  rcases hroles with ⟨hiam, hm, hw⟩ | ⟨hiam, hm, hw⟩
  · simp only [moverPh, waiterPh, hiam, if_true, hours]
    refine ⟨.inl ⟨hm, hw, rfl, rfl⟩, ?_⟩
    rw [hshare, hshare, hmine, htheirs, hm, hw]
  · simp only [moverPh, waiterPh, hiam, Bool.false_eq_true, if_false, hours]
    refine ⟨.inr ⟨hm, hw, rfl, rfl⟩, ?_⟩
    rw [hshare, hshare, hmine, htheirs, hm, hw, add_comm]

theorem timeoutArgs_puzzleHash (h : Reach E p r) {coin : CoinString} (hcoin : coin.puzzleHash = r.onChainRefereePuzzleHash E ∨
      coin.puzzleHash = r.outcomeRefereePuzzleHash E) :
    ((r.timeoutArgs E coin).coin E).puzzleHash E.sha256 = coin.puzzleHash := by
  obtain ⟨hspends, honChain⟩ := h.setUp
  rw [timeoutArgs]
  split
  · rename_i hlast
    rw [hlast.1, outcomeRefereePuzzleHash, curryRefereePuzzleHash_eq hspends.puzzleHash]
  · rename_i hnot
    have hph : coin.puzzleHash = r.onChainRefereePuzzleHash E := by
      by_contra hne
      exact hnot ⟨hcoin.resolve_left hne, hne⟩
    rw [hph, onChainRefereePuzzleHash, curryRefereePuzzleHash_eq honChain.puzzleHash]

variable {m : MyTurnReferee} {handler : GameHandler} {readableMove : Clvm} {newEntropy : Hash}
  {result : MyTurnResult} {n : ℕ} {next : Referee} {wire : GameMoveWireData}

/-- The move as a solution of the referee puzzle. -/
def moveSolution (E : Env) (m : MyTurnReferee) (result : MyTurnResult) : MoveSolution where
  newMove := result.moveBytes
  infohashC := (m.moveDetails E result).validationInfoHash.toAtom
  newMoverShare := bytesOfNat result.moverShare
  newMaxMoveSize := canonicalAtomFromUsize result.maxMoveSize

/-- What is kept to repeat the move plays it on the coin before it. -/
theorem moveSpend_of_make (hhandler : m.state.gameHandler = some handler)
    (hresult : m.handlerResult E handler readableMove newEntropy = .ok result)
    (hmake : m.myTurnMakeMove E readableMove newEntropy n = .ok (next, wire)) :
    ∃ d, next.moveSpend = some d ∧ d.beforeArgs = m.spendThisCoin ∧
      d.solution E = moveSolution E m result ∧ next.spendThisCoin = m.moveArgs E result ∧
      next.fixed = m.fixed ∧ next.isMyTurn = false := by
  obtain ⟨handler', result', newState, hhandler', hresult', -, rfl, -⟩ := myTurnMakeMove_eq_ok hmake
  obtain rfl : handler = handler' := Option.some.inj (hhandler.symm.trans hhandler')
  obtain rfl : result = result' := Except.ok.inj (hresult.symm.trans hresult')
  have hinfo : (m.moveDetails E result).validationInfoHash =
        .hash (validationInfoHash E result.outgoingMoveStateUpdateProgram m.state.stateToUpdate) ∨
      (m.moveDetails E result).validationInfoHash = .none := by
    rw [MyTurnReferee.moveDetails]
    by_cases hwaits : result.waitingHandler.isSome = true
    · exact .inl (if_pos hwaits)
    · exact .inr (if_neg hwaits)
  have hatom : (if (m.moveDetails E result).validationInfoHash.isSome then
        validationInfoHash E result.outgoingMoveStateUpdateProgram m.state.stateToUpdate
      else []) = (m.moveDetails E result).validationInfoHash.toAtom := by
    rcases hinfo with h | h
    · rw [h]
      rfl
    · rw [h]
      rfl
  exact ⟨_, rfl, rfl, congrArg (MoveSolution.mk result.moveBytes · (bytesOfNat result.moverShare)
    (canonicalAtomFromUsize result.maxMoveSize)) hatom, rfl, rfl, rfl⟩

/-- The coin that the move creates is the one that the players go on with. -/
theorem afterMove_coin (hreach : Reach E p (.myTurn m)) (result : MyTurnResult) :
    (m.spendThisCoin.coin E).afterMove (moveSolution E m result) =
      (m.moveArgs E result).coin E := by
  obtain ⟨hmover, hwaiter⟩ := hreach.mover
  have hm : m.spendThisCoin.moverPubkey = m.fixed.myIdentity.publicKey := hmover
  have hw : m.spendThisCoin.waiterPubkey = m.fixed.theirRefereePubkey := hwaiter
  simp only [RefereeArgs.afterMove, RefereePuzzleArgs.coin, hm, hw]
  rfl

/-- The solution passes the puzzle's checks if the coin commits to a validator and its own bound
covers the move, and if the share and the size of the move fit. -/
theorem acceptsMove_iff (hreach : Reach E p (.myTurn m))
    (hlength : ∀ b, (E.sha256 b).length = 32) :
    (m.spendThisCoin.coin E).AcceptsMove (moveSolution E m result) ↔
      (m.spendThisCoin.gameMove.validationInfoHash.toAtom ≠ [] ∧
        (result.moveBytes.length : ℤ) ≤
          intOfBytes m.spendThisCoin.gameMove.basic.maxMoveSizeRaw) ∧
      result.moverShare ≤ m.fixed.amount ∧
        (canonicalAtomFromUsize result.maxMoveSize).length ≤ 2 := by
  have hmatches : m.spendThisCoin.amount = m.fixed.amount := hreach.setUp.1.amount
  have hinfo : (moveSolution E m result).infohashC = [] ∨
      (moveSolution E m result).infohashC.length = 32 := by
    simp only [moveSolution, MyTurnReferee.moveDetails]
    split
    · exact .inr (hlength _)
    · exact .inl rfl
  have hnonneg : 0 ≤ intOfBytes (moveSolution E m result).newMoverShare := by
    rw [moveSolution, intOfBytes_bytesOfNat]
    exact Int.natCast_nonneg _
  have hle : intOfBytes (moveSolution E m result).newMoverShare ≤
      intOfBytes (m.spendThisCoin.coin E).amount ↔ result.moverShare ≤ m.fixed.amount := by
    rw [moveSolution, RefereePuzzleArgs.coin, intOfBytes_bytesOfNat, intOfBytes_bytesOfNat, hmatches]
    exact Int.ofNat_le
  constructor
  · rintro ⟨hne, hlen, hsize, hshare, -⟩
    exact ⟨⟨hne, hlen⟩, hle.mp hshare, hsize⟩
  · rintro ⟨⟨hne, hlen⟩, hshare, hsize⟩
    exact ⟨hne, hlen, hsize, hle.mpr hshare, hnonneg, hinfo⟩

end Referee

/-- The spend repeats a move: the puzzle accepts it, asks for the signature that it carries, and
creates the coin of the referee after the move, where the players have changed places and the
commitment has moved on. -/
structure MoveRepeat (E : Env) (p : RefereeParties) (aggSigMeAdditionalData : Hash)
    (next : Referee) (coin : CoinString) (spend : RefereeSpend) : Prop where
  spends : spend.coin = coin
  puzzleHash : (spend.puzzle.coin E).puzzleHash E.sha256 = coin.puzzleHash
  accepted : refereePuzzle E.sha256 E.run (spend.puzzle.coin E) spend.solution = some (.list
    [Clvm.list [condAssertBeforeHeightRelative, .atom (bytesOfNat next.fixed.timeout)],
      Clvm.list [condCreateCoin, .atom (next.outcomeRefereePuzzleHash E),
        .atom (bytesOfNat next.fixed.amount)],
      Clvm.list [condAggSigMe, .atom (E.keyBytes p.myIdentity.publicKey),
        .atom (shatree E.sha256 spend.solution)]])
  signature : spend.signature = sign p.myIdentity.privateKey
    (shatree E.sha256 spend.solution ++ coin.toCoinId E.sha256 ++ aggSigMeAdditionalData)
  mover : next.spendThisCoin.moverPubkey = spend.puzzle.waiterPubkey
  waiter : next.spendThisCoin.waiterPubkey = spend.puzzle.moverPubkey
  commitment : (next.spendThisCoin.coin E).infohashA = (spend.puzzle.coin E).infohashB

namespace Referee

variable {E : Env} {p : RefereeParties} {m : MyTurnReferee} {handler : GameHandler}
  {readableMove : Clvm} {newEntropy : Hash} {result : MyTurnResult} {n : ℕ} {next : Referee}
  {wire : GameMoveWireData}

/-- The spend that repeats a move, if what the move leaves us can be told. -/
theorem getTransactionForMove_of_make (hreach : Reach E p (.myTurn m))
    (hhandler : m.state.gameHandler = some handler)
    (hresult : m.handlerResult E handler readableMove newEntropy = .ok result)
    (hmake : m.myTurnMakeMove E readableMove newEntropy n = .ok (next, wire)) (coin : CoinString)
    (aggSigMeAdditionalData : Hash) :
    next.getTransactionForMove E aggSigMeAdditionalData coin =
      if result.moverShare ≤ m.fixed.amount then .ok {
        coin
        puzzle := m.spendThisCoin
        solution := (moveSolution E m result).toClvm
        signature := sign p.myIdentity.privateKey
          (shatree E.sha256 (moveSolution E m result).toClvm ++ coin.toCoinId E.sha256 ++
            aggSigMeAdditionalData) }
      else .error (.strErr "Amount underflow" [.nat m.fixed.amount, .nat result.moverShare]) := by
  obtain ⟨d, hd, hbefore, hsolution, hnext, hfixed, hturn⟩ :=
    moveSpend_of_make hhandler hresult hmake
  obtain ⟨g, hg⟩ := hreach.seated.fixed
  have hkey : m.fixed.myIdentity = p.myIdentity := congrArg RefereeFixedContext.myIdentity hg
  have hnot : ¬ next.isMyTurn = true := by simp [hturn]
  have hmoved : (m.moveArgs E result).gameMove.basic.moverShare = result.moverShare := rfl
  have hours : next.getOurCurrentShare = amountCheckedSub m.fixed.amount result.moverShare := by
    rw [getOurCurrentShare, if_neg hnot, hnext, hfixed, hmoved]
  rw [getTransactionForMove, hd, hours, amountCheckedSub]
  split_ifs with hshare
  · simp only [orError, ok_bind, hbefore, hsolution, hfixed, hkey]
  · rfl

/-- A move of ours can be repeated on chain exactly if the puzzle takes it. -/
theorem repeats_iff_acceptsMove (hreach : Reach E p (.myTurn m))
    (hhandler : m.state.gameHandler = some handler)
    (hresult : m.handlerResult E handler readableMove newEntropy = .ok result)
    (hmake : m.myTurnMakeMove E readableMove newEntropy n = .ok (next, wire)) {coin : CoinString}
    (hcoin : coin.puzzleHash =
      curryRefereePuzzleHash E m.fixed.refereeCoinPuzzleHash m.spendThisCoin)
    (aggSigMeAdditionalData : Hash) :
    (∃ spend, next.getTransactionForMove E aggSigMeAdditionalData coin = .ok spend ∧
        MoveRepeat E p aggSigMeAdditionalData next coin spend) ↔
      (m.spendThisCoin.coin E).AcceptsMove (moveSolution E m result) := by
  obtain ⟨d, hd, hbefore, hsolution, hnext, hfixed, hturn⟩ :=
    moveSpend_of_make hhandler hresult hmake
  obtain ⟨hconstants, -⟩ := hreach.setUp
  obtain ⟨hmover, hwaiter⟩ := hreach.mover
  obtain ⟨g, hg⟩ := hreach.seated.fixed
  have hkey : m.fixed.myIdentity = p.myIdentity := congrArg RefereeFixedContext.myIdentity hg
  rw [getTransactionForMove_of_make hreach hhandler hresult hmake]
  constructor
  · rintro ⟨spend, hspend, hrepeat⟩
    split_ifs at hspend
    obtain rfl := Except.ok.inj hspend
    have haccepted := hrepeat.accepted
    rw [refereePuzzle_move] at haccepted
    exact (moveBranch_isSome_iff _).mp (Option.isSome_of_mem haccepted)
  · intro haccepts
    have hshare : result.moverShare ≤ m.fixed.amount := by
      obtain ⟨-, -, -, hle, -⟩ := haccepts
      rw [moveSolution, RefereePuzzleArgs.coin, intOfBytes_bytesOfNat, intOfBytes_bytesOfNat] at hle
      exact (Int.ofNat_le.mp hle).trans_eq hconstants.amount
    have hafter := afterMove_coin hreach result
    have houtcome : next.outcomeRefereePuzzleHash E =
        ((m.spendThisCoin.coin E).afterMove (moveSolution E m result)).puzzleHash E.sha256 := by
      rw [outcomeRefereePuzzleHash, hnext, hfixed, hafter]
      exact curryRefereePuzzleHash_eq hconstants.puzzleHash
    refine ⟨_, if_pos hshare, ⟨rfl, ?_, ?_, rfl, ?_, ?_, ?_⟩⟩
    · rw [hcoin]
      exact (curryRefereePuzzleHash_eq hconstants.puzzleHash).symm
    · have htimeout : (m.spendThisCoin.coin E).timeout = bytesOfNat m.fixed.timeout :=
        congrArg bytesOfNat hconstants.timeout
      have hstake : (m.spendThisCoin.coin E).amount = bytesOfNat m.fixed.amount :=
        congrArg bytesOfNat hconstants.amount
      have hmine : (m.spendThisCoin.coin E).moverPubkey = E.keyBytes p.myIdentity.publicKey :=
        congrArg E.keyBytes (hmover.trans (congrArg ChiaIdentity.publicKey hkey))
      rw [refereePuzzle_of_acceptsMove haccepts, moveConditions, houtcome, hfixed, htimeout, hstake,
        hmine]
    · rw [hnext]
      exact hwaiter.symm
    · rw [hnext]
      exact hmover.symm
    · rw [hnext]
      rfl

/-- A move of ours with a share and a size that fit can be repeated on chain exactly if the coin
commits to a validator and its own bound, as the puzzle reads it, covers the move. -/
theorem getTransactionForMove_repeats_iff (hreach : Reach E p (.myTurn m))
    (hlength : ∀ b, (E.sha256 b).length = 32)
    (hhandler : m.state.gameHandler = some handler)
    (hresult : m.handlerResult E handler readableMove newEntropy = .ok result)
    (hmake : m.myTurnMakeMove E readableMove newEntropy n = .ok (next, wire))
    (hshare : result.moverShare ≤ m.fixed.amount)
    (hsize : (canonicalAtomFromUsize result.maxMoveSize).length ≤ 2) {coin : CoinString}
    (hcoin : coin.puzzleHash =
      curryRefereePuzzleHash E m.fixed.refereeCoinPuzzleHash m.spendThisCoin)
    (aggSigMeAdditionalData : Hash) :
    (∃ spend, next.getTransactionForMove E aggSigMeAdditionalData coin = .ok spend ∧
        MoveRepeat E p aggSigMeAdditionalData next coin spend) ↔
      m.spendThisCoin.gameMove.validationInfoHash.toAtom ≠ [] ∧
        (result.moveBytes.length : ℤ) ≤
          intOfBytes m.spendThisCoin.gameMove.basic.maxMoveSizeRaw := by
  rw [repeats_iff_acceptsMove hreach hhandler hresult hmake hcoin, acceptsMove_iff hreach hlength]
  exact and_iff_left ⟨hshare, hsize⟩

end Referee

/-- Alice's opening can be repeated on chain. -/
theorem getTransactionForMove_repeats_iff_opening :
    ∃ coin spend, Referee.getTransactionForMove Spacepoker.table []
        (.theirTurn Spacepoker.aliceMove.next) coin = .ok spend ∧
      MoveRepeat Spacepoker.table (Spacepoker.seats 1 2) []
        (.theirTurn Spacepoker.aliceMove.next) coin spend := by
  have hnew : Referee.new Spacepoker.table Spacepoker.aliceStart (Spacepoker.seats 1 2) 0 =
      .ok (.myTurn Spacepoker.alice, curryRefereePuzzleHash Spacepoker.table
        (Spacepoker.seats 1 2).refereeCoinPuzzleHash
        (initialPuzzleArgs Spacepoker.table Spacepoker.aliceStart (Spacepoker.seats 1 2))) := by
    have hturn : Spacepoker.aliceStart.gameHandler.isMyTurn := rfl
    rw [Referee.new, if_pos hturn, Spacepoker.alice_new]
    rfl
  have hcommits : Spacepoker.alice.spendThisCoin.gameMove.validationInfoHash.toAtom ≠ [] := by
    apply List.ne_nil_of_length_pos
    rw [show Spacepoker.alice.spendThisCoin.gameMove.validationInfoHash.toAtom.length = 32 from
      Sha256.sha256_length _]
    omega
  have hsize : (Spacepoker.opening.moveBytes.length : ℤ) ≤
      intOfBytes Spacepoker.alice.spendThisCoin.gameMove.basic.maxMoveSizeRaw := by
    rw [show Spacepoker.opening.moveBytes = Spacepoker.tip from rfl, Spacepoker.tip_length]
    decide
  exact ⟨⟨[], _, 200⟩, (Referee.getTransactionForMove_repeats_iff (.new hnew)
    Sha256.sha256_length Spacepoker.aliceMove.handler_eq Spacepoker.aliceMove.result_eq
    Spacepoker.aliceMove.move_eq (by decide) (by decide) rfl []).mpr ⟨hcommits, hsize⟩⟩

/-! A game of single moves, in which the peer has sent a bound that no move can meet. -/

namespace Rally

def validator : Clvm := .pair (.atom [7]) .nil

def myHandler : Clvm := .list [.nat 1, .nat 2]

def theirHandler : Clvm := .list [.nat 3]

def hash : Hash := List.replicate 32 5

def run : Run := fun program env =>
  if program = validator then (env.nth 2).map fun state => answer hash state [5] .nil
  else if program = myHandler then
    some (.list [.atom [0x73], .atom [9], validator, .atom hash, validator, .atom hash, .nat 5,
      .nat 1, theirHandler])
  else if program = theirHandler then some (.list [.nil, .nil, myHandler])
  else none

def env : Env where
  sha256 := Sha256.sha256
  run := run
  keyBytes pk := bytesOfNat pk.sum

def start : GameStartInfo where
  amount := 2
  gameHandler := .theirTurnHandler theirHandler
  myContributionThisGame := 1
  theirContributionThisGame := 1
  initialValidationProgram := StateUpdateProgram.new env validator
  initialState := .nil
  initialMove := []
  initialMaxMoveSize := 5
  initialMoverShare := 1
  gameId := 1
  timeout := 15

def waiting : TheirTurnReferee where
  fixed := initialFixedContext start Steady.parties
  finished := false
  messageHandler := none
  state := {
    gameHandler := some (.theirTurnHandler theirHandler)
    slashValidationProgram := start.initialValidationProgram
    slashState := .nil
    theirTurnValidationProgram := start.initialValidationProgram
    currentState := .nil
    createThisCoin := initialPuzzleArgs env start Steady.parties
    spendThisCoin := initialPuzzleArgs env start Steady.parties
    moveSpend := none }
  stateNumber := 0

theorem waiting_new : Referee.new env start Steady.parties 0 = .ok (.theirTurn waiting,
    curryRefereePuzzleHash env Steady.parties.refereeCoinPuzzleHash
      (initialPuzzleArgs env start Steady.parties)) := by
  have hturn : ¬ start.gameHandler.isMyTurn := by simp [start, GameHandler.isMyTurn]
  rw [Referee.new, if_neg hturn, TheirTurnReferee.new, refereeInitialSetup_eq_ok]
  rfl

/-- Five bytes, says the size; none, says the atom that the coin will have. -/
def serve : GameMoveDetails where
  basic := { moveMade := [8], moverShare := 1, maxMoveSize := 5, maxMoveSizeRaw := [] }
  validationInfoHash := .hash hash
  validationProgramHash := none

def served : TheirTurnResult := ⟨.nil, [], 1, some (.myTurnHandler myHandler), []⟩

def answering : MyTurnReferee :=
  waiting.acceptTheirMove served.nextHandler .nil waiting.spendThisCoin (waiting.theirArgs serve) 1

theorem serve_taken : waiting.theirTurnMoveOffChain env serve 1 =
    .ok (some answering, waiting.finishTheirTurn env waiting.spendThisCoin served) := by
  have hverdict : waiting.stateAfterTheirMove env serve = .ok (some .nil) := by decide +kernel
  have hcall : waiting.callHandler env (.theirTurnHandler theirHandler) serve .nil =
      .ok served := rfl
  have hhandler : waiting.state.gameHandler = some (.theirTurnHandler theirHandler) := rfl
  rw [TheirTurnReferee.theirTurnMoveOffChain, hhandler]
  simp only [hverdict, ok_bind, hcall]
  rfl

theorem answering_reached : Referee.Reach env Steady.parties (.myTurn answering) :=
  .theirs (.new waiting_new) serve_taken

def reply : MyTurnResult where
  name := [0x73]
  moveBytes := [9]
  outgoingMoveStateUpdateProgram := StateUpdateProgram.new env validator
  outgoingMoveStateUpdateProgramHash := hash
  incomingMoveStateUpdateProgram := StateUpdateProgram.new env validator
  incomingMoveStateUpdateProgramHash := hash
  maxMoveSize := 5
  moverShare := 1
  waitingHandler := some (.theirTurnHandler theirHandler)
  messageParser := none

theorem handlerResult_eq :
    answering.handlerResult env (.myTurnHandler myHandler) .nil [] = .ok reply := by
  decide +kernel

theorem stateAfterMove_eq : answering.stateAfterMove env reply = .ok .nil := by
  decide +kernel

def move : MadeMove env answering := .ofResult rfl handlerResult_eq (by decide) stateAfterMove_eq

end Rally

/-- The move is within the size that the peer has sent, and no coin takes it. -/
theorem mismatched_size_not_repeated :
    Referee.Reach Rally.env Steady.parties (.myTurn Rally.answering) ∧
    Rally.move.result.moverShare ≤ Rally.answering.fixed.amount ∧
    (canonicalAtomFromUsize Rally.move.result.maxMoveSize).length ≤ 2 ∧
    ∀ coin, ¬ ∃ spend, Referee.getTransactionForMove Rally.env [] (.theirTurn Rally.move.next) coin =
        .ok spend ∧ MoveRepeat Rally.env Steady.parties [] (.theirTurn Rally.move.next) coin spend := by
  refine ⟨Rally.answering_reached, by decide, by decide, fun coin h => ?_⟩
  obtain ⟨spend, hspend, hrepeat⟩ := h
  obtain ⟨d, hd, hbefore, hsolution, -⟩ := Referee.moveSpend_of_make Rally.move.handler_eq
    Rally.move.result_eq Rally.move.move_eq
  obtain ⟨d', hd', hspend⟩ := bind_eq_ok.mp hspend
  rw [hd, orError, Except.ok.injEq] at hd'
  subst hd'
  obtain ⟨share, -, hspend⟩ := bind_eq_ok.mp hspend
  have haccepted := hrepeat.accepted
  rw [← Except.ok.inj hspend] at haccepted
  simp only [hsolution, hbefore, refereePuzzle_move] at haccepted
  have hmove := (moveBranch_isSome_iff _).mp (Option.isSome_of_mem haccepted)
  exact absurd hmove.2.1 (by decide)

end ChiaGaming
