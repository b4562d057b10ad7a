import ChiaGaming.Referee.Runs

namespace ChiaGaming

/-! Claiming a game whose time is up. -/

namespace Referee

variable (E : Env) (r : Referee)

/-- The coin that is claimed: the one that the last move created, if that is the one on chain. -/
def timeoutArgs (coin : CoinString) : RefereePuzzleArgs :=
  if coin.puzzleHash = r.outcomeRefereePuzzleHash E ∧
      coin.puzzleHash ≠ r.onChainRefereePuzzleHash E then
    r.spendThisCoin
  else r.argsForThisCoin

/-- The payout puzzle hash of a share; there is none for a share of zero. -/
def payoutPh (share : ℕ) (puzzleHash : Hash) : Clvm :=
  if share > 0 then .atom puzzleHash else .nil

def iAmMover (args : RefereePuzzleArgs) : Bool :=
  args.moverPubkey = r.fixed.myIdentity.publicKey

/-- The reward puzzle hashes of the mover and the waiter. -/
def moverPh (args : RefereePuzzleArgs) : Hash :=
  if r.iAmMover args then r.fixed.rewardPuzzleHash else r.fixed.theirRewardPuzzleHash

def waiterPh (args : RefereePuzzleArgs) : Hash :=
  if r.iAmMover args then r.fixed.theirRewardPuzzleHash else r.fixed.rewardPuzzleHash

def getTransactionForTimeout (coin : CoinString) : Except Error (Option RefereeSpend) := do
  let args := r.timeoutArgs E coin
  let moverShare := args.gameMove.basic.moverShare
  let waiterShare ← amountCheckedSub r.fixed.amount moverShare
  let iAmMover := r.iAmMover args
  let myShare := if iAmMover then moverShare else waiterShare
  let theirShare := if iAmMover then waiterShare else moverShare
  let mySignature := if myShare > 0 then r.fixed.myRewardPayoutSignature else 0
  let theirSignature := if theirShare > 0 then r.fixed.theirRewardPayoutSignature else 0
  -- a game without a stake is not worth a transaction
  if r.fixed.amount = 0 then .ok none
  else
    .ok (some {
      coin
      puzzle := args
      solution := .list [payoutPh moverShare (r.moverPh args), payoutPh waiterShare (r.waiterPh args)]
      signature := mySignature + theirSignature })

/-- The referees of a game between the parties: whoever moves, on chain or off. -/
inductive Reach (p : RefereeParties) : Referee → Prop where
  | new {g : GameStartInfo} {n : ℕ} {r : Referee} {ph : Hash}
      (h : Referee.new E g p n = .ok (r, ph)) : Reach p r
  | cheating {r : MyTurnReferee} (h : Reach p (.myTurn r)) (makeMove : Bytes) (moverShare : ℕ) :
      Reach p (.myTurn (r.setCheating makeMove moverShare))
  | mine {r : MyTurnReferee} {readableMove : Clvm} {newEntropy : Hash} {n : ℕ} {next : Referee}
      {wire : GameMoveWireData} (h : Reach p (.myTurn r))
      (hmove : r.myTurnMakeMove E readableMove newEntropy n = .ok (next, wire)) : Reach p next
  | theirs {t : TheirTurnReferee} {details : GameMoveDetails} {n : ℕ} {next : MyTurnReferee}
      {result : TheirTurnMoveResult} (h : Reach p (.theirTurn t))
      (hmove : t.theirTurnMoveOffChain E details n = .ok (some next, result)) :
      Reach p (.myTurn next)
  | moved {t : TheirTurnReferee} {coin : CoinString} {conditions : List CoinCondition} {n : ℕ}
      {solution : ParsedRefereeSolution} {next : Referee} {result : TheirTurnCoinSpentResult}
      (h : Reach p (.theirTurn t))
      (hspent : t.theirTurnCoinSpent E coin conditions n solution = .ok (some next, result)) :
      Reach p next

/-- The coins are between the parties' keys, for the stake and under the number of the game. -/
structure Seat (fixed : RefereeFixedContext) (args : RefereePuzzleArgs) : Prop where
  keys : args.moverPubkey = fixed.myIdentity.publicKey ∧ args.waiterPubkey = fixed.theirRefereePubkey ∨
    args.moverPubkey = fixed.theirRefereePubkey ∧ args.waiterPubkey = fixed.myIdentity.publicKey
  amount : args.amount = fixed.amount
  nonce : args.nonce = fixed.nonce

structure Seated (p : RefereeParties) (r : Referee) : Prop where
  fixed : ∃ g, r.fixed = initialFixedContext g p
  spends : Seat r.fixed r.spendThisCoin
  onChain : Seat r.fixed r.argsForThisCoin

variable {E} {r} {p : RefereeParties}

theorem seated_new {g : GameStartInfo} {n : ℕ} {ph : Hash} (h : Referee.new E g p n = .ok (r, ph)) :
    Seated p r := by
  have hseat : Seat (initialFixedContext g p) (initialPuzzleArgs E g p) := by
    refine ⟨?_, rfl, rfl⟩
    rw [initialPuzzleArgs]
    cases g.gameHandler.isMyTurn with
    | true => exact .inl ⟨rfl, rfl⟩
    | false => exact .inr ⟨rfl, rfl⟩
  rw [Referee.new] at h
  split at h
  · rw [MyTurnReferee.new, refereeInitialSetup_eq_ok] at h
    cases h
    exact ⟨⟨g, rfl⟩, hseat, hseat⟩
  · rw [TheirTurnReferee.new, refereeInitialSetup_eq_ok] at h
    cases h
    exact ⟨⟨g, rfl⟩, hseat, hseat⟩

theorem Seated.theirs {t : TheirTurnReferee} {details : GameMoveDetails} {n : ℕ}
    {next : MyTurnReferee} {result : TheirTurnMoveResult} (h : Seated p (.theirTurn t))
    (hmove : t.theirTurnMoveOffChain E details n = .ok (some next, result)) :
    Seated p (.myTurn next) := by
  obtain ⟨handler, newState, answer, -, -, -, -, rfl, -⟩ := theirTurnMoveOffChain_eq_some hmove
  exact ⟨h.fixed, ⟨.inl ⟨rfl, rfl⟩, h.spends.amount, h.spends.nonce⟩, h.spends⟩

theorem Reach.seated (h : Reach E p r) : Seated p r := by
  induction h with
  | new h => exact seated_new h
  | cheating _ makeMove moverShare ih => exact ⟨ih.fixed, ih.spends, ih.onChain⟩
  | mine _ hmove ih =>
    obtain ⟨handler, result, newState, -, -, -, rfl, -⟩ := myTurnMakeMove_eq_ok hmove
    exact ⟨ih.fixed, ⟨.inr ⟨rfl, rfl⟩, ih.spends.amount, ih.spends.nonce⟩, ih.spends⟩
  | theirs _ hmove ih => exact ih.theirs hmove
  | moved _ hspent ih =>
    obtain ⟨details, next', move, hmove, rfl⟩ := theirTurnCoinSpent_eq_some hspent
    have hnext := ih.theirs hmove
    rw [TheirTurnReferee.adjust]
    split
    · exact hnext
    · rename_i handler state args spend moveSpend hstate
      have hspends := hnext.spends
      rw [spendThisCoin, MyTurnReferee.spendThisCoin, hstate] at hspends
      exact ⟨hnext.fixed, hspends, hspends⟩

/-- The last coin is the mover's: ours on our turn. -/
theorem Reach.mover (h : Reach E p r) :
    r.spendThisCoin.moverPubkey =
        (if r.isMyTurn then r.fixed.myIdentity.publicKey else r.fixed.theirRefereePubkey) ∧
      r.spendThisCoin.waiterPubkey =
        (if r.isMyTurn then r.fixed.theirRefereePubkey else r.fixed.myIdentity.publicKey) := by
  induction h with
  | @new g n r ph h =>
    rw [Referee.new] at h
    split at h
    · rename_i hturn
      rw [MyTurnReferee.new, refereeInitialSetup_eq_ok] at h
      cases h
      have hnew : ∀ a b : PublicKey, (if g.gameHandler.isMyTurn then a else b) = a :=
        fun a b => if_pos hturn
      exact ⟨hnew _ _, hnew _ _⟩
    · rename_i hturn
      rw [TheirTurnReferee.new, refereeInitialSetup_eq_ok] at h
      cases h
      have hnew : ∀ a b : PublicKey, (if g.gameHandler.isMyTurn then a else b) = b :=
        fun a b => if_neg hturn
      exact ⟨hnew _ _, hnew _ _⟩
  | cheating _ makeMove moverShare ih => exact ih
  | mine _ hmove _ =>
    obtain ⟨handler, result, newState, -, -, -, rfl, -⟩ := myTurnMakeMove_eq_ok hmove
    exact ⟨rfl, rfl⟩
  | theirs _ hmove _ =>
    obtain ⟨handler, newState, answer, -, -, -, -, rfl, -⟩ := theirTurnMoveOffChain_eq_some hmove
    exact ⟨rfl, rfl⟩
  | moved _ hspent _ =>
    obtain ⟨details, next', move, hmove, rfl⟩ := theirTurnCoinSpent_eq_some hspent
    obtain ⟨handler, newState, answer, -, -, -, -, rfl, -⟩ := theirTurnMoveOffChain_eq_some hmove
    exact ⟨rfl, rfl⟩

theorem Seated.timeoutArgs (h : Seated p r) (coin : CoinString) :
    Seat r.fixed (r.timeoutArgs E coin) := by
  rw [Referee.timeoutArgs]
  split
  · exact h.spends
  · exact h.onChain

theorem bytesOfNat_eq_nil {n : ℕ} : bytesOfNat n = [] ↔ n = 0 :=
  bytesOfNat_injective.eq_iff (b := 0)

/-- The claim of the stored shares is the puzzle's timeout of the coin. -/
theorem payoutPh_timeoutSolution {args : RefereePuzzleArgs}
    (hle : args.gameMove.basic.moverShare ≤ args.amount) (moverPh waiterPh : Hash) :
    Clvm.list [payoutPh args.gameMove.basic.moverShare moverPh,
        payoutPh (args.amount - args.gameMove.basic.moverShare) waiterPh] =
      timeoutSolution (args.coin E) moverPh waiterPh := by
  have hmover : payoutPh args.gameMove.basic.moverShare moverPh =
      if bytesOfNat args.gameMove.basic.moverShare = [] then .nil else .atom moverPh := by
    rw [payoutPh]
    by_cases hzero : args.gameMove.basic.moverShare = 0
    · rw [if_neg (by omega), if_pos (bytesOfNat_eq_nil.mpr hzero)]
    · rw [if_pos (by omega), if_neg (by rwa [bytesOfNat_eq_nil])]
  have hwaiter : payoutPh (args.amount - args.gameMove.basic.moverShare) waiterPh =
      if intOfBytes (bytesOfNat args.amount) -
        intOfBytes (bytesOfNat args.gameMove.basic.moverShare) = 0 then .nil
      else .atom waiterPh := by
    rw [payoutPh, intOfBytes_bytesOfNat, intOfBytes_bytesOfNat]
    by_cases hzero : args.amount = args.gameMove.basic.moverShare
    · rw [if_neg (by omega), if_pos (by omega)]
    · rw [if_pos (by omega), if_neg (by omega)]
  rw [hmover, hwaiter, timeoutSolution]
  rfl

/-- A claim is made if there is a stake and the mover's share is covered by it. -/
theorem getTransactionForTimeout_eq_some {coin : CoinString} {spend : RefereeSpend} :
    r.getTransactionForTimeout E coin = .ok (some spend) ↔
      (r.timeoutArgs E coin).gameMove.basic.moverShare ≤ r.fixed.amount ∧ r.fixed.amount ≠ 0 ∧
      spend = {
        coin
        puzzle := r.timeoutArgs E coin
        solution := .list [
          payoutPh (r.timeoutArgs E coin).gameMove.basic.moverShare
            (r.moverPh (r.timeoutArgs E coin)),
          payoutPh (r.fixed.amount - (r.timeoutArgs E coin).gameMove.basic.moverShare)
            (r.waiterPh (r.timeoutArgs E coin))]
        signature :=
          (if (if r.iAmMover (r.timeoutArgs E coin) then
              (r.timeoutArgs E coin).gameMove.basic.moverShare
            else r.fixed.amount - (r.timeoutArgs E coin).gameMove.basic.moverShare) > 0 then
            r.fixed.myRewardPayoutSignature else 0) +
          if (if r.iAmMover (r.timeoutArgs E coin) then
              r.fixed.amount - (r.timeoutArgs E coin).gameMove.basic.moverShare
            else (r.timeoutArgs E coin).gameMove.basic.moverShare) > 0 then
            r.fixed.theirRewardPayoutSignature else 0 } := by
  rw [getTransactionForTimeout]
  by_cases hle : (r.timeoutArgs E coin).gameMove.basic.moverShare ≤ r.fixed.amount
  · simp only [amountCheckedSub, if_pos hle, ok_bind]
    split
    · rename_i hzero
      constructor
      · intro h
        cases h
      · rintro ⟨-, hne, -⟩
        exact absurd hzero hne
    · rename_i hne
      constructor
      · intro h
        cases h
        exact ⟨hle, hne, rfl⟩
      · rintro ⟨-, -, rfl⟩
        rfl
  · simp only [amountCheckedSub, if_neg hle]
    constructor
    · intro h
      cases h
    · rintro ⟨hle', -⟩
      exact absurd hle' hle

/-- A claim pays the mover its share and the waiter the rest, each under its own puzzle hash. -/
theorem getTransactionForTimeout_eq_ok (h : Seated p r) {coin : CoinString} {spend : RefereeSpend}
    (hspend : r.getTransactionForTimeout E coin = .ok (some spend)) :
    spend.puzzle = r.timeoutArgs E coin ∧ spend.puzzle.gameMove.basic.moverShare ≤ r.fixed.amount ∧
      ∃ moverPh waiterPh, (moverPh = p.rewardPuzzleHash ∧ waiterPh = p.theirRewardPuzzleHash ∨
          moverPh = p.theirRewardPuzzleHash ∧ waiterPh = p.rewardPuzzleHash) ∧
        spend.solution = timeoutSolution (spend.puzzle.coin E) moverPh waiterPh := by
  obtain ⟨hle, -, rfl⟩ := getTransactionForTimeout_eq_some.mp hspend
  have hamount : (r.timeoutArgs E coin).amount = r.fixed.amount := (h.timeoutArgs coin).amount
  refine ⟨rfl, hle, r.moverPh (r.timeoutArgs E coin), r.waiterPh (r.timeoutArgs E coin), ?_, ?_⟩
  · obtain ⟨g, hfixed⟩ := h.fixed
    rw [moverPh, waiterPh, hfixed]
    split
    · exact .inl ⟨rfl, rfl⟩
    · exact .inr ⟨rfl, rfl⟩
  · rw [← payoutPh_timeoutSolution (hle.trans_eq hamount.symm), hamount]

end Referee

end ChiaGaming
