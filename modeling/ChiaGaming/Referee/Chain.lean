import ChiaGaming.Referee.Slash
import ChiaGaming.Referee.Timeout

namespace ChiaGaming

/-! What a referee makes of the spend of its coin, whoever has spent it. -/

/-- The referee puzzle tells its solutions apart by their length and by whether the second element
is a program. -/
def ParsedRefereeSolution.parse (solution : Clvm) : Except Error ParsedRefereeSolution := do
  let elements ← orError solution.properList
    (.strErr "referee solution is not a proper list" [])
  match elements with
  | [_, _] => .ok .timeout
  | newMove :: .atom infohashC :: newMoverShare :: newMaxMoveSize :: _ =>
    .ok (.move {
      newMove := ← orError newMove.bytes .panic
      infohashC
      newMoverShare := ← orError newMoverShare.bytes .panic
      newMaxMoveSize := ← orError newMaxMoveSize.bytes .panic })
  | _ :: .pair _ _ :: _ :: _ :: _ => .ok .slash
  | _ => .error (.strErr "referee solution has unexpected length" [.nat elements.length])

/-- The first coin that the conditions create. -/
def firstCreated : List CoinCondition → Option (Hash × ℕ)
  | [] => none
  | .createCoin ph amount :: _ => some (ph, amount)
  | .other :: conditions => firstCreated conditions

/-- The spend as the game sees it. -/
inductive CoinSpentResult where
  | timedout (myRewardCoinString : Option CoinString)
  | expected (stateNumber : ℕ) (puzzleHash : Hash) (amount : ℕ)
  | theirs (result : TheirTurnCoinSpentResult)

namespace Referee

variable (E : Env)

def stateNumber : Referee → ℕ
  | myTurn r => r.stateNumber
  | theirTurn r => r.stateNumber

def moveSpend : Referee → Option OnChainRefereeMoveData
  | myTurn r => r.state.moveSpend
  | theirTurn r => r.state.moveSpend

/-- The coin of our reward; none is created for a share of zero. -/
def rewardCoin (r : Referee) (coin : CoinString) (share : ℕ) : Option CoinString :=
  if share > 0 then some ⟨coin.toCoinId E.sha256, r.fixed.rewardPuzzleHash, share⟩ else none

/-- A spend that takes the coin where the referee already is needs no more. -/
def arrives (r : Referee) (coin : CoinString) (created : Option (Hash × ℕ)) : Bool :=
  coin.puzzleHash = r.onChainRefereePuzzleHash E ∧
    created.any fun c => c.1 = r.outcomeRefereePuzzleHash E

def theirTurnCoinSpent (r : Referee) (coin : CoinString) (conditions : List CoinCondition)
    (stateNumber : ℕ) (solution : ParsedRefereeSolution) :
    Except Error (Option Referee × CoinSpentResult) :=
  match firstCreated conditions, r.arrives E coin (firstCreated conditions) with
  | some (ph, amount), true => .ok (some r, .expected r.stateNumber ph amount)
  | _, _ =>
    match solution, r with
    | .move _, .myTurn _ => .error (.channel "their_turn_coin_spent called on MyTurn referee")
    | .move m, .theirTurn t => do
      let (next, result) ← t.theirTurnCoinSpent E coin conditions stateNumber (.move m)
      .ok (next, .theirs result)
    | _, r => do
      -- what is paid is taken from the referee, not from the spend
      let share ← r.getOurCurrentShare
      .ok (some r, .timedout (r.rewardCoin E coin share))

/-- The move of ours that a referee has made last, as a spend of the coin it was made on. -/
def getTransactionForMove (aggSigMeAdditionalData : Hash) (r : Referee) (coin : CoinString) :
    Except Error RefereeSpend := do
  let d ← orError r.moveSpend
    (.strErr "we need to be after a my turn to get a move transaction" [])
  let _ ← r.getOurCurrentShare
  .ok {
    coin
    puzzle := d.beforeArgs
    solution := (d.solution E).toClvm
    signature := sign r.fixed.myIdentity.privateKey (shatree E.sha256 (d.solution E).toClvm ++
      coin.toCoinId E.sha256 ++ aggSigMeAdditionalData) }

end Referee

end ChiaGaming
