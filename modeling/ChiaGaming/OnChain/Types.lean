import ChiaGaming.Lib.Dict
import ChiaGaming.Puzzle.Unroll
import ChiaGaming.Referee.Chain
import ChiaGaming.Session.Types

namespace ChiaGaming

/-! Spends as the chain shows them. -/

/-- A revealed puzzle.  The curried arguments of the contracts stand for them. -/
inductive ChainPuzzle where
  | referee (args : RefereeArgs)
  | unroll (args : UnrollArgs)
  | other (program : Clvm)
  deriving DecidableEq

def ChainPuzzle.run (E : Env) : ChainPuzzle → Clvm → Option Clvm
  | referee args, solution => refereePuzzle E.sha256 E.run args solution
  | unroll args, solution => stateChannelUnrolling E.sha256 args solution
  | other program, solution => E.run program solution

/-- Only the coins that are created are read here; a condition of any other kind is passed over. -/
def parseCondition (condition : Clvm) : Except Error CoinCondition :=
  match condition.properList with
  | some (code :: .atom ph :: .atom amount :: _) =>
    if code = condCreateCoin then do
      let amount ← orError (u64FromAtom amount) (.strErr "CREATE_COIN amount was not a u64 atom" [])
      .ok (.createCoin (← hashFromSlice ph) amount)
    else .ok .other
  | _ => .ok .other

def parseConditions : List Clvm → Except Error (List CoinCondition)
  | [] => .ok []
  | c :: cs => do .ok ((← parseCondition c) :: (← parseConditions cs))

def fromPuzzleAndSolution (E : Env) (puzzle : ChainPuzzle) (solution : Clvm) :
    Except Error (List CoinCondition) := do
  let conditions ← orError (puzzle.run E solution) .clvmErr
  parseConditions (← orError conditions.properList (.strErr "coin conditions were not a list" []))

/-- What the conditions pay to a puzzle hash. -/
def paidIn (puzzleHash : Hash) : List CoinCondition → ℕ
  | [] => 0
  | .createCoin ph amount :: conditions =>
    (if ph = puzzleHash then amount else 0) + paidIn puzzleHash conditions
  | .other :: conditions => paidIn puzzleHash conditions

/-! What is reported. -/

inductive SettlementOutcome where
  | acceptSettlement
  | settledCleanly
  | opponentTimedOut
  | forfeitedSkippedReveal
  | forfeitedOpponentWon
  | forfeitedWeAccepted
  | weAccepted
  | attemptToMoveFailed
  | timedOutWaitingForOurMove
  | slashedOpponent
  | opponentSlashedUs
  | opponentCheated
  deriving DecidableEq, Repr

inductive GameStatusKind where
  | myTurn
  | onChainMyTurn
  | onChainTheirTurn
  | replaying
  | illegalMoveDetected
  | endedCancelled
  | endedError
  deriving DecidableEq, Repr

structure GameStatusOtherParams where
  readable : Option Clvm := none
  moverShare : Option ℕ := none
  illegalMoveDetected : Option Bool := none
  movedByUs : Option Bool := none
  gameFinished : Option Bool := none
  deriving DecidableEq

/-- The notifications from the time on when the channel coin is being spent. -/
inductive ChainNotification where
  | gameStatus (gameId : GameID) (status : GameStatusKind) (coin : Option CoinString)
      (reason : Option String) (params : Option GameStatusOtherParams)
  | gameSettled (gameId : GameID) (outcome : SettlementOutcome) (ourShare : ℕ)
      (coin : Option CoinString)
  | proposalCancelled (gameId : GameID) (channelError : Bool)
  deriving DecidableEq

/-- The effects from that time on, without log lines and the names of watched coins. -/
inductive ChainEffect where
  | notify (n : ChainNotification)
  -- a game coin, with the claim for the time it has timed out and the game if the opponent is to move
  | registerCoin (coin : CoinString) (timeout : ℕ) (spend : Option RefereeSpend)
      (semantic : Option GameID)
  | registerUnroll (coin : CoinString) (timeout : ℕ) (spend : Option CoinSpend)
  | spendTransaction (spend : RefereeSpend)
  | spendUnroll (spend : CoinSpend)
  | spendChannel (spend : CoinSpend)
  | requestPuzzleAndSolution (coin : CoinString)

/-- A status that ends the game: nothing more is to be heard of it. -/
def GameStatusKind.isTerminal : GameStatusKind → Bool
  | endedCancelled => true
  | endedError => true
  | _ => false

/-! The phase. -/

structure OnChainGameState where
  gameId : GameID
  puzzleHash : Hash
  ourTurn : Bool
  stateNumber : ℕ
  pendingSlashAmount : Option ℕ
  cheatingMoveMoverShare : Option ℕ
  timeoutClaimArmed : Bool
  notificationSent : Bool
  gameTimeout : ℕ
  gameFinished : Bool
  deriving DecidableEq

/-- A move of ours that is on its way to the chain, and the referee once it is there. -/
structure PendingMoveSavedState where
  expectedPh : Hash
  gameId : GameID
  postMoveReferee : Referee
  postMoveLastPh : Hash

structure OnChainPhase where
  havePotato : PotatoState
  gameActionQueue : List GameAction
  gameMap : Dict CoinString OnChainGameState
  pendingMoves : Dict CoinString PendingMoveSavedState
  rewardPuzzleHash : Hash
  theirRewardPuzzleHash : Hash
  liveGames : List LiveGame
  pendingSettlements : List LiveGame
  stateNumber : ℕ
  wasStale : Bool
  resolvedClean : Bool
  terminalRewardCoin : Option CoinString
  currentGameCoins : List (GameID × CoinString)
  gamePayoutCoins : List (GameID × CoinString)
  advisory : Option String

/-- Where the queue and the local player should take the game up again. -/
structure ResyncInfo where
  stateNumber : ℕ
  isMyTurn : Bool
  deriving DecidableEq

end ChiaGaming
