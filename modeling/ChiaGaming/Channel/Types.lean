import ChiaGaming.Lib.Act
import ChiaGaming.Puzzle.Unroll
import ChiaGaming.Referee.Turns

namespace ChiaGaming

abbrev GameID := ℕ

/-- The programs of the channel by their tree hashes. -/
structure ChannelEnv extends Env where
  unrollPuzzleHash : Hash
  refereeCoinPuzzleHash : Hash
  standardPuzzleHash : Hash
  aggSigMeAdditionalData : Hash

structure ChannelPrivateKeys where
  myChannelCoinPrivateKey : PrivateKey
  myUnrollCoinPrivateKey : PrivateKey
  myRefereePrivateKey : PrivateKey
  deriving DecidableEq

/-- A revealed puzzle: its curried arguments stand for it. -/
inductive Puzzle where
  | standard (syntheticPublicKey : PublicKey)
  | unroll (args : UnrollArgs)
  deriving DecidableEq

structure Spend where
  puzzle : Puzzle
  solution : Clvm
  signature : Aggsig
  deriving DecidableEq

structure CoinSpend where
  coin : CoinString
  bundle : Spend
  deriving DecidableEq

structure BrokenOutCoinSpendInfo where
  solution : Clvm
  conditions : Clvm
  message : Bytes
  signature : Aggsig
  deriving DecidableEq

structure ChannelCoinSpendInfo where
  solution : Clvm
  conditions : Clvm
  aggsig : Aggsig
  deriving DecidableEq

structure StateUpdateSignatures where
  channelHalfSig : Aggsig
  unrollPreemptHalfSig : Aggsig
  deriving DecidableEq

def StateUpdateSignatures.default : StateUpdateSignatures := ⟨0, 0⟩

structure UnrollCoinConditionInputs where
  myRewardPuzzleHash : Hash
  theirRewardPuzzleHash : Hash
  myBalance : ℕ
  theirBalance : ℕ
  puzzleHashesAndAmounts : List (Hash × ℕ)
  unrollTimeout : ℕ

structure UnrollCoinOutcome where
  -- with the time lock and, for a preemption, without it
  conditions : Clvm
  conditionsWithoutHash : Clvm
  stateNumber : ℕ
  hash : Hash
  signature : Aggsig
  deriving DecidableEq

structure UnrollCoin where
  startedWithPotato : Bool
  stateNumber : ℕ
  outcome : Option UnrollCoinOutcome
  deriving DecidableEq

structure ChannelUnrollSpendInfo where
  coin : UnrollCoin
  signatures : StateUpdateSignatures
  deriving DecidableEq

/-- What is kept of every state: enough to name its coin and to time it out. -/
structure HistoricalUnrollSpendInfo where
  stateNumber : ℕ
  conditionsHash : Hash
  timeoutConditions : Clvm
  deriving DecidableEq

structure LiveGame where
  gameId : GameID
  lastRefereePuzzleHash : Hash
  refereeMaker : Referee
  myContribution : ℕ
  theirContribution : ℕ
  deriving DecidableEq

structure ProposedGame where
  gameId : GameID
  groupId : GameID
  initialPuzzleHash : Hash
  referee : Referee
  myContribution : ℕ
  theirContribution : ℕ
  deriving DecidableEq

structure CachedAcceptSettlement where
  gameId : GameID
  puzzleHash : Hash
  liveGame : LiveGame
  atStakeAmount : ℕ
  ourShareAmount : ℕ
  gameFinished : Bool
  deriving DecidableEq

structure CachedSendMove where
  stateNumber : ℕ
  gameId : GameID
  puzzleHash : Hash
  matchPuzzleHash : Hash
  amount : ℕ
  savedPostMoveReferee : Option Referee
  savedPostMoveLastPh : Option Hash
  deriving DecidableEq

inductive CachedRedoActions where
  | cachedAcceptSettlement (a : CachedAcceptSettlement)
  | cachedSendMove (m : CachedSendMove)
  | proposalAccepted (gameId : GameID)
  deriving DecidableEq

structure ChannelState where
  privateKeys : ChannelPrivateKeys
  theirChannelCoinPublicKey : PublicKey
  theirUnrollCoinPublicKey : PublicKey
  theirRefereePubkey : PublicKey
  theirRewardPuzzleHash : Hash
  theirRewardPayoutSignature : Aggsig
  rewardPuzzleHash : Hash
  myOutOfGameBalance : ℕ
  theirOutOfGameBalance : ℕ
  myAllocatedBalance : ℕ
  theirAllocatedBalance : ℕ
  havePotato : Bool
  unrollAdvanceTimeout : ℕ
  cachedRedoActions : List CachedRedoActions
  stateNumber : ℕ
  myNextNonce : ℕ
  theirNextNonce : ℕ
  channelCoinSpend : CoinSpend
  latestSentUnroll : ChannelUnrollSpendInfo
  latestReceivedUnroll : Option ChannelUnrollSpendInfo
  -- the newest entry first; an entry replaces an older one of its key
  unrollPuzzleHashMap : List (Hash × HistoricalUnrollSpendInfo)
  liveGames : List LiveGame
  pendingSettlements : List LiveGame
  proposedGames : List ProposedGame
  deriving DecidableEq

structure MoveResult where
  stateNumber : ℕ
  gameMove : GameMoveDetails
  isFinished : Bool

structure ChannelMoveResult where
  stateNumber : ℕ
  readableTheirMove : Clvm
  message : Bytes
  moverShare : ℕ

structure ChannelCoinSpentResult where
  transaction : Spend
  timeout : Bool
  gamesCanceled : List GameID
  unrollingStateNumber : ℕ
  deriving DecidableEq

namespace LiveGame

variable (E : Env) (g : LiveGame)

def isMyTurn : Bool := g.refereeMaker.isMyTurn
def isGameOver : Bool := g.refereeMaker.isGameOver
def getMaxMoveSize : ℕ := g.refereeMaker.getMaxMoveSize
def getAmount : ℕ := g.refereeMaker.fixed.amount
def getOurCurrentShare : Except Error ℕ := g.refereeMaker.getOurCurrentShare

/-- `None` is the `false` of the source: it is not our turn. -/
def enableCheating (makeMove : Bytes) (moverShare : ℕ) : LiveGame × Bool :=
  match g.refereeMaker.setCheating makeMove moverShare with
  | some newRef => ({ g with refereeMaker := newRef }, true)
  | none => (g, false)

def internalMakeMove (readableMove : Clvm) (newEntropy : Hash) (stateNumber : ℕ) :
    Except Error (LiveGame × GameMoveWireData) :=
  if ¬ g.isMyTurn then
    .error (.strErr "internal_make_move called when it is not our turn" [])
  else do
    let (newRef, refereeResult) ← g.refereeMaker.myTurnMakeMove E readableMove newEntropy stateNumber
    .ok ({ g with
      refereeMaker := newRef
      lastRefereePuzzleHash := newRef.outcomeRefereePuzzleHash E }, refereeResult)

/-- A move that calls for a slash leaves the game as it was. -/
def internalTheirMove (gameMove : GameMoveDetails) (stateNumber : ℕ) :
    Except Error (LiveGame × TheirTurnMoveResult) :=
  if g.isMyTurn then .error (.channel "received opponent move but it is our turn")
  else do
    let (newRef, result) ← g.refereeMaker.theirTurnMoveOffChain E gameMove stateNumber
    match newRef with
    | none => .ok (g, result)
    | some r =>
      .ok ({ g with
        refereeMaker := r
        lastRefereePuzzleHash :=
          if result.puzzleHashForUnroll.isSome then r.outcomeRefereePuzzleHash E
          else g.lastRefereePuzzleHash }, result)

end LiveGame

end ChiaGaming
