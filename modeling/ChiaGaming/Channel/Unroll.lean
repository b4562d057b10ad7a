import ChiaGaming.Channel.Types

namespace ChiaGaming

def createCoin (puzzleHash : Hash) (amount : ℕ) : Clvm :=
  .list [condCreateCoin, .atom puzzleHash, .nat amount]

namespace UnrollCoin

variable (E : ChannelEnv) (u : UnrollCoin)

def outcome? : Except Error UnrollCoinOutcome :=
  orError u.outcome (.strErr "no default setup" [])

def getInternalConditionsForUnrollCoinSpend : Except Error Clvm := do
  .ok (← u.outcome?).conditionsWithoutHash

def getOldStateNumber : Except Error ℕ := do .ok (← u.outcome?).stateNumber

def getConditionsForUnrollCoinSpend : Except Error Clvm := do .ok (← u.outcome?).conditions

def getConditionsHashForUnrollPuzzle : Except Error Hash := do .ok (← u.outcome?).hash

def getUnrollCoinSignature : Except Error Aggsig := do .ok (← u.outcome?).signature

def makeCurriedUnrollPuzzle (aggregatePublicKey : PublicKey) : Except Error UnrollArgs := do
  let conditionsHash ← u.getConditionsHashForUnrollPuzzle
  .ok ⟨E.keyBytes aggregatePublicKey, bytesOfNat (← u.getOldStateNumber), conditionsHash⟩

/-- The two balances, in an order both players agree on, and a coin for each game; in front of
them the state number. -/
def computeUnrollCoinConditions (inputs : UnrollCoinConditionInputs) : Clvm :=
  let theirFirstCoin := createCoin inputs.theirRewardPuzzleHash inputs.theirBalance
  let ourFirstCoin := createCoin inputs.myRewardPuzzleHash inputs.myBalance
  let start :=
    if u.startedWithPotato then [ourFirstCoin, theirFirstCoin] else [theirFirstCoin, ourFirstCoin]
  let games := inputs.puzzleHashesAndAmounts.map fun game => createCoin game.1 game.2
  .pair (.list [condRem, .nat u.stateNumber]) (.list (start ++ games))

/-- The conditions behind the time lock. -/
def timeoutConditionsOf (baseConditions : Clvm) (unrollTimeout : ℕ) : Clvm :=
  if unrollTimeout > 0 then
    .pair (.list [condAssertHeightRelative, .nat unrollTimeout]) baseConditions
  else baseConditions

def update (unrollPrivateKey : PrivateKey) (theirUnrollCoinPublicKey : PublicKey)
    (inputs : UnrollCoinConditionInputs) : UnrollCoin :=
  let baseConditions := u.computeUnrollCoinConditions inputs
  let timeoutConditions := timeoutConditionsOf baseConditions inputs.unrollTimeout
  { u with outcome := some {
      conditions := timeoutConditions
      conditionsWithoutHash := baseConditions
      stateNumber := u.stateNumber
      hash := shatree E.sha256 timeoutConditions
      signature := partialSign unrollPrivateKey
        (publicKey unrollPrivateKey + theirUnrollCoinPublicKey) (shatree E.sha256 baseConditions) } }

def verify (aggregateUnrollPublicKey : PublicKey) (signature : Aggsig) : Except Error Bool := do
  let conditions ← u.getInternalConditionsForUnrollCoinSpend
  let ourHalf ← u.getUnrollCoinSignature
  .ok (ChiaGaming.verify aggregateUnrollPublicKey (shatree E.sha256 conditions)
    (signature + ourHalf))

@[simp] theorem outcome?_update (sk : PrivateKey) (pk : PublicKey)
    (inputs : UnrollCoinConditionInputs) :
    (u.update E sk pk inputs).outcome? = .ok {
      conditions := timeoutConditionsOf (u.computeUnrollCoinConditions inputs) inputs.unrollTimeout
      conditionsWithoutHash := u.computeUnrollCoinConditions inputs
      stateNumber := u.stateNumber
      hash := shatree E.sha256 (timeoutConditionsOf (u.computeUnrollCoinConditions inputs)
        inputs.unrollTimeout)
      signature := partialSign sk (publicKey sk + pk)
        (shatree E.sha256 (u.computeUnrollCoinConditions inputs)) } := rfl

end UnrollCoin

section Standard

variable (E : ChannelEnv)

def puzzleHashForSyntheticPublicKey (key : PublicKey) : Hash :=
  curryHashes E.sha256 E.standardPuzzleHash [shatree E.sha256 (.atom (E.keyBytes key))]

def aggSigMeMessage (rawMessage : Bytes) (coinId : Hash) : Bytes :=
  rawMessage ++ coinId ++ E.aggSigMeAdditionalData

/-- What the channel coin's key signs when the coin is spent for the conditions. -/
def channelSpendMessage (coinId : Hash) (conditions : Clvm) : Bytes :=
  aggSigMeMessage E (shatree E.sha256 (.pair (.nat 1) conditions)) coinId

def solutionForConditions (conditions : Clvm) : Clvm :=
  .list [.nil, .pair (.nat 1) conditions, .nil]

/-- The coin that a condition creates, if it does. -/
def createdCoin? (condition : Clvm) : Option (Hash × ℕ) :=
  match condition.properList with
  | some (code :: .atom ph :: .atom amount :: _) =>
    if code = condCreateCoin then some (ph, natOfBytes amount) else none
  | _ => none

/-- The coins of a condition list; the other conditions play no part here. -/
def createdCoins (conditions : Clvm) : Except Error (List (Hash × ℕ)) :=
  match conditions.properList with
  | none => .error (.strErr "coin conditions were not a list" [])
  | some conds => .ok (conds.filterMap createdCoin?)

/-- A partial signature for a spend that creates coins.  No caller passes conditions that ask for
other signatures. -/
def standardSolutionPartial (privateKey : PrivateKey) (coinId : Hash) (conditions : Clvm)
    (aggregatePublicKey : PublicKey) : Except Error BrokenOutCoinSpendInfo := do
  let coins ← createdCoins conditions
  if coins = [] then .error (.strErr "Failed to get a signature from the spend" [])
  else
    .ok {
      solution := solutionForConditions conditions
      conditions
      message := channelSpendMessage E coinId conditions
      signature := partialSign privateKey aggregatePublicKey
        (channelSpendMessage E coinId conditions) }

end Standard

end ChiaGaming
