import ChiaGaming.Channel.Games

namespace ChiaGaming

namespace ChannelState

variable (E : ChannelEnv) (ch : ChannelState)

def getHistoricalUnrollForState (stateNumber : ℕ) : Except Error HistoricalUnrollSpendInfo :=
  orError ((ch.unrollPuzzleHashMap.map Prod.snd).find? fun info => info.stateNumber = stateNumber)
    (.strErr "No stored unroll matches on-chain state" [.nat stateNumber])

/-- The first coin of the channel spend that is an unroll we know. -/
def resolveUnrollFromConditions (conditions : Clvm) : Except Error (ℕ × Hash) := do
  let coins ← createdCoins conditions
  match coins.findSome? fun coin => ch.unrollPuzzleHashMap.lookup coin.1 with
  | some info => .ok (info.stateNumber, info.conditionsHash)
  | none =>
    .error (.strErr "No CREATE_COIN in channel spend matches a known unroll puzzle hash" [])

def unrollArgs (stateNumber : ℕ) (conditionsHash : Hash) : UnrollArgs :=
  ⟨E.keyBytes ch.getAggregateUnrollPublicKey, bytesOfNat stateNumber, conditionsHash⟩

/-- The timeout spend of the exact unroll that landed. -/
def makeTimeoutUnrollSpend (stateNumber : ℕ) (conditionsHash : Hash) :
    Except Error ChannelCoinSpentResult := do
  let historical ← ch.getHistoricalUnrollForState stateNumber
  if historical.conditionsHash ≠ conditionsHash then
    .error (.strErr "historical unroll conditions hash mismatch" [])
  else
    .ok {
      transaction := ⟨.unroll (ch.unrollArgs E stateNumber conditionsHash),
        historical.timeoutConditions, 0⟩
      timeout := true
      gamesCanceled := []
      unrollingStateNumber := 0 }

/-- A stored state that can take the place of an older one: of the other parity, and signed by the
peer. -/
def eligible (oldStateNumber : ℕ) (info : ChannelUnrollSpendInfo) : Bool :=
  (info.coin.stateNumber ^^^ oldStateNumber) &&& 1 = 1 ∧ info.signatures.unrollPreemptHalfSig ≠ 0

def preemptionSource (oldStateNumber : ℕ) : Option ChannelUnrollSpendInfo :=
  if eligible oldStateNumber ch.latestSentUnroll then some ch.latestSentUnroll
  else ch.latestReceivedUnroll.filter fun info => eligible oldStateNumber info

def makePreemptionUnrollSpend (unrollingStateNumber : ℕ) (conditionsHash : Hash) :
    Except Error ChannelCoinSpentResult := do
  let source ← orError (ch.preemptionSource unrollingStateNumber)
    (.strErr "No stored state satisfies parity+signature for preemption" [.nat unrollingStateNumber])
  let solution ← source.coin.getInternalConditionsForUnrollCoinSpend
  let ourHalf ← source.coin.getUnrollCoinSignature
  .ok {
    transaction := ⟨.unroll (ch.unrollArgs E unrollingStateNumber conditionsHash), solution,
      ourHalf + source.signatures.unrollPreemptHalfSig⟩
    timeout := false
    gamesCanceled := []
    unrollingStateNumber := 0 }

/-- The answer to a spend of the channel coin. -/
def channelCoinSpent (myself : Bool) (conditions : Clvm) : Except Error ChannelCoinSpentResult := do
  let (unrollingStateNumber, conditionsHash) ← ch.resolveUnrollFromConditions conditions
  let result ←
    if myself ∨ unrollingStateNumber = ch.stateNumber then
      ch.makeTimeoutUnrollSpend E unrollingStateNumber conditionsHash
    else if ch.stateNumber < unrollingStateNumber then
      .error (.strErr "Reply from the future onchain"
        [.nat unrollingStateNumber, .nat ch.stateNumber])
    else if (ch.preemptionSource unrollingStateNumber).isSome then
      ch.makePreemptionUnrollSpend E unrollingStateNumber conditionsHash
    else ch.makeTimeoutUnrollSpend E unrollingStateNumber conditionsHash
  .ok { result with unrollingStateNumber }

end ChannelState

end ChiaGaming
