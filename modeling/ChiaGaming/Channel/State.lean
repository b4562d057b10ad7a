import ChiaGaming.Channel.Unroll

namespace ChiaGaming

namespace ChannelState

variable (E : ChannelEnv) (ch : ChannelState)

def isOurNonceParity (gameId : GameID) : Bool := gameId % 2 = ch.myNextNonce % 2

def getOurCurrentShare : ℕ := ch.myOutOfGameBalance
def getTheirCurrentShare : ℕ := ch.theirOutOfGameBalance

def hasActiveGames : Bool := ch.liveGames ≠ []

def hasZeroPayout : Bool := ch.getOurCurrentShare = 0 && !ch.hasActiveGames

def channelCoin : CoinString := ch.channelCoinSpend.coin

def getAggregateUnrollPublicKey : PublicKey :=
  publicKey ch.privateKeys.myUnrollCoinPrivateKey + ch.theirUnrollCoinPublicKey

def getAggregateChannelPublicKey : PublicKey :=
  publicKey ch.privateKeys.myChannelCoinPrivateKey + ch.theirChannelCoinPublicKey

def unrollCoinConditionInputs (myBalance theirBalance : ℕ)
    (puzzleHashesAndAmounts : List (Hash × ℕ)) : UnrollCoinConditionInputs where
  myRewardPuzzleHash := ch.rewardPuzzleHash
  theirRewardPuzzleHash := ch.theirRewardPuzzleHash
  myBalance
  theirBalance
  puzzleHashesAndAmounts
  unrollTimeout := ch.unrollAdvanceTimeout

def computeUnrollDataForGames (games : List LiveGame) : List (Hash × ℕ) :=
  games.map fun g => (g.lastRefereePuzzleHash, g.getAmount)

/-- The inputs of the unroll that the state stands for. -/
def currentInputs : UnrollCoinConditionInputs :=
  ch.unrollCoinConditionInputs ch.myOutOfGameBalance ch.theirOutOfGameBalance
    (computeUnrollDataForGames ch.liveGames)

/-! Signing the spend of the channel coin. -/

def getSolutionAndSignatureFromConditions (conditions : Clvm) : Except Error BrokenOutCoinSpendInfo :=
  standardSolutionPartial E ch.privateKeys.myChannelCoinPrivateKey
    (ch.channelCoin.toCoinId E.sha256) conditions ch.getAggregateChannelPublicKey

def createConditionsAndSignatureOfChannelCoin (unrollCoin : UnrollCoin) :
    Except Error BrokenOutCoinSpendInfo := do
  let unrollPuzzle ← unrollCoin.makeCurriedUnrollPuzzle E ch.getAggregateUnrollPublicKey
  ch.getSolutionAndSignatureFromConditions E
    (.list [createCoin (unrollPuzzle.puzzleHash E.sha256 E.unrollPuzzleHash)
      ch.channelCoin.amount])

def verifyChannelCoinFromPeerSignatures (theirChannelHalfSignature : Aggsig) (conditions : Clvm) :
    Except Error BrokenOutCoinSpendInfo := do
  let spend ← ch.getSolutionAndSignatureFromConditions E conditions
  let fullSignature := spend.signature + theirChannelHalfSignature
  if verify ch.getAggregateChannelPublicKey spend.message fullSignature then
    .ok { spend with signature := fullSignature }
  else .error (.strErr "failed to verify signature" [])

/-- The record of a state under the puzzle hash of its coin. -/
def recordOf (info : ChannelUnrollSpendInfo) : Except Error (Hash × HistoricalUnrollSpendInfo) := do
  let puzzle ← info.coin.makeCurriedUnrollPuzzle E ch.getAggregateUnrollPublicKey
  .ok (puzzle.puzzleHash E.sha256 E.unrollPuzzleHash, {
    stateNumber := info.coin.stateNumber
    conditionsHash := ← info.coin.getConditionsHashForUnrollPuzzle
    timeoutConditions := ← info.coin.getConditionsForUnrollCoinSpend })

def insertRecord (record : Hash × HistoricalUnrollSpendInfo)
    (map : List (Hash × HistoricalUnrollSpendInfo)) : List (Hash × HistoricalUnrollSpendInfo) :=
  record :: map.filter fun entry => entry.1 ≠ record.1

def recordUnrollPuzzleHashFor (info : ChannelUnrollSpendInfo) : Act Error ChannelState Unit := do
  let record ← Act.lift ((← get).recordOf E info)
  modify fun ch => { ch with unrollPuzzleHashMap := insertRecord record ch.unrollPuzzleHashMap }

/-! The handshake. -/

/-- The arguments of a new channel. -/
structure Setup where
  privateKeys : ChannelPrivateKeys
  launcherCoinId : Hash
  weStartWithPotato : Bool
  theirChannelPubkey : PublicKey
  theirUnrollPubkey : PublicKey
  theirRefereePubkey : PublicKey
  theirRewardPuzzleHash : Hash
  theirRewardPayoutSignature : Aggsig
  myContribution : ℕ
  theirContribution : ℕ
  unrollAdvanceTimeout : ℕ
  rewardPuzzleHash : Hash

/-- The channel coin goes to the aggregate of the two channel keys. -/
def Setup.channelKey (s : Setup) : PublicKey :=
  publicKey s.privateKeys.myChannelCoinPrivateKey + s.theirChannelPubkey

/-- The channel before anything is signed. -/
def fresh (s : Setup) : ChannelState where
  privateKeys := s.privateKeys
  theirChannelCoinPublicKey := s.theirChannelPubkey
  theirUnrollCoinPublicKey := s.theirUnrollPubkey
  theirRefereePubkey := s.theirRefereePubkey
  theirRewardPuzzleHash := s.theirRewardPuzzleHash
  theirRewardPayoutSignature := s.theirRewardPayoutSignature
  rewardPuzzleHash := s.rewardPuzzleHash
  myOutOfGameBalance := s.myContribution
  theirOutOfGameBalance := s.theirContribution
  myAllocatedBalance := 0
  theirAllocatedBalance := 0
  havePotato := s.weStartWithPotato
  unrollAdvanceTimeout := s.unrollAdvanceTimeout
  cachedRedoActions := []
  stateNumber := 0
  myNextNonce := if s.weStartWithPotato then 0 else 1
  theirNextNonce := if s.weStartWithPotato then 1 else 0
  channelCoinSpend := {
    coin := ⟨s.launcherCoinId, puzzleHashForSyntheticPublicKey E s.channelKey,
      s.myContribution + s.theirContribution⟩
    bundle := ⟨.standard s.channelKey, .nil, 0⟩ }
  latestSentUnroll := ⟨⟨s.weStartWithPotato, 0, none⟩, .default⟩
  latestReceivedUnroll := none
  unrollPuzzleHashMap := []
  liveGames := []
  pendingSettlements := []
  proposedGames := []

def new (s : Setup) : Except Error ChannelState :=
  if s.theirChannelPubkey = publicKey s.privateKeys.myChannelCoinPrivateKey then
    .error (.channel "Duplicated channel coin public key")
  else if s.theirUnrollPubkey = publicKey s.privateKeys.myUnrollCoinPrivateKey then
    .error (.channel "Duplicated unroll coin public key")
  else if s.unrollAdvanceTimeout = 0 then
    .error (.channel "unroll_advance_timeout must be positive")
  else do
    let myself := fresh E s
    let sent : ChannelUnrollSpendInfo := { myself.latestSentUnroll with
      coin := myself.latestSentUnroll.coin.update E s.privateKeys.myUnrollCoinPrivateKey
        s.theirUnrollPubkey myself.currentInputs }
    let record ← myself.recordOf E sent
    let spend ← myself.createConditionsAndSignatureOfChannelCoin E sent.coin
    .ok { myself with
      latestSentUnroll := sent
      unrollPuzzleHashMap := insertRecord record []
      channelCoinSpend := ⟨myself.channelCoin, .standard s.channelKey, spend.solution,
        spend.signature⟩ }

def getInitialSignatures : Except Error StateUpdateSignatures := do
  .ok ⟨ch.channelCoinSpend.bundle.signature, ← ch.latestSentUnroll.coin.getUnrollCoinSignature⟩

def verifyAndStoreInitialPeerSignatures (signatures : StateUpdateSignatures) :
    Act Error ChannelState ChannelCoinSpendInfo := do
  let ch ← get
  let verified ← Act.lift (ch.latestSentUnroll.coin.verify E ch.getAggregateUnrollPublicKey
    signatures.unrollPreemptHalfSig)
  if ¬ verified then throw (.strErr "bad initial unroll signature" [])
  else
    let spend ← Act.lift (ch.createConditionsAndSignatureOfChannelCoin E ch.latestSentUnroll.coin)
    let verifiedSpend ← Act.lift (ch.verifyChannelCoinFromPeerSignatures E signatures.channelHalfSig
      spend.conditions)
    set { ch with
      channelCoinSpend := ⟨ch.channelCoinSpend.coin, .standard ch.getAggregateChannelPublicKey,
        verifiedSpend.solution, verifiedSpend.signature⟩
      latestReceivedUnroll := some ⟨ch.latestSentUnroll.coin, signatures⟩ }
    pure ⟨verifiedSpend.solution, verifiedSpend.conditions, verifiedSpend.signature⟩

/-! Sending and receiving the potato. -/

/-- The coin of the next state, from the state as it is now. -/
def nextUnrollCoin : UnrollCoin :=
  { ch.latestSentUnroll.coin with stateNumber := ch.stateNumber + 1 }.update E
    ch.privateKeys.myUnrollCoinPrivateKey ch.theirUnrollCoinPublicKey ch.currentInputs

def updateCachedUnrollState : Act Error ChannelState StateUpdateSignatures := do
  modify fun ch => { ch with
    stateNumber := ch.stateNumber + 1
    latestSentUnroll := { ch.latestSentUnroll with coin := ch.nextUnrollCoin E } }
  recordUnrollPuzzleHashFor E (← get).latestSentUnroll
  modify fun ch => { ch with
    latestSentUnroll := { ch.latestSentUnroll with signatures := .default }
    havePotato := false }
  let ch ← get
  let spend ← Act.lift (ch.createConditionsAndSignatureOfChannelCoin E ch.latestSentUnroll.coin)
  let ourHalf ← Act.lift ch.latestSentUnroll.coin.getUnrollCoinSignature
  pure ⟨spend.signature, ourHalf⟩

def sendEmptyPotato : Act Error ChannelState StateUpdateSignatures := updateCachedUnrollState E

def receivedPotatoVerifySignatures (signatures : StateUpdateSignatures) :
    Act Error ChannelState BrokenOutCoinSpendInfo := do
  modify fun ch => { ch with pendingSettlements := [] }
  let ch ← get
  let testUnroll := ch.nextUnrollCoin E
  let verified ← Act.lift (testUnroll.verify E ch.getAggregateUnrollPublicKey
    signatures.unrollPreemptHalfSig)
  if ¬ verified then throw (.strErr "bad unroll signature verify" [])
  else
    let spend ← Act.lift (ch.createConditionsAndSignatureOfChannelCoin E testUnroll)
    let _ ← Act.lift (ch.verifyChannelCoinFromPeerSignatures E signatures.channelHalfSig
      spend.conditions)
    modify fun ch => { ch with stateNumber := ch.stateNumber + 1 }
    let receivedInfo : ChannelUnrollSpendInfo := ⟨testUnroll, signatures⟩
    recordUnrollPuzzleHashFor E receivedInfo
    modify fun ch => { ch with
      latestReceivedUnroll := some receivedInfo
      havePotato := true }
    pure { spend with signature := spend.signature + signatures.channelHalfSig }

def verifyReceivedBatchSignatures (signatures : StateUpdateSignatures) :
    Act Error ChannelState ChannelCoinSpendInfo := do
  let spend ← receivedPotatoVerifySignatures E signatures
  modify fun ch => { ch with
    cachedRedoActions := ch.cachedRedoActions.filter fun entry =>
      match entry with
      | .cachedAcceptSettlement _ => true
      | _ => false }
  pure ⟨spend.solution, spend.conditions, spend.signature⟩

/-! The clean shutdown. -/

/-- The puzzle that the source puts beside the solution is not read by its caller. -/
def sendPotatoCleanShutdown (conditions : Clvm) : Except Error BrokenOutCoinSpendInfo :=
  ch.getSolutionAndSignatureFromConditions E conditions

def receivedPotatoCleanShutdown (theirChannelHalfSignature : Aggsig) (conditions : Clvm) :
    Except Error BrokenOutCoinSpendInfo :=
  ch.verifyChannelCoinFromPeerSignatures E theirChannelHalfSignature conditions

end ChannelState

end ChiaGaming
