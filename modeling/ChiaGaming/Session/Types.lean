import ChiaGaming.Channel.Dispute

namespace ChiaGaming

structure GameProposal where
  gameType : Bytes
  timeout : ℕ
  parameters : Clvm
  deriving DecidableEq

/-- A game of a proposal as it is sent. -/
structure WireGameSpec where
  gameId : GameID
  amount : ℕ
  senderContribution : ℕ
  receiverContribution : ℕ
  senderGoesFirst : Bool
  initialValidationProgramHash : Hash
  initialMove : Bytes
  initialMaxMoveSize : ℕ
  initialState : Clvm
  initialMoverShare : ℕ
  deriving DecidableEq

structure WireProposalGroup where
  start : GameProposal
  members : List WireGameSpec
  groupId : GameID
  deriving DecidableEq

inductive BatchAction where
  | proposeGroup (group : WireProposalGroup)
  | acceptProposal (gameId : GameID)
  | cancelProposal (gameId : GameID)
  | move (gameId : GameID) (details : GameMoveDetails)
  | acceptSettlement (gameId : GameID) (amount : ℕ)
  deriving DecidableEq

structure PeerBatch where
  actions : List BatchAction
  signatures : StateUpdateSignatures
  cleanShutdown : Option (Aggsig × Clvm)
  deriving DecidableEq

/-- The handshake's messages are told apart only as far as the later phases do. -/
inductive PeerMessage where
  | handshakeF
  | handshake
  | batch (b : PeerBatch)
  | cleanShutdownComplete (coinSpend : CoinSpend)
  | requestPotato
  | message (gameId : GameID) (data : Bytes)
  deriving DecidableEq

inductive PotatoState where
  | absent
  | requested
  | present
  deriving DecidableEq, Repr

inductive GameAction where
  | move (gameId : GameID) (readableMove : Clvm) (newEntropy : Hash)
  | acceptSettlement (gameId : GameID)
  | cleanShutdown
  | sendPotato
  | queuedProposalGroup (myGames : List GameStartInfo) (theirWire : WireProposalGroup)
  | queuedAcceptProposal (gameId : GameID)
  | queuedCancelProposal (gameId : GameID)
  | queuedCancelProposalSilently (gameId : GameID)
  | cheat (gameId : GameID) (moverShare : ℕ) (entropy : Hash)
  deriving DecidableEq

inductive FailedGameAction where
  | makeMove
  | acceptSettlement
  deriving DecidableEq

inductive CancelReason where
  | supersededByIncoming
  | peerProposalPending
  | cancelledByPeer
  | cancelledByUs
  | wentOnChain
  | cleanShutdown
  deriving DecidableEq

/-- The notifications of the off-chain phase. -/
inductive GameNotification where
  | gameStatus (gameId : GameID) (myTurn : Bool) (readable : Clvm) (moverShare : Option ℕ)
      (gameFinished : Bool)
  | gameSettled (gameId : GameID) (ourShare : ℕ)
  | proposalMade (gameId : GameID) (groupIds : List GameID) (myContribution theirContribution : ℕ)
      (timeout : ℕ) (initialValidationProgramHash : Hash) (initialState : Clvm) (gameType : Bytes)
  | proposalAccepted (gameId : GameID) (amount : ℕ)
  | proposalCancelled (gameId : GameID) (reason : CancelReason)
  | insufficientBalance (gameId : GameID) (ourBalanceShort theirBalanceShort : Bool)
  | actionFailed (gameId : Option GameID) (action : Option FailedGameAction) (reason : Error)
  | moveRejected (gameId : GameID) (tag message : Bytes)
  deriving DecidableEq

/-- The effects of the off-chain phase, its log lines left out. -/
inductive Effect where
  | notify (n : GameNotification)
  | peerBatch (b : PeerBatch)
  | peerRequestPotato
  | peerGameMessage (gameId : GameID) (data : Bytes)
  | peerCleanShutdownComplete (coinSpend : CoinSpend)
  | spendTransaction (spends : List CoinSpend)
  | queueTerminalHandoff (coinSpend : CoinSpend)
  | completeZeroPayoutShutdown
  | goOnChainAfterPeerError
  | requestPuzzleAndSolution (coin : CoinString)
  deriving DecidableEq

inductive ChannelSpendEntry where
  | channelSpend
  | channelConditions
  deriving DecidableEq

/-- The phase that watches the channel coin's spend, as the off-chain phase hands over to it. -/
structure SpendChannelCoinPhase where
  entry : ChannelSpendEntry
  channelCoin : CoinString
  channelState : Option ChannelState
  gameActionQueue : List GameAction
  havePotato : PotatoState
  advisory : Option String
  channelSpendStartedLocally : Option Bool
  expectedCleanShutdownSolution : Option Clvm
  lastChannelCoinSpendInfo : Option ChannelCoinSpendInfo
  deriving DecidableEq

structure OffChainPhase where
  initiator : Bool
  havePotato : PotatoState
  gameActionQueue : List GameAction
  lastFailedQueuedAction : Option (GameID × FailedGameAction)
  channelState : Option ChannelState
  -- the proposal factories by game type
  gameTypes : List (Bytes × Option Clvm)
  incomingMessages : List PeerMessage
  peerWantsPotato : Bool
  lastChannelCoinSpendInfo : Option ChannelCoinSpendInfo
  pendingCleanShutdown : Option (CoinString × Clvm)
  channelSpendNextPhase : Option SpendChannelCoinPhase
  deriving DecidableEq

/-! Proposal factories. -/

/-- A game of a factory's answer, seen from the sender of the proposal. -/
structure FactoryGame where
  senderContribution : ℕ
  receiverContribution : ℕ
  amount : ℕ
  senderGoesFirst : Bool
  initialValidationProgramHash : Hash
  initialMove : Bytes
  initialMaxMoveSize : ℕ
  initialState : Clvm
  initialMoverShare : ℕ
  myTurnHandler : Clvm
  theirTurnHandler : Clvm
  initialValidationProgram : Clvm
  deriving DecidableEq

namespace FactoryGame

def gameStart (f : FactoryGame) (gameId timeout : ℕ) (senderSide : Bool) : GameStartInfo where
  gameId
  amount := f.amount
  gameHandler :=
    if senderSide = f.senderGoesFirst then .myTurnHandler f.myTurnHandler
    else .theirTurnHandler f.theirTurnHandler
  timeout
  myContributionThisGame := if senderSide then f.senderContribution else f.receiverContribution
  theirContributionThisGame := if senderSide then f.receiverContribution else f.senderContribution
  initialValidationProgram := ⟨f.initialValidationProgram, f.initialValidationProgramHash⟩
  initialState := f.initialState
  initialMove := f.initialMove
  initialMaxMoveSize := f.initialMaxMoveSize
  initialMoverShare := f.initialMoverShare

/-- The game as it is sent. -/
def wireSpec (f : FactoryGame) (gameId : GameID) : WireGameSpec where
  gameId
  amount := f.amount
  senderContribution := f.senderContribution
  receiverContribution := f.receiverContribution
  senderGoesFirst := f.senderGoesFirst
  initialValidationProgramHash := f.initialValidationProgramHash
  initialMove := f.initialMove
  initialMaxMoveSize := f.initialMaxMoveSize
  initialState := f.initialState
  initialMoverShare := f.initialMoverShare

end FactoryGame

section Factory

variable (E : ChannelEnv)

def amountFromClvm (v : Clvm) : Except Error ℕ :=
  orError (v.bytes.bind u64FromAtom) (.strErr "bad amount" [])

/-- One record of a factory's answer. -/
def factoryGame (index : ℕ) (record : Clvm) : Except Error FactoryGame := do
  match record.properList with
  | some [sender, receiver, amount, turn, hash, move, size, state, share, myTurn, theirTurn,
      validator] =>
    let turnAtom ← orError turn.bytes
      (.strErr "proposal factory game sender_goes_first is not an atom" [.nat index])
    if turnAtom ≠ [] ∧ turnAtom ≠ [1] then
      .error (.strErr "proposal factory game sender_goes_first is not canonical boolean"
        [.nat index])
    else
      let declared ← orError hash.bytes (.strErr "hash is not an atom" [])
      let initialValidationProgramHash ← hashFromSlice declared
      if shatree E.sha256 validator ≠ initialValidationProgramHash then
        .error (.strErr "proposal factory game initial validator hash mismatch" [.nat index])
      else
        .ok {
          senderContribution := ← amountFromClvm sender
          receiverContribution := ← amountFromClvm receiver
          amount := ← amountFromClvm amount
          senderGoesFirst := turnAtom = [1]
          initialValidationProgramHash
          initialMove := ← orError move.bytes
            (.strErr "proposal factory game initial_move is not an atom" [.nat index])
          initialMaxMoveSize := ← orError (size.bytes.bind u64FromAtom)
            (.strErr "proposal factory game has invalid max move size" [.nat index])
          initialState := state
          initialMoverShare := ← orError (share.bytes.bind u64FromAtom)
            (.strErr "proposal factory game has invalid mover share" [.nat index])
          myTurnHandler := myTurn
          theirTurnHandler := theirTurn
          initialValidationProgram := validator }
  | some fields =>
    .error (.strErr "proposal factory game has a wrong number of fields, expected 12"
      [.nat index, .nat fields.length])
  | none => .error (.strErr "proposal factory game is not a proper list" [.nat index])

def factoryRecords : ℕ → List Clvm → Except Error (List FactoryGame)
  | _, [] => .ok []
  | index, record :: records => do
    .ok ((← factoryGame E index record) :: (← factoryRecords (index + 1) records))

def runFactory (program parameters : Clvm) : Except Error (List FactoryGame) := do
  let result ← orError (E.run program parameters) (.strErr "proposal factory failed" [])
  match result.properList with
  | none => .error (.strErr "proposal factory did not return a proper list" [])
  | some [] => .error (.strErr "proposal factory returned no games" [])
  | some records => factoryRecords E 0 records

end Factory

end ChiaGaming
