import ChiaGaming.Channel.State
import ChiaGaming.Common.CoinString
import ChiaGaming.Session.Types

namespace ChiaGaming

namespace Handshake

/-! What the players say to each other before there is a channel, and to their wallets. -/

/-- The launcher's program is known by its hash. -/
structure HandshakeEnv extends ChannelEnv where
  singletonLauncherHash : Hash

structure HandshakePayloadB where
  channelPublicKey : PublicKey
  unrollPublicKey : PublicKey
  rewardPuzzleHash : Hash
  refereePubkey : PublicKey
  rewardPayoutSignature : Aggsig
  channelKeyPop : Aggsig
  unrollKeyPop : Aggsig
  myContribution : ℕ
  theirContribution : ℕ
  deriving DecidableEq

/-- The spends of a bundle are the wallets' own, which nothing here looks into, and the launcher's. -/
inductive BundleSpend (W : Type) where
  | wallet (spend : W)
  | launcher (coin : Common.CoinString) (solution : Clvm)

abbrev SpendBundle (W : Type) := List (BundleSpend W)

inductive Message (W : Type) where
  | handshakeA (payload : HandshakePayloadB)
  | handshakeB (payload : HandshakePayloadB)
  | handshakeC (launcherCoin : Common.CoinString)
  | handshakeD (signatures : StateUpdateSignatures)
  | handshakeE (bundle : SpendBundle W) (signatures : StateUpdateSignatures)
  | handshakeF (bundle : SpendBundle W)
  -- the messages of the later phases
  | later (msg : PeerMessage)

/-- The messages as the later phases tell them apart. -/
def Message.kept {W : Type} : Message W → PeerMessage
  | .handshakeF _ => .handshakeF
  | .later msg => msg
  | _ => .handshake

structure HandshakeStepInfo where
  firstPlayerHsInfo : HandshakePayloadB
  secondPlayerHsInfo : HandshakePayloadB

structure HandshakeStepWithSpend (W : Type) where
  info : HandshakeStepInfo
  spend : SpendBundle W

structure RawCoinCondition where
  opcode : ℕ
  args : List Bytes
  deriving DecidableEq

structure CoinSpendRequest where
  amount : ℕ
  conditions : List RawCoinCondition
  coinId : Option Hash
  maxHeight : Option ℕ

def createCoinOpcode : ℕ := 51
def assertCoinAnnouncement : ℕ := 61

/-- The effects of the handshake, its log lines left out. -/
inductive Effect (W : Type) where
  | peerHandshake (msg : Message W)
  | channelPuzzleHash (puzzleHash : Hash)
  | needLauncherCoinId
  | registerCoin (coin : CoinString) (timeout : ℕ)
  | needCoinSpend (req : CoinSpendRequest)
  | spendTransaction (bundle : SpendBundle W) (deadline : Option ℕ)

/-- What a player brings to the table. -/
structure OffChainPhaseInit where
  privateKeys : ChannelPrivateKeys
  -- the proposal factories by game type
  gameTypes : List (Bytes × Option Clvm)
  myContribution : ℕ
  theirContribution : ℕ
  channelTimeout : ℕ
  unrollTimeout : ℕ
  rewardPuzzleHash : Hash

/-! The checks of a payload. -/

section Payloads

variable (E : HandshakeEnv)

def signRewardPayout (secretKey : PrivateKey) (rewardPuzzleHash : Hash) : Aggsig :=
  sign secretKey (rewardPayoutMessage rewardPuzzleHash)

def verifyRewardPayoutSignature (pubkey : PublicKey) (rewardPuzzleHash : Hash) (signature : Aggsig) : Bool :=
  verify pubkey (rewardPayoutMessage rewardPuzzleHash) signature

/-- The checks are made when a payload comes and again when the channel is made; the errors say which. -/
def HandshakePayloadB.check (msg : HandshakePayloadB) (payload place : String) : Except Error Unit :=
  if ¬ verifyRewardPayoutSignature msg.refereePubkey msg.rewardPuzzleHash msg.rewardPayoutSignature then
    .error (.channel ("Invalid reward payout signature in " ++ payload))
  else if ¬ verify msg.channelPublicKey (E.keyBytes msg.channelPublicKey) msg.channelKeyPop then
    .error (.channel ("Invalid proof-of-possession for channel key" ++ place))
  else if ¬ verify msg.unrollPublicKey (E.keyBytes msg.unrollPublicKey) msg.unrollKeyPop then
    .error (.channel ("Invalid proof-of-possession for unroll key" ++ place))
  else .ok ()

namespace OffChainPhaseInit

variable (phi : OffChainPhaseInit)

def checkContributions (msg : HandshakePayloadB) (payload : String) : Except Error Unit :=
  if msg.myContribution ≠ phi.theirContribution then
    .error (.channel (payload ++ " contribution mismatch: peer claims my_contribution=Amount(" ++
      toString msg.myContribution ++ ") but we expect their_contribution=Amount(" ++
      toString phi.theirContribution ++ ")"))
  else if msg.theirContribution ≠ phi.myContribution then
    .error (.channel (payload ++ " contribution mismatch: peer claims their_contribution=Amount(" ++
      toString msg.theirContribution ++ ") but we expect my_contribution=Amount(" ++
      toString phi.myContribution ++ ")"))
  else .ok ()

/-- A payload that comes from the peer. -/
def checkReceived (msg : HandshakePayloadB) (payload : String) : Except Error Unit := do
  msg.check E payload (" in " ++ payload)
  phi.checkContributions msg payload

/-- Our own payload. -/
def myHandshakeB : HandshakePayloadB where
  channelPublicKey := publicKey phi.privateKeys.myChannelCoinPrivateKey
  unrollPublicKey := publicKey phi.privateKeys.myUnrollCoinPrivateKey
  rewardPuzzleHash := phi.rewardPuzzleHash
  refereePubkey := publicKey phi.privateKeys.myRefereePrivateKey
  rewardPayoutSignature := signRewardPayout phi.privateKeys.myRefereePrivateKey phi.rewardPuzzleHash
  channelKeyPop := sign phi.privateKeys.myChannelCoinPrivateKey
    (E.keyBytes (publicKey phi.privateKeys.myChannelCoinPrivateKey))
  unrollKeyPop := sign phi.privateKeys.myUnrollCoinPrivateKey
    (E.keyBytes (publicKey phi.privateKeys.myUnrollCoinPrivateKey))
  myContribution := phi.myContribution
  theirContribution := phi.theirContribution

/-- The arguments of the channel with the player of a payload. -/
def setup (parent : Hash) (startPotato : Bool) (msg : HandshakePayloadB) : ChannelState.Setup where
  privateKeys := phi.privateKeys
  launcherCoinId := parent
  weStartWithPotato := startPotato
  theirChannelPubkey := msg.channelPublicKey
  theirUnrollPubkey := msg.unrollPublicKey
  theirRefereePubkey := msg.refereePubkey
  theirRewardPuzzleHash := msg.rewardPuzzleHash
  theirRewardPayoutSignature := msg.rewardPayoutSignature
  myContribution := phi.myContribution
  theirContribution := phi.theirContribution
  unrollAdvanceTimeout := phi.unrollTimeout
  rewardPuzzleHash := phi.rewardPuzzleHash

def makeChannelState (parent : Hash) (startPotato : Bool) (msg : HandshakePayloadB) :
    Except Error ChannelState := do
  msg.check E "handshake" ""
  ChannelState.new E.toChannelEnv (phi.setup parent startPotato msg)

end OffChainPhaseInit

end Payloads

/-! The launcher. -/

section Launcher

variable (E : HandshakeEnv)

def getCoinStringParts (coin : Common.CoinString) :
    Except Error (Common.CoinID × Common.PuzzleHash × Common.Amount) :=
  orError coin.toParts (.strErr "improper coin string" [])

def launcherCoinId (coin : Common.CoinString) : Hash := E.sha256 coin.bytes

/-- Only the launcher's puzzle makes a coin the launcher. -/
def checkLauncher (coin : Common.CoinString) : Except Error Unit := do
  let (_, launcherPh, _) ← getCoinStringParts coin
  if launcherPh.bytes ≠ E.singletonLauncherHash then
    .error (.channel "Launcher coin puzzle hash is not SINGLETON_LAUNCHER")
  else .ok ()

def launcherSolution (channelPuzzleHash : Hash) (totalAmount : ℕ) : Clvm :=
  .list [.atom channelPuzzleHash, .nat totalAmount, .nil]

/-- What the launcher announces when it is spent with its solution. -/
def computeCoinAnnouncementHash (launcherCoinId channelPuzzleHash : Hash) (totalAmount : ℕ) : Hash :=
  E.sha256 (launcherCoinId ++ shatree E.sha256 (launcherSolution channelPuzzleHash totalAmount))

end Launcher

end Handshake

end ChiaGaming
