import ChiaGaming.Lib.Act
import ChiaGaming.Lib.Dict
import ChiaGaming.Channel.Types

namespace ChiaGaming

/-! The transaction manager: it turns polled coin states into observations for the session, and holds
on to the spends that the chain may roll back. -/

/-- The state of one coin as the polling layer reports it. -/
structure CoinStateRecord where
  coin : CoinString
  createdHeight : Option ℕ
  spentHeight : Option ℕ
  deriving DecidableEq

inductive CoinObservation where
  | created (coin : CoinString)
  | spent (coin : CoinString)
  deriving DecidableEq

inductive TimeoutClaimSemantic where
  | channelTimeoutFinish
  | gameOpponentTurn (gameId : GameID)
  deriving DecidableEq

structure WatchedCoin (B : Type) where
  timeoutBlocks : ℕ
  birthday : Option ℕ
  spentConfirmedAt : Option ℕ
  claimSubmitted : Bool
  timeoutSpend : Option B
  timeoutClaimSemantic : Option TimeoutClaimSemantic

structure SubmittedTx (B : Type) where
  bundle : B
  spentCoinIds : List Hash
  expectedOutputCoins : List CoinString
  landed : Bool
  expiry : Option ℕ

/-- The events of a session: `B` are its transactions, `O` what the manager passes on unread. -/
inductive SessionEvent (B O : Type) where
  | outboundTransaction (bundle : B) (expiry : Option ℕ)
  | watchCoin (coin : CoinString) (timeout : ℕ) (spend : Option B)
      (semantic : Option TimeoutClaimSemantic)
  | other (event : O)

structure DrainResult (B O : Type) where
  events : List (SessionEvent B O)
  resync : Option (ℕ × Bool)

structure ManagerDrain (O : Type) where
  events : List O
  watchCoins : List CoinString
  unwatchCoins : List CoinString
  resync : Option (ℕ × Bool)

/-- What the manager asks of a session.  No observations are a height alone. -/
class ManagedGameSession (C : Type) (B O : outParam Type) where
  sessionObserve : ℕ → Option (List CoinObservation) → Act Error C Unit
  sessionFlushAndCollect : Act Error C (DrainResult B O)
  sessionTimeoutClaimSubmitted : TimeoutClaimSemantic → Act Error C Unit
  sessionTimeoutClaimRearmed : TimeoutClaimSemantic → Act Error C Unit
  isAbandoned : C → Bool

/-- What the manager reads of a transaction: the coins that it spends and those that its puzzles
create. -/
structure BundleEnv (B : Type) where
  sha256 : Bytes → Bytes
  spends : B → List CoinString
  expectedOutputCoins : B → Except Error (List CoinString)

structure TransactionManager (C B O : Type) where
  cradle : C
  watchedCoins : Dict CoinString (WatchedCoin B)
  pendingSubmissions : List (B × Option ℕ)
  pendingEvents : List O
  pendingWatchCoins : List CoinString
  pendingUnwatchCoins : List CoinString
  pendingResync : Option (ℕ × Bool)
  confirmationDepth : ℕ
  lastHeight : ℕ
  lastSnapshotHeight : ℕ
  timeoutRollbackHeight : Option ℕ
  timeoutClaimStatusReconciled : Bool
  vanishedCoins : List CoinString
  submitted : List (SubmittedTx B)
  presentCoins : List CoinString

def defaultConfirmationDepth : ℕ := 32

def channelExpiryBuffer : ℕ := 6

def maxReportedHeight : ℕ := 1000000000000

/-- The tighter of two expiries. -/
def minExpiry : Option ℕ → Option ℕ → Option ℕ
  | some a, some b => some (min a b)
  | some v, none => some v
  | none, some v => some v
  | none, none => none

def WatchedCoin.new {B : Type} (timeoutBlocks : ℕ) : WatchedCoin B :=
  ⟨timeoutBlocks, none, none, false, none, none⟩

namespace TransactionManager

variable {C B O : Type}

def new (cradle : C) : TransactionManager C B O where
  cradle
  watchedCoins := ∅
  pendingSubmissions := []
  pendingEvents := []
  pendingWatchCoins := []
  pendingUnwatchCoins := []
  pendingResync := none
  confirmationDepth := defaultConfirmationDepth
  lastHeight := 0
  lastSnapshotHeight := 0
  timeoutRollbackHeight := none
  timeoutClaimStatusReconciled := false
  vanishedCoins := []
  submitted := []
  presentCoins := []

/-- A call to the session inside the manager. -/
def onSession {α : Type} (x : Act Error C α) : Act Error (TransactionManager C B O) α := fun s =>
  match x s.cradle with
  | .ok a c => .ok a { s with cradle := c }
  | .error e c => .error e { s with cradle := c }

/-! Transactions for the network. -/

section Submissions

variable (E : BundleEnv B)

def spentCoinIds (bundle : B) : List Hash := (E.spends bundle).map (CoinString.toCoinId E.sha256)

/-- The outputs of the pending transactions that are not yet among the submitted ones. -/
def newOutputs (submitted : List (SubmittedTx B)) :
    List (B × Option ℕ) → Except Error (List (Option (List CoinString)))
  | [] => .ok []
  | (bundle, _) :: rest => do
    let outputs ←
      if submitted.any fun tx => tx.spentCoinIds = spentCoinIds E bundle then pure none
      else some <$> E.expectedOutputCoins bundle
    let others ← newOutputs submitted rest
    pure (outputs :: others)

/-- A transaction that spends the same coins as an earlier one tightens that one's expiry. -/
def track (submitted : List (SubmittedTx B)) :
    (B × Option ℕ) × Option (List CoinString) → List (SubmittedTx B)
  | ((bundle, expiry), outputs) =>
    let ids := spentCoinIds E bundle
    if submitted.any fun tx => tx.spentCoinIds = ids then
      submitted.modify (submitted.findIdx fun tx => tx.spentCoinIds = ids)
        fun tx => { tx with expiry := minExpiry tx.expiry expiry }
    else match outputs with
      | some outputs => submitted ++ [⟨bundle, ids, outputs, false, expiry⟩]
      | none => submitted

def drainSubmissions : Act Error (TransactionManager C B O) (List B) := do
  let s ← get
  let outputs ← Act.lift (newOutputs E s.submitted s.pendingSubmissions)
  set { s with
    pendingSubmissions := []
    submitted := (s.pendingSubmissions.zip outputs).foldl (track E) s.submitted }
  pure (s.pendingSubmissions.map Prod.fst)

/-- Whether a transaction can no longer be included. -/
def expired (height : ℕ) (expiry : Option ℕ) : Bool := expiry.any (· ≤ height)

def requeueSubmitted (s : TransactionManager C B O) : TransactionManager C B O :=
  let submitted := s.submitted.filter fun tx => !expired s.lastHeight tx.expiry
  { s with
    submitted
    pendingSubmissions := s.pendingSubmissions ++ submitted.map fun tx => (tx.bundle, tx.expiry) }

end Submissions

/-! Events of the session. -/

def registerWatch (coin : CoinString) (timeout : ℕ) (spend : Option B)
    (semantic : Option TimeoutClaimSemantic) (watched : Dict CoinString (WatchedCoin B)) :
    Dict CoinString (WatchedCoin B) :=
  let claim (w : WatchedCoin B) : WatchedCoin B :=
    if spend.isSome then { w with timeoutSpend := spend, timeoutClaimSemantic := semantic } else w
  match watched.lookup coin with
  | some w => watched.insert coin (claim { w with timeoutBlocks := timeout })
  | none => watched.insert coin
      { WatchedCoin.new (B := B) timeout with timeoutSpend := spend, timeoutClaimSemantic := semantic }

def absorbEvent (s : TransactionManager C B O) : SessionEvent B O → TransactionManager C B O
  | .outboundTransaction bundle expiry =>
    { s with pendingSubmissions := s.pendingSubmissions ++ [(bundle, expiry)] }
  | .watchCoin coin timeout spend semantic =>
    { s with
      pendingWatchCoins := s.pendingWatchCoins ++ [coin]
      watchedCoins := registerWatch coin timeout spend semantic s.watchedCoins }
  | .other event => { s with pendingEvents := s.pendingEvents ++ [event] }

def absorbEvents (events : List (SessionEvent B O)) (s : TransactionManager C B O) :
    TransactionManager C B O :=
  events.foldl absorbEvent s

def discardLocalArtifacts (s : TransactionManager C B O) : TransactionManager C B O :=
  { s with
    pendingSubmissions := []
    pendingEvents := []
    pendingWatchCoins := []
    pendingUnwatchCoins := []
    pendingResync := none
    watchedCoins := ∅
    submitted := []
    vanishedCoins := [] }

def flushAndCollect [ManagedGameSession C B O] :
    Act Error (TransactionManager C B O) (ManagerDrain O) := do
  let result ← onSession ManagedGameSession.sessionFlushAndCollect
  modify fun s => if result.resync.isSome then { s with pendingResync := result.resync } else s
  modify fun s => if ManagedGameSession.isAbandoned s.cradle then s.discardLocalArtifacts else s
  modify (absorbEvents result.events)
  let s ← get
  modify fun s => { s with
    pendingEvents := []
    pendingWatchCoins := []
    pendingUnwatchCoins := []
    pendingResync := none }
  pure ⟨s.pendingEvents, s.pendingWatchCoins, s.pendingUnwatchCoins, s.pendingResync⟩

end TransactionManager

end ChiaGaming
