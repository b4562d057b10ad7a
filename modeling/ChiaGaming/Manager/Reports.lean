import ChiaGaming.Manager.Types

namespace ChiaGaming

namespace WatchedCoin

variable {B : Type}

/-- The semantic of a claim that counts as submitted. -/
def claimed (w : WatchedCoin B) : Option TimeoutClaimSemantic :=
  if w.claimSubmitted then w.timeoutClaimSemantic else none

/-- A birthday other than the one on record re-arms the claim. -/
def born (height : ℕ) (w : WatchedCoin B) : WatchedCoin B :=
  if w.birthday = some height then w else { w with birthday := some height, claimSubmitted := false }

def rearmedAt (height : ℕ) (w : WatchedCoin B) : Option TimeoutClaimSemantic :=
  if w.birthday = some height then none else w.claimed

def bornAfter (height : ℕ) (w : WatchedCoin B) : Bool := w.birthday.any (height < ·)

def ripe (height : ℕ) (w : WatchedCoin B) : Bool :=
  -- the sum is one of u64 values, which wrap in a release build
  w.birthday.any fun b => (b + w.timeoutBlocks) % 2 ^ 64 ≤ height

/-- Whether the claim is due and not yet made. -/
def due (height : ℕ) (w : WatchedCoin B) : Bool :=
  w.ripe height && !w.claimSubmitted && w.spentConfirmedAt.isNone

def buried (depth height : ℕ) (w : WatchedCoin B) : Bool :=
  w.spentConfirmedAt.any (· + depth ≤ height)

end WatchedCoin

namespace TransactionManager

variable {C B O : Type}

/-! The difference between a snapshot and the one before. -/

/-- A rollback takes back the claims, and the spends above the new tip, once for each tip. -/
def invalidateTimeoutClaimsForRollbackEpoch (height : ℕ) (isRollback : Bool)
    (s : TransactionManager C B O) :
    Option (List TimeoutClaimSemantic) × TransactionManager C B O :=
  if !isRollback then
    (none, if s.timeoutRollbackHeight.any (· < height) then { s with timeoutRollbackHeight := none }
      else s)
  else if s.timeoutRollbackHeight = some height then (none, s)
  else
    (some (s.watchedCoins.entries.filterMap fun e => e.2.claimed),
      { s with
        timeoutRollbackHeight := some height
        watchedCoins := s.watchedCoins.update fun _ w =>
          { w with
            spentConfirmedAt :=
              if w.spentConfirmedAt.any (height < ·) then none else w.spentConfirmedAt
            claimSubmitted := false } })

/-- What a report has found so far. -/
structure Tally (B : Type) where
  watched : Dict CoinString (WatchedCoin B)
  vanished : List CoinString
  newlyVanished : List CoinString
  presentNow : List CoinString
  firstSeenSpent : List CoinString
  rearmed : List TimeoutClaimSemantic

/-- The watched coins whose creation is above the new tip. -/
def vanish (height : ℕ) (t : Tally B) : Tally B :=
  let gone := t.watched.entries.filter fun e => e.2.bornAfter height
  let fresh := (gone.map Sigma.fst).filter (· ∉ t.vanished)
  { t with
    watched := t.watched.update fun _ w =>
      if w.bornAfter height then { w with birthday := none, claimSubmitted := false } else w
    rearmed := t.rearmed ++ gone.filterMap fun e => e.2.claimed
    newlyVanished := fresh
    vanished := fresh ++ t.vanished }

def tallyRecord (reorg : Bool) (present : List CoinString) (t : Tally B) (rec : CoinStateRecord) :
    Tally B :=
  let vanished :=
    if reorg && rec.createdHeight.isSome then t.vanished.filter (· ≠ rec.coin) else t.vanished
  let presentNow :=
    if rec.createdHeight.isSome && rec.spentHeight.isNone then t.presentNow.insert rec.coin
    else t.presentNow
  match t.watched.lookup rec.coin with
  | none => { t with vanished, presentNow }
  | some w =>
    let birth (w : WatchedCoin B) : WatchedCoin B := (rec.createdHeight.elim id WatchedCoin.born) w
    { t with
      vanished
      presentNow
      watched := t.watched.update fun coin w =>
        if coin = rec.coin then
          { birth w with spentConfirmedAt := rec.spentHeight.or w.spentConfirmedAt }
        else w
      rearmed := t.rearmed ++ (rec.createdHeight.bind w.rearmedAt).toList
      firstSeenSpent :=
        if rec.spentHeight.isSome && w.spentConfirmedAt.isNone && rec.coin ∉ present then
          t.firstSeenSpent ++ [rec.coin]
        else t.firstSeenSpent }

/-- The submissions that a report shows to have landed stay, those that lost their coins go. -/
def settleSubmissions (E : BundleEnv B) (records : List CoinStateRecord)
    (submitted : List (SubmittedTx B)) : List (SubmittedTx B) :=
  let observedCreated := (records.filter (·.createdHeight.isSome)).map CoinStateRecord.coin
  let spentInputs := (records.filter (·.spentHeight.isSome)).map fun rec => rec.coin.toCoinId E.sha256
  let landed := submitted.map fun tx =>
    if tx.expectedOutputCoins.any (· ∈ observedCreated) then { tx with landed := true } else tx
  landed.filter fun tx =>
    !tx.spentCoinIds.any (· ∈ spentInputs) || tx.landed || tx.expectedOutputCoins.isEmpty

/-- The transaction that created a vanished coin goes out again unless it has expired. -/
def resubmitVanished (height : ℕ) (s : TransactionManager C B O) (coin : CoinString) :
    TransactionManager C B O :=
  let creates (tx : SubmittedTx B) : Bool := coin.parent ∈ tx.spentCoinIds
  let late (tx : SubmittedTx B) : Bool := tx.expiry.any (· + channelExpiryBuffer ≤ height)
  let submitted := s.submitted.filter fun tx => !(creates tx && late tx)
  { s with
    submitted
    pendingSubmissions := s.pendingSubmissions ++
      ((submitted.filter creates).getLast?.map fun tx => (tx.bundle, tx.expiry)).toList }

/-- What a report has to say to the session. -/
structure Diff where
  created : List CoinString
  deleted : List CoinString
  rearmed : List TimeoutClaimSemantic

def Diff.observations (d : Diff) : List CoinObservation :=
  d.created.map .created ++ d.deleted.map .spent

/-- The tally before the first record. -/
def startTally (height : ℕ) (reorg : Bool) (rearmed : List TimeoutClaimSemantic)
    (s : TransactionManager C B O) : Tally B :=
  let t : Tally B := ⟨s.watchedCoins, s.vanishedCoins, [], [], [], rearmed⟩
  if reorg then vanish height t else t

/-- The new tip is taken over before the records are looked at. -/
def rolled (height : ℕ) (s : TransactionManager C B O) :
    Option (List TimeoutClaimSemantic) × TransactionManager C B O :=
  invalidateTimeoutClaimsForRollbackEpoch height (height < s.lastSnapshotHeight)
    { s with lastHeight := height, lastSnapshotHeight := height }

def tally (height : ℕ) (records : List CoinStateRecord) (s : TransactionManager C B O) : Tally B :=
  let reorg : Bool := height < s.lastSnapshotHeight
  records.foldl (tallyRecord reorg s.presentCoins)
    (startTally height reorg ((rolled height s).1.getD []) (rolled height s).2)

/-- The coins that the snapshot shows to have come and gone; a rolled back coin has done neither. -/
def Tally.diff (present : List CoinString) (t : Tally B) : Diff where
  created := t.firstSeenSpent.foldl (fun cs c => cs.insert c) (t.presentNow.filter (· ∉ present))
  deleted := t.firstSeenSpent.foldl (fun cs c => cs.insert c)
    ((present.filter (· ∉ t.presentNow)).filter (· ∉ t.vanished))
  rearmed := t.rearmed

/-- The bookkeeping after the records. -/
def booked (E : BundleEnv B) (height : ℕ) (records : List CoinStateRecord)
    (s : TransactionManager C B O) : TransactionManager C B O :=
  let t := tally height records s
  let d := t.diff s.presentCoins
  { (rolled height s).2 with
    -- a feed that leaves spent coins out has no spend height
    watchedCoins := t.watched.update fun coin w =>
      if coin ∈ d.deleted ∧ w.spentConfirmedAt.isNone then { w with spentConfirmedAt := some height }
      else w
    submitted := settleSubmissions E records s.submitted
    presentCoins := t.presentNow
    vanishedCoins := t.vanished.filter (· ∉ d.created) }

/-- A report down to the point where it calls the session. -/
def reconcile (E : BundleEnv B) (height : ℕ) (records : List CoinStateRecord)
    (s : TransactionManager C B O) : Diff × TransactionManager C B O :=
  ((tally height records s).diff s.presentCoins,
    (tally height records s).newlyVanished.foldl (resubmitVanished height)
      (booked E height records s))

/-! Calls to the session. -/

section Session

variable [ManagedGameSession C B O]

/-- Each semantic is told once. -/
def reportTimeoutClaimRearms : List TimeoutClaimSemantic → List TimeoutClaimSemantic →
    Act Error (TransactionManager C B O) Unit
  | _, [] => pure ()
  | reported, semantic :: rest =>
    if semantic ∈ reported then reportTimeoutClaimRearms reported rest
    else do
      onSession (ManagedGameSession.sessionTimeoutClaimRearmed semantic)
      reportTimeoutClaimRearms (semantic :: reported) rest

def tellSubmitted : List TimeoutClaimSemantic → Act Error (TransactionManager C B O) Unit
  | [] => pure ()
  | semantic :: rest => do
    onSession (ManagedGameSession.sessionTimeoutClaimSubmitted semantic)
    tellSubmitted rest

/-- After a restore the session learns again which claims were made. -/
def reconcileTimeoutClaimStatus : Act Error (TransactionManager C B O) Unit := do
  let s ← get
  if s.timeoutClaimStatusReconciled then pure ()
  else
    tellSubmitted (s.watchedCoins.entries.filterMap fun e =>
      if e.2.spentConfirmedAt.isNone then e.2.claimed else none)
    modify fun s => { s with timeoutClaimStatusReconciled := true }

def submitClaims : List (B × Option TimeoutClaimSemantic) →
    Act Error (TransactionManager C B O) Unit
  | [] => pure ()
  | (spend, semantic) :: rest => do
    tellSubmitted semantic.toList
    modify fun s => { s with pendingSubmissions := s.pendingSubmissions ++ [(spend, none)] }
    submitClaims rest

def evaluateMatureTimeoutClaims (height : ℕ) : Act Error (TransactionManager C B O) Unit := do
  let s ← get
  let toSubmit := s.watchedCoins.entries.filterMap fun e =>
    if e.2.due height then e.2.timeoutSpend.map fun spend => (spend, e.2.timeoutClaimSemantic)
    else none
  modify fun s => { s with
    watchedCoins := s.watchedCoins.update fun _ w =>
      if w.due height && w.timeoutSpend.isSome then { w with claimSubmitted := true } else w }
  submitClaims toSubmit

/-- The session learns of the claims that were taken back and of those that are due. -/
def updateTimeoutClaims (height : ℕ) (rearmed : List TimeoutClaimSemantic) :
    Act Error (TransactionManager C B O) Unit := do
  reportTimeoutClaimRearms [] rearmed
  reconcileTimeoutClaimStatus
  evaluateMatureTimeoutClaims height

/-- The calls of a report, from the claims to the observations. -/
def announce (height : ℕ) (rearmed : List TimeoutClaimSemantic)
    (observations : Option (List CoinObservation)) : Act Error (TransactionManager C B O) Unit := do
  updateTimeoutClaims height rearmed
  onSession (ManagedGameSession.sessionObserve height observations)

/-- Coins whose spend is deep enough are no longer watched. -/
def evictConfirmedSpends (E : BundleEnv B) (height : ℕ) (s : TransactionManager C B O) :
    TransactionManager C B O :=
  let evicted := (s.watchedCoins.entries.filter fun e =>
    e.2.buried s.confirmationDepth height).map Sigma.fst
  { s with
    watchedCoins := s.watchedCoins.retain fun _ w => !w.buried s.confirmationDepth height
    presentCoins := s.presentCoins.filter (· ∉ evicted)
    vanishedCoins := s.vanishedCoins.filter (· ∉ evicted)
    submitted := s.submitted.filter fun tx =>
      !tx.spentCoinIds.any (· ∈ evicted.map (CoinString.toCoinId E.sha256))
    pendingUnwatchCoins := s.pendingUnwatchCoins ++ evicted }

def reportHeight (height : ℕ) : Act Error (TransactionManager C B O) Unit := do
  if maxReportedHeight < height then
    throw (.strErr "report_height: height exceeds MAX_REPORTED_HEIGHT"
      [.nat height, .nat maxReportedHeight])
  else
    let s ← get
    let invalidated := invalidateTimeoutClaimsForRollbackEpoch height (height < s.lastHeight)
      { s with lastHeight := height }
    set invalidated.2
    announce height (invalidated.1.getD []) none

/-- The first height out of range that a record holds. -/
def badHeight (records : List CoinStateRecord) : Option ℕ :=
  (records.flatMap fun rec => rec.createdHeight.toList ++ rec.spentHeight.toList).find?
    (maxReportedHeight < ·)

def reportCoinStates (E : BundleEnv B) (height : ℕ) (records : List CoinStateRecord) :
    Act Error (TransactionManager C B O) Unit := do
  if maxReportedHeight < height then
    throw (.strErr "report_coin_states: height exceeds MAX_REPORTED_HEIGHT"
      [.nat height, .nat maxReportedHeight])
  else match badHeight records with
    | some h =>
      throw (.strErr "report_coin_states: coin height exceeds MAX_REPORTED_HEIGHT"
        [.nat h, .nat maxReportedHeight])
    | none =>
      let s ← get
      let reconciled := reconcile E height records s
      set reconciled.2
      announce height reconciled.1.rearmed (some reconciled.1.observations)
      modify (evictConfirmedSpends E height)

end Session

end TransactionManager

end ChiaGaming
