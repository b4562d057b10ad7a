import ChiaGaming.Manager.Feed

namespace ChiaGaming

open Act

/-! What a report makes of the whole record of a watched coin. -/

namespace WatchedCoin

variable {B : Type}

def takenBack (height : ℕ) (w : WatchedCoin B) : WatchedCoin B :=
  { w with
    spentConfirmedAt := if w.spentConfirmedAt.any (height < ·) then none else w.spentConfirmedAt
    claimSubmitted := false }

def unborn (height : ℕ) (w : WatchedCoin B) : WatchedCoin B :=
  if w.bornAfter height then { w with birthday := none, claimSubmitted := false } else w

def sight (rec : CoinStateRecord) (w : WatchedCoin B) : WatchedCoin B :=
  { (rec.createdHeight.elim id born) w with
    spentConfirmedAt := rec.spentHeight.or w.spentConfirmedAt }

/-- The records of one coin, one after the other. -/
def sights (c : CoinString) (records : List CoinStateRecord) (w : WatchedCoin B) : WatchedCoin B :=
  records.foldl (fun w rec => if rec.coin = c then w.sight rec else w) w

def submit (height : ℕ) (w : WatchedCoin B) : WatchedCoin B :=
  if w.due height && w.timeoutSpend.isSome then { w with claimSubmitted := true } else w

/-- What the session has asked for: how long to wait, and what to send then. -/
def terms (w : WatchedCoin B) : ℕ × Option B := (w.timeoutBlocks, w.timeoutSpend)

/-- The records give the coin another birthday than the one it has. -/
def Reborn (c : CoinString) (records : List CoinStateRecord) (w : WatchedCoin B) : Prop :=
  ∃ rec ∈ records, rec.coin = c ∧ ∃ n, rec.createdHeight = some n ∧ w.birthday ≠ some n

variable {c : CoinString} {records : List CoinStateRecord} {height : ℕ} {w : WatchedCoin B}

theorem terms_sight (rec : CoinStateRecord) : (w.sight rec).terms = w.terms := by
  unfold sight
  cases rec.createdHeight with
  | none => rfl
  | some n =>
    simp only [Option.elim_some, born]
    split_ifs <;> rfl

theorem terms_sights : (w.sights c records).terms = w.terms := by
  induction records generalizing w with
  | nil => rfl
  | cons rec rest ih =>
    rw [sights, List.foldl_cons]
    refine (ih (w := if rec.coin = c then w.sight rec else w)).trans ?_
    split_ifs
    · exact terms_sight rec
    · rfl

theorem claimSubmitted_sight (rec : CoinStateRecord) :
    (w.sight rec).claimSubmitted = true ↔
      w.claimSubmitted = true ∧ ∀ n, rec.createdHeight = some n → w.birthday = some n := by
  unfold sight
  cases rec.createdHeight with
  | none => simp
  | some n =>
    simp only [Option.elim_some, born]
    split_ifs with h
    · simp [h]
    · simp [h]

theorem birthday_sight {rec : CoinStateRecord} (h : ∀ n, rec.createdHeight = some n → w.birthday = some n) :
    (w.sight rec).birthday = w.birthday := by
  unfold sight
  cases hcreated : rec.createdHeight with
  | none => rfl
  | some n => simp only [Option.elim_some, born, if_pos (h n hcreated)]

theorem claimSubmitted_sights : (w.sights c records).claimSubmitted = true ↔
    w.claimSubmitted = true ∧ ¬ w.Reborn c records := by
  induction records generalizing w with
  | nil => simp [sights, Reborn]
  | cons rec rest ih =>
    rw [sights, List.foldl_cons]
    refine (ih (w := if rec.coin = c then w.sight rec else w)).trans ?_
    by_cases hc : rec.coin = c
    · rw [if_pos hc, claimSubmitted_sight]
      constructor
      · rintro ⟨⟨hclaim, hborn⟩, hrest⟩
        refine ⟨hclaim, ?_⟩
        rintro ⟨rec', hmem, hcoin, n, hn, hne⟩
        rcases List.mem_cons.mp hmem with rfl | hmem
        · exact hne (hborn n hn)
        · exact hrest ⟨rec', hmem, hcoin, n, hn, by rwa [birthday_sight hborn]⟩
      · rintro ⟨hclaim, hnot⟩
        have hborn : ∀ n, rec.createdHeight = some n → w.birthday = some n := by
          intro n hn
          by_contra hne
          exact hnot ⟨rec, List.mem_cons_self, hc, n, hn, hne⟩
        refine ⟨⟨hclaim, hborn⟩, ?_⟩
        rintro ⟨rec', hmem, hcoin, n, hn, hne⟩
        rw [birthday_sight hborn] at hne
        exact hnot ⟨rec', List.mem_cons_of_mem _ hmem, hcoin, n, hn, hne⟩
    · rw [if_neg hc]
      simp only [Reborn, List.exists_mem_cons_iff, hc, false_and, false_or]

theorem terms_unborn : (w.unborn height).terms = w.terms := by
  rw [unborn]
  split_ifs <;> rfl

theorem claimSubmitted_unborn : (w.unborn height).claimSubmitted = true ↔
    w.claimSubmitted = true ∧ ¬ w.bornAfter height = true := by
  rw [unborn]
  split_ifs with h
  · simp [h]
  · simp [h]

end WatchedCoin

namespace TransactionManager

variable {C B O : Type}

section Lookup

variable {E : BundleEnv B} {height : ℕ} {records : List CoinStateRecord}
  {s : TransactionManager C B O} {c : CoinString}

theorem lookup_invalidate (reorg : Bool) :
    (invalidateTimeoutClaimsForRollbackEpoch height reorg s).2.watchedCoins.lookup c =
      (s.watchedCoins.lookup c).map fun w =>
        if reorg ∧ s.timeoutRollbackHeight ≠ some height then w.takenBack height else w := by
  rw [invalidateTimeoutClaimsForRollbackEpoch]
  cases reorg with
  | false =>
    simp only [Bool.not_false, if_true, Bool.false_eq_true, false_and, if_false]
    split_ifs
    · exact Option.map_id'.symm
    · exact Option.map_id'.symm
  | true =>
    simp only [Bool.not_true, Bool.false_eq_true, if_false, true_and]
    by_cases hepoch : s.timeoutRollbackHeight = some height
    · simp only [hepoch, if_true, ne_eq, not_true_eq_false, if_false]
      exact Option.map_id'.symm
    · simp only [hepoch, if_false, ne_eq, not_false_eq_true, if_true]
      exact Dict.lookup_update _ _

theorem lookup_startTally (reorg : Bool) (rearmed : List TimeoutClaimSemantic) :
    (startTally height reorg rearmed s).watched.lookup c =
      (s.watchedCoins.lookup c).map fun w => if reorg then w.unborn height else w := by
  rw [startTally]
  cases reorg with
  | false => exact Option.map_id'.symm
  | true => exact Dict.lookup_update _ _

theorem lookup_tallyRecord {reorg : Bool} {present : List CoinString} {t : Tally B}
    (rec : CoinStateRecord) : (tallyRecord reorg present t rec).watched.lookup c =
      (t.watched.lookup c).map fun w => if rec.coin = c then w.sight rec else w := by
  rw [tallyRecord]
  cases hw : t.watched.lookup rec.coin with
  | none =>
    by_cases hc : rec.coin = c
    · rw [hc] at hw
      simp [hw]
    · simp only [hc, if_false]
      exact Option.map_id'.symm
  | some w =>
    refine (Dict.lookup_update _ c).trans ?_
    congr 1
    funext w
    by_cases hc : rec.coin = c
    · subst hc
      simp only [if_true]
      rfl
    · rw [if_neg fun heq => hc heq.symm, if_neg hc]

theorem lookup_foldl {reorg : Bool} {present : List CoinString} {t : Tally B} :
    (records.foldl (tallyRecord reorg present) t).watched.lookup c =
      (t.watched.lookup c).map (WatchedCoin.sights c records) := by
  induction records generalizing t with
  | nil => exact Option.map_id'.symm
  | cons rec rest ih =>
    rw [List.foldl_cons, ih, lookup_tallyRecord, Option.map_map]
    rfl

/-- The rollback that a snapshot tells of has not been told of before. -/
def Rearms (height : ℕ) (s : TransactionManager C B O) : Prop :=
  height < s.lastSnapshotHeight ∧ s.timeoutRollbackHeight ≠ some height

instance (height : ℕ) (s : TransactionManager C B O) : Decidable (Rearms height s) := by
  unfold Rearms
  infer_instance

/-- What a snapshot leaves of the record of a coin, down to the claims. -/
def reported (E : BundleEnv B) (height : ℕ) (records : List CoinStateRecord)
    (s : TransactionManager C B O) (c : CoinString) (w : WatchedCoin B) : WatchedCoin B :=
  let w₁ := if Rearms height s then w.takenBack height else w
  let w₂ := if height < s.lastSnapshotHeight then w₁.unborn height else w₁
  let w₃ := w₂.sights c records
  if c ∈ (reconcile E height records s).1.deleted ∧ w₃.spentConfirmedAt.isNone then
    { w₃ with spentConfirmedAt := some height }
  else w₃

theorem lookup_reconcile : (reconcile E height records s).2.watchedCoins.lookup c =
    (s.watchedCoins.lookup c).map (reported E height records s c) := by
  obtain ⟨submitted, pending, heq⟩ := reconcile_eq E height records s
  have htally : (tally height records s).watched.lookup c = (s.watchedCoins.lookup c).map fun w =>
      ((if height < s.lastSnapshotHeight then
        (if Rearms height s then w.takenBack height else w).unborn height
        else if Rearms height s then w.takenBack height else w)).sights c records := by
    rw [tally, lookup_foldl, lookup_startTally, rolled, lookup_invalidate, Option.map_map,
      Option.map_map]
    congr 1
    funext w
    simp only [Function.comp_apply, decide_eq_true_eq, Rearms]
  rw [heq]
  refine (Dict.lookup_update _ c).trans ?_
  rw [htally, Option.map_map]
  rfl

theorem terms_reported (w : WatchedCoin B) :
    (reported E height records s c w).terms = w.terms := by
  unfold reported
  extract_lets w₁ w₂ w₃
  have h₁ : w₁.terms = w.terms := by
    unfold w₁
    split <;> rfl
  have h₂ : w₂.terms = w₁.terms := by
    unfold w₂
    split
    · exact WatchedCoin.terms_unborn
    · rfl
  have h₃ : w₃.terms = w.terms := WatchedCoin.terms_sights.trans (h₂.trans h₁)
  split_ifs
  · exact h₃
  · exact h₃

/-- The birthday that a claim counts from is another one after the snapshot. -/
def Rebirth (height : ℕ) (records : List CoinStateRecord) (s : TransactionManager C B O)
    (c : CoinString) (w : WatchedCoin B) : Prop :=
  (height < s.lastSnapshotHeight ∧ w.bornAfter height) ∨ w.Reborn c records

theorem claimSubmitted_reported (w : WatchedCoin B) :
    (reported E height records s c w).claimSubmitted = true ↔
      w.claimSubmitted = true ∧ ¬ Rearms height s ∧ ¬ Rebirth height records s c w := by
  unfold reported
  extract_lets w₁ w₂ w₃
  have h₁ : w₁.claimSubmitted = true ↔ w.claimSubmitted = true ∧ ¬ Rearms height s := by
    unfold w₁
    split_ifs with h
    · simp [h, WatchedCoin.takenBack]
    · simp [h]
  have hbirthday : w₁.birthday = w.birthday := by
    unfold w₁
    split_ifs <;> rfl
  have hafter : w₁.bornAfter height = w.bornAfter height := by
    rw [WatchedCoin.bornAfter, hbirthday, WatchedCoin.bornAfter]
  have h₃ : w₃.claimSubmitted = true ↔
      w.claimSubmitted = true ∧ ¬ Rearms height s ∧ ¬ Rebirth height records s c w := by
    refine WatchedCoin.claimSubmitted_sights.trans ?_
    by_cases hgone : height < s.lastSnapshotHeight ∧ w.bornAfter height
    · have h₂ : w₂.claimSubmitted = true ↔ False := by
        unfold w₂
        rw [if_pos hgone.1, WatchedCoin.claimSubmitted_unborn, hafter]
        simp [hgone.2]
      rw [h₂, Rebirth]
      simp [hgone]
    · have h₂ : w₂ = w₁ := by
        unfold w₂
        split_ifs with hreorg
        · rw [WatchedCoin.unborn, if_neg]
          rw [hafter]
          exact fun hborn => hgone ⟨hreorg, hborn⟩
        · rfl
      rw [h₂, h₁, and_assoc, Rebirth, WatchedCoin.Reborn, WatchedCoin.Reborn, hbirthday]
      simp only [hgone, false_or]
  split_ifs
  · exact h₃
  · exact h₃

end Lookup

/-! Which claims a call queues. -/

section Queues

variable [ManagedGameSession C B O] {E : BundleEnv B} {height : ℕ} {c : CoinString}

/-- The notices to the session that come before the claims. -/
def prepareClaims (rearmed : List TimeoutClaimSemantic) : Act Error (TransactionManager C B O) Unit := do
  reportTimeoutClaimRearms [] rearmed
  reconcileTimeoutClaimStatus

theorem updateTimeoutClaims_eq (height : ℕ) (rearmed : List TimeoutClaimSemantic) :
    (updateTimeoutClaims height rearmed : Act Error (TransactionManager C B O) Unit) =
      prepareClaims rearmed >>= fun _ => evaluateMatureTimeoutClaims height := by
  rw [updateTimeoutClaims, prepareClaims, bind_assoc]

theorem keeps_prepareClaims (rearmed : List TimeoutClaimSemantic) :
    Keeps (fun s : TransactionManager C B O => s.watchedCoins) (prepareClaims rearmed) := by
  refine (keeps_reportTimeoutClaimRearms (fun _ => keeps_onSession fun _ _ => rfl) _ _).bind
    fun _ => ?_
  refine keeps_get.bind fun s => keeps_ite (keeps_pure _) ?_
  exact (keeps_tellSubmitted (fun _ => keeps_onSession fun _ _ => rfl) _).bind fun _ =>
    keeps_modify fun _ => rfl

theorem lookup_evaluate (s : TransactionManager C B O) :
    ((evaluateMatureTimeoutClaims height).after s).watchedCoins.lookup c =
      (s.watchedCoins.lookup c).map (WatchedCoin.submit height) := by
  let s₁ : TransactionManager C B O := { s with
    watchedCoins := s.watchedCoins.update fun _ w => w.submit height }
  have hafter : (evaluateMatureTimeoutClaims height).after s = (submitClaims
      (s.watchedCoins.entries.filterMap fun e => if e.2.due height then
        e.2.timeoutSpend.map fun spend => (spend, e.2.timeoutClaimSemantic) else none)).after s₁ := by
    unfold evaluateMatureTimeoutClaims
    rw [after_bind_of_ok (get_apply s), after_bind_of_ok (modify_apply _ s)]
    rfl
  have hkeeps : Keeps (fun s : TransactionManager C B O => s.watchedCoins) (submitClaims
      (s.watchedCoins.entries.filterMap fun e => if e.2.due height then
        e.2.timeoutSpend.map fun spend => (spend, e.2.timeoutClaimSemantic) else none)) :=
    keeps_submitClaims (fun _ => keeps_onSession fun _ _ => rfl) (fun _ _ => rfl) _
  rw [hafter, show ((submitClaims _).after s₁).watchedCoins = s₁.watchedCoins from hkeeps s₁]
  exact Dict.lookup_update _ c

/-- The claims come after the observations of a report down to the session's last notice. -/
theorem lookup_announce (rearmed : List TimeoutClaimSemantic)
    (observations : Option (List CoinObservation)) (s : TransactionManager C B O) :
    ((announce height rearmed observations).after s).watchedCoins.lookup c =
      (s.watchedCoins.lookup c).map fun w =>
        if (prepareClaims rearmed).succeeds s then w.submit height else w := by
  have hprepare : ((prepareClaims rearmed).after s).watchedCoins = s.watchedCoins :=
    keeps_prepareClaims rearmed s
  have hlast : ((announce height rearmed observations).after s).watchedCoins =
      ((updateTimeoutClaims height rearmed).after s).watchedCoins := by
    rw [announce]
    cases hr : updateTimeoutClaims height rearmed s with
    | ok u s₁ =>
      rw [after_bind_of_ok hr, after_of_ok hr, after_onSession]
    | error e s₁ =>
      rw [after_of_error hr, after, bind_of_error hr]
  rw [hlast, updateTimeoutClaims_eq]
  cases hr : (prepareClaims rearmed : Act Error (TransactionManager C B O) Unit) s with
  | ok u s₁ =>
    rw [after_of_ok hr] at hprepare
    have hok : (prepareClaims rearmed).succeeds s = true := by rw [Act.succeeds, hr]
    simp only [after_bind_of_ok hr, hok, if_true, lookup_evaluate, hprepare]
  | error e s₁ =>
    rw [after_of_error hr] at hprepare
    have hfail : (prepareClaims rearmed).succeeds s = false := by rw [Act.succeeds, hr]
    simp only [hfail, Bool.false_eq_true, if_false, Option.map_id']
    rw [after, bind_of_error hr]
    exact congrArg (AList.lookup c) hprepare

/-- The claim of the coin is among those that the manager makes at this height. -/
def Claims (height : ℕ) (rearmed : List TimeoutClaimSemantic) (s : TransactionManager C B O)
    (c : CoinString) : Prop :=
  (prepareClaims rearmed).succeeds s = true ∧ ∃ w, s.watchedCoins.lookup c = some w ∧
    w.due height = true ∧ w.timeoutSpend.isSome = true

/-- The claims that are made are those that are sent, each once. -/
theorem pendingSubmissions_evaluate {s s' : TransactionManager C B O}
    (h : evaluateMatureTimeoutClaims height s = .ok () s') :
    s'.pendingSubmissions = s.pendingSubmissions ++ s.watchedCoins.entries.filterMap fun e =>
      if e.2.due height then e.2.timeoutSpend.map fun spend => (spend, none) else none := by
  have hsubmit : ∀ (claims : List (B × Option TimeoutClaimSemantic)) (t t' : TransactionManager C B O),
      submitClaims claims t = .ok () t' → t'.pendingSubmissions =
        t.pendingSubmissions ++ claims.map fun claim => (claim.1, none) := by
    intro claims
    induction claims with
    | nil =>
      intro t t' ht
      cases ht
      rw [List.map_nil, List.append_nil]
    | cons claim rest ih =>
      intro t t' ht
      obtain ⟨u, t₁, htell, ht₁⟩ := Act.bind_eq_ok.mp ht
      have hkeep : t₁.pendingSubmissions = t.pendingSubmissions :=
        (keeps_tellSubmitted (f := fun s : TransactionManager C B O => s.pendingSubmissions)
          (fun _ => keeps_onSession fun _ _ => rfl) _).ok htell
      rw [bind_of_ok (modify_apply _ t₁)] at ht₁
      rw [ih _ _ ht₁, List.map_cons, hkeep, List.append_assoc]
      rfl
  unfold evaluateMatureTimeoutClaims at h
  rw [bind_of_ok (get_apply s), bind_of_ok (modify_apply _ s)] at h
  rw [hsubmit _ _ _ h, List.map_filterMap]
  dsimp only
  congr 2
  funext e
  split_ifs
  · rw [Option.map_map]
    rfl
  · rfl

/-- What a height alone makes of the records before the claims. -/
def heightOnly (height : ℕ) (s : TransactionManager C B O) :
    Option (List TimeoutClaimSemantic) × TransactionManager C B O :=
  invalidateTimeoutClaimsForRollbackEpoch height (height < s.lastHeight)
    { s with lastHeight := height }

/-- The calls in which the claim of the coin is made. -/
def Queues (E : BundleEnv B) (s : TransactionManager (Recorded C) B O) (c : CoinString) :
    HostCall C → Prop
  | .reportHeight height => height ≤ maxReportedHeight ∧
      Claims height ((heightOnly height s).1.getD []) (heightOnly height s).2 c
  | .reportCoinStates height records => InRange height records ∧
      Claims height (reconcile E height records s).1.rearmed (reconcile E height records s).2 c
  | _ => False

end Queues

/-! The claims of a run, kept beside the manager. -/

/-- What a reader of the reports knows: the tip, the coins whose spend a lower tip has taken back
since the last snapshot, and the coins whose claim was made for the birthday and the tip they have. -/
structure Ledger where
  tip : ℕ
  returned : CoinString → Prop
  claimed : CoinString → Prop

def Ledger.start : Ledger := ⟨0, fun _ => False, fun _ => False⟩

section Ledger

variable [ManagedGameSession C B O] {E : BundleEnv B} {g : Ledger}
  {s : TransactionManager (Recorded C) B O} {c : CoinString}

/-- A spend on record that lies above a new, lower tip. -/
def Returns (height : ℕ) (s : TransactionManager (Recorded C) B O) (c : CoinString) : Prop :=
  ∃ k, trackOf s.watchedCoins c = some k ∧ k.spentConfirmedAt.any (height < ·) = true

/-- The claims that still count when a report comes: a lower tip and another birthday take a claim
back, and so does a new registration. -/
def Ledger.standing (g : Ledger) (s : TransactionManager (Recorded C) B O) (c : CoinString) :
    HostCall C → Prop
  | .flushAndCollect => g.claimed c ∧ ¬ WatchedAnew s c
  | .reportHeight height => g.claimed c ∧ ¬ (height ≤ maxReportedHeight ∧ height < g.tip)
  | .reportCoinStates height records => g.claimed c ∧ ¬ (InRange height records ∧
      (height < g.tip ∨ ∃ w, s.watchedCoins.lookup c = some w ∧ Rebirth height records s c w))
  | _ => g.claimed c

def Ledger.next (E : BundleEnv B) (g : Ledger) (s : TransactionManager (Recorded C) B O)
    (x : HostCall C) : Ledger where
  tip :=
    match x with
    | .reportHeight height => if height ≤ maxReportedHeight then height else g.tip
    | .reportCoinStates height records =>
      if height ≤ maxReportedHeight ∧ badHeight records = none then height else g.tip
    | _ => g.tip
  returned c :=
    match x with
    | .reportHeight height =>
      g.returned c ∨ (height ≤ maxReportedHeight ∧ height < g.tip ∧ Returns height s c)
    | .reportCoinStates height records => g.returned c ∧ ¬ InRange height records
    | _ => g.returned c
  claimed c := g.standing s c x ∨ Queues E s c x

/-- What the claim of a coin is made on: it has come up, is not spent, and is old enough. -/
def Mature (E : BundleEnv B) (g : Ledger) (s : TransactionManager (Recorded C) B O)
    (c : CoinString) : HostCall C → Prop
  | .reportHeight height => (c ∈ s.presentCoins ∨ (g.next E s (.reportHeight height)).returned c) ∧
      ∃ w b, s.watchedCoins.lookup c = some w ∧ w.birthday = some b ∧ b + w.timeoutBlocks ≤ height
  | .reportCoinStates height records => ShownLive c records ∧
      ∃ w b, (reconcile E height records s).2.watchedCoins.lookup c = some w ∧
        w.birthday = some b ∧ b + w.timeoutBlocks ≤ height
  | _ => False

/-- Claims are made on mature coins, once for each birthday and tip, and are armed again when the
tip falls or the birthday changes, and not otherwise. -/
structure Disciplined (E : BundleEnv B) (g : Ledger) (s : TransactionManager (Recorded C) B O)
    (x : HostCall C) : Prop where
  mature : ∀ c, Queues E s c x → Mature E g s c x
  once : ∀ c, Queues E s c x → ¬ g.standing s c x
  armed : ∀ c w, (serve E s x).watchedCoins.lookup c = some w →
    (w.claimSubmitted = true ↔ (g.next E s x).claimed c)

/-- No birthday of a watched coin, and none that a snapshot gives it, takes its timeout past 2^64. -/
def NoWrap (s : TransactionManager (Recorded C) B O) (records : List CoinStateRecord) : Prop :=
  ∀ c w, s.watchedCoins.lookup c = some w →
    (∀ b, w.birthday = some b → b + w.timeoutBlocks < 2 ^ 64) ∧
    ∀ rec ∈ records, rec.coin = c → ∀ b, rec.createdHeight = some b → b + w.timeoutBlocks < 2 ^ 64

/-- The calls after which the claims are what they should be.  A snapshot goes back behind the last
snapshot, at a height that no height alone has announced, just when it goes back behind the tip; and it
shows the coins whose spend was taken back. -/
def Sound (s : TransactionManager (Recorded C) B O) : HostCall C → Prop
  | .reportHeight _ => NoWrap s []
  | .reportCoinStates height records => NoWrap s records ∧
      (Rearms height s ↔ height < s.lastHeight) ∧
      ∀ c k, trackOf s.watchedCoins c = some k → (rolledTrack height s k).birthday.isSome →
        (rolledTrack height s k).spentConfirmedAt = none → c ∉ s.presentCoins →
          ShownLive c records ∨ ShownSpent c records
  | _ => True

def Keeping (E : BundleEnv B) (g : Ledger) (s : TransactionManager (Recorded C) B O) (x : HostCall C)
    (g' : Ledger) : Prop := g' = g.next E s x

def SoundlyKeeping (E : BundleEnv B) (g : Ledger) (s : TransactionManager (Recorded C) B O)
    (x : HostCall C) (g' : Ledger) : Prop := g' = g.next E s x ∧ Sound s x

/-- The invariant of a sound run. -/
structure Kept (g : Ledger) (s : TransactionManager (Recorded C) B O) : Prop where
  tip : g.tip = s.lastHeight
  epoch : ∀ e, s.timeoutRollbackHeight = some e → s.lastHeight ≤ e
  claimed : ∀ c w, s.watchedCoins.lookup c = some w → (w.claimSubmitted = true ↔ g.claimed c)
  live : ∀ c k, trackOf s.watchedCoins c = some k → k.birthday.isSome → k.spentConfirmedAt = none →
    c ∈ s.presentCoins ∨ g.returned c
  vanished : ∀ c ∈ s.presentCoins, c ∉ s.vanishedCoins

omit [ManagedGameSession C B O] in
theorem claimSubmitted_submit {height : ℕ} (w : WatchedCoin B) :
    (w.submit height).claimSubmitted = true ↔
      w.claimSubmitted = true ∨ (w.due height = true ∧ w.timeoutSpend.isSome = true) := by
  rw [WatchedCoin.submit]
  split_ifs with h
  · rw [Bool.and_eq_true] at h
    simp [h]
  · rw [Bool.and_eq_true] at h
    simp [h]

/-- A claim that is made counts, and one that counts was made or has stood. -/
theorem claimed_after {height : ℕ} {asked : Bool} {v w : WatchedCoin B}
    (h : (if asked then v.submit height else v) = w) : w.claimSubmitted = true ↔
      v.claimSubmitted = true ∨ (asked = true ∧ v.due height = true ∧ v.timeoutSpend.isSome = true) := by
  subst h
  cases asked with
  | false => simp
  | true =>
    rw [if_pos rfl, claimSubmitted_submit]
    simp

theorem due_iff {height : ℕ} {w : WatchedCoin B} : w.due height = true ↔
    (∃ b, w.birthday = some b ∧ (b + w.timeoutBlocks) % 2 ^ 64 ≤ height) ∧
      w.claimSubmitted = false ∧ w.spentConfirmedAt = none := by
  simp [WatchedCoin.due, WatchedCoin.ripe, Option.any_eq_true, and_assoc]

omit [ManagedGameSession C B O] in
theorem epoch_invalidate {height : ℕ} {reorg : Bool} {t : TransactionManager C B O} {e : ℕ}
    (h : (invalidateTimeoutClaimsForRollbackEpoch height reorg t).2.timeoutRollbackHeight = some e) :
    height ≤ e := by
  rw [invalidateTimeoutClaimsForRollbackEpoch] at h
  cases reorg with
  | false =>
    simp only [Bool.not_false, if_true] at h
    by_cases hpassed : t.timeoutRollbackHeight.any (· < height) = true
    · rw [if_pos hpassed] at h
      cases h
    · rw [if_neg hpassed] at h
      rw [Option.any_eq_true] at hpassed
      by_contra hlt
      exact hpassed ⟨e, h, decide_eq_true (Nat.not_le.mp hlt)⟩
  | true =>
    simp only [Bool.not_true, Bool.false_eq_true, if_false] at h
    split_ifs at h with hsame
    · rw [hsame] at h
      cases h
      exact Nat.le_refl _
    · cases h
      exact Nat.le_refl _

/-! A height alone. -/

omit [ManagedGameSession C B O] in
theorem lookup_heightOnly (height : ℕ) : (heightOnly height s).2.watchedCoins.lookup c =
    (s.watchedCoins.lookup c).map fun w =>
      if height < s.lastHeight ∧ s.timeoutRollbackHeight ≠ some height then w.takenBack height
      else w := by
  refine (lookup_invalidate _).trans ?_
  simp only [decide_eq_true_eq]

theorem reportHeight_of_le {height : ℕ} (h : height ≤ maxReportedHeight) :
    serve E s (.reportHeight height) =
      (announce height ((heightOnly height s).1.getD []) none).after (heightOnly height s).2 := by
  rw [serve, after, reportHeight, if_neg (Nat.not_lt.mpr h), bind_of_ok (get_apply s),
    bind_of_ok (set_apply _ _)]
  rfl

theorem reportHeight_of_gt {height : ℕ} (h : ¬ height ≤ maxReportedHeight) :
    serve E s (.reportHeight height) = s := by
  rw [serve, after, reportHeight, if_pos (Nat.not_le.mp h)]
  rfl

/-- The record of a coin before the claims of a height alone, and what it takes from before. -/
theorem Kept.heightOnly_record (h : Kept g s) {height : ℕ} (hle : height ≤ maxReportedHeight)
    {v : WatchedCoin B} (hv : (heightOnly height s).2.watchedCoins.lookup c = some v) :
    ∃ w, s.watchedCoins.lookup c = some w ∧ v.birthday = w.birthday ∧ v.terms = w.terms ∧
      (v.claimSubmitted = true ↔ g.standing s c (.reportHeight height)) ∧
      (v.spentConfirmedAt = none → w.spentConfirmedAt = none ∨
        (height < g.tip ∧ Returns height s c)) := by
  rw [lookup_heightOnly, Option.map_eq_some_iff] at hv
  obtain ⟨w, hw, rfl⟩ := hv
  refine ⟨w, hw, ?_⟩
  have hclaimed := h.claimed c w hw
  by_cases hback : height < s.lastHeight ∧ s.timeoutRollbackHeight ≠ some height
  · rw [if_pos hback]
    have hlt : height < g.tip := h.tip ▸ hback.1
    refine ⟨rfl, rfl, ?_, fun hnone => ?_⟩
    · simp [WatchedCoin.takenBack, Ledger.standing, hle, hlt]
    · by_cases hspent : w.spentConfirmedAt = none
      · exact .inl hspent
      · refine .inr ⟨hlt, w.track, ?_, ?_⟩
        · rw [trackOf, hw]
          rfl
        · by_contra hany
          rw [WatchedCoin.takenBack] at hnone
          dsimp only [WatchedCoin.track] at hany
          rw [if_neg hany] at hnone
          exact hspent hnone
  · rw [if_neg hback]
    have hnot : ¬ height < g.tip := by
      intro hlt
      rw [h.tip] at hlt
      refine hback ⟨hlt, fun hepoch => ?_⟩
      have := h.epoch height hepoch
      omega
    refine ⟨rfl, rfl, ?_, fun hnone => .inl hnone⟩
    rw [hclaimed, Ledger.standing]
    simp [hnot]

theorem Kept.disciplined_reportHeight (h : Kept g s) {height : ℕ} (hsound : Sound s (.reportHeight height)) :
    Disciplined E g s (.reportHeight height) := by
  refine ⟨fun c hq => ?_, fun c hq hstanding => ?_, fun c w hw => ?_⟩
  · obtain ⟨hle, -, v, hv, hdue, -⟩ := hq
    obtain ⟨w, hw, hbirthday, hterms, -, hspent⟩ := h.heightOnly_record hle hv
    obtain ⟨⟨b, hb, hripe⟩, -, hnone⟩ := due_iff.mp hdue
    have htimeout : v.timeoutBlocks = w.timeoutBlocks := congrArg Prod.fst hterms
    rw [hbirthday] at hb
    have hfits := (hsound c w hw).1 b hb
    rw [htimeout, Nat.mod_eq_of_lt hfits] at hripe
    refine ⟨?_, w, b, hw, hb, hripe⟩
    rcases hspent hnone with hunspent | ⟨hlt, hreturns⟩
    · have htrack : trackOf s.watchedCoins c = some w.track := by
        rw [trackOf, hw]
        rfl
      exact (h.live c _ htrack (Option.isSome_of_eq_some hb) hunspent).imp_right .inl
    · exact .inr (.inr ⟨hle, hlt, hreturns⟩)
  · obtain ⟨hle, -, v, hv, hdue, -⟩ := hq
    obtain ⟨w, hw, -, -, hclaimed, -⟩ := h.heightOnly_record hle hv
    obtain ⟨-, hfalse, -⟩ := due_iff.mp hdue
    rw [hclaimed.mpr hstanding] at hfalse
    cases hfalse
  · by_cases hle : height ≤ maxReportedHeight
    · rw [reportHeight_of_le hle, lookup_announce, Option.map_eq_some_iff] at hw
      obtain ⟨v, hv, hw⟩ := hw
      obtain ⟨-, -, -, -, hclaimed, -⟩ := h.heightOnly_record hle hv
      rw [claimed_after hw, hclaimed]
      refine or_congr_right ?_
      simp only [Queues, Claims, hle, true_and, hv, Option.some.injEq, exists_eq_left']
    · rw [reportHeight_of_gt hle] at hw
      rw [h.claimed c w hw]
      simp [Ledger.next, Ledger.standing, Queues, hle]

theorem books_reportHeight {height : ℕ} (h : height ≤ maxReportedHeight) :
    (serve E s (.reportHeight height)).books = (heightOnly height s).2.books := by
  rw [reportHeight_of_le h]
  exact keeps_books_announce _ _ _ _

theorem Kept.after_reportHeight (h : Kept g s) {height : ℕ}
    (hsound : Sound s (.reportHeight height)) :
    Kept (g.next E s (.reportHeight height)) (serve E s (.reportHeight height)) := by
  have harmed := (h.disciplined_reportHeight (E := E) hsound).armed
  by_cases hle : height ≤ maxReportedHeight
  · have hbooks := books_reportHeight (E := E) (s := s) hle
    obtain ⟨-, hpresent, hvanished, -, htrack⟩ := reportHeight_after (s := s) height
    obtain ⟨epoch, watched, hframe⟩ := invalidate_frame height (height < s.lastHeight)
      { s with lastHeight := height }
    simp only [books, Prod.mk.injEq] at hbooks
    obtain ⟨-, -, -, -, hheight, hepoch⟩ := hbooks
    have hlast : (serve E s (.reportHeight height)).lastHeight = height := by
      rw [hheight, heightOnly, hframe]
    refine ⟨?_, fun e he => ?_, harmed, fun c k hk hborn hspent => ?_, fun c hc => ?_⟩
    · rw [hlast]
      simp only [Ledger.next, hle, if_true]
    · rw [hlast]
      rw [hepoch] at he
      exact epoch_invalidate he
    · change c ∈ ((reportHeight height).after s).presentCoins ∨ _
      rw [hpresent]
      replace hk : trackOf ((reportHeight height).after s).watchedCoins c = some k := hk
      rw [htrack, Option.map_eq_some_iff] at hk
      obtain ⟨k₀, hk₀, rfl⟩ := hk
      split_ifs at hborn hspent with hback
      · exact .inr (.inr ⟨hle, h.tip ▸ hback.2.1, k₀, hk₀, hback.2.2.2⟩)
      · exact (h.live c k₀ hk₀ hborn hspent).imp_right .inl
    · change c ∉ ((reportHeight height).after s).vanishedCoins
      rw [hvanished]
      refine h.vanished c ?_
      rw [← hpresent]
      exact hc
  · rw [reportHeight_of_gt hle] at harmed ⊢
    refine ⟨?_, h.epoch, harmed, fun c k hk hborn hspent => ?_, h.vanished⟩
    · simp only [Ledger.next, hle, if_false]
      exact h.tip
    · exact (h.live c k hk hborn hspent).imp_right .inl

/-! A snapshot. -/

omit [ManagedGameSession C B O] in
/-- A coin that has come up and not gone is shown to be there. -/
theorem live_reconcile {height : ℕ} {records : List CoinStateRecord}
    (hvanished : ∀ c ∈ s.presentCoins, c ∉ s.vanishedCoins)
    (hshown : ∀ c k, trackOf s.watchedCoins c = some k → (rolledTrack height s k).birthday.isSome →
      (rolledTrack height s k).spentConfirmedAt = none → c ∉ s.presentCoins →
        ShownLive c records ∨ ShownSpent c records) {k : Track}
    (hk : trackOf (reconcile E height records s).2.watchedCoins c = some k)
    (hborn : k.birthday.isSome) (hspent : k.spentConfirmedAt = none) : ShownLive c records := by
  rw [trackOf_reconcile, Option.map_eq_some_iff] at hk
  obtain ⟨k₀, hk₀, rfl⟩ := hk
  dsimp only at hborn hspent
  rw [Option.or_eq_none_iff, Option.or_eq_none_iff] at hspent
  obtain ⟨⟨hlast, hrolled⟩, hdeleted⟩ := hspent
  have hnotSpent : ¬ ShownSpent c records := by
    intro hshow
    have := lastOf_isSome.mpr hshow
    rw [hlast] at this
    cases this
  by_contra hnot
  have hnotCreated : lastOf c CoinStateRecord.createdHeight records = none := by
    by_contra hsome
    obtain ⟨rec, hmem, hcoin, hcreated⟩ := lastOf_isSome.mp (Option.isSome_iff_ne_none.mpr hsome)
    refine hnot ⟨rec, hmem, hcoin, hcreated, ?_⟩
    by_contra hspent
    exact hnotSpent ⟨rec, hmem, hcoin, by simpa [Option.isSome_iff_ne_none] using hspent⟩
  rw [hnotCreated, Option.none_or] at hborn
  by_cases hpresent : c ∈ s.presentCoins
  · have hgone : ¬ c ∈ (tally height records s).vanished := by
      rw [mem_vanished]
      rintro ⟨hin | ⟨hreorg, k₁, hk₁, hafter⟩, -⟩
      · exact hvanished c hpresent hin
      · rw [hk₀] at hk₁
        cases hk₁
        rw [rolledTrack, if_pos hreorg] at hborn
        simp only [hafter, if_true] at hborn
        cases hborn
    have hin : c ∈ (reconcile E height records s).1.deleted := mem_deleted.mpr (.inl ⟨hpresent, hnot, hgone⟩)
    rw [if_pos hin] at hdeleted
    cases hdeleted
  · rcases hshown c k₀ hk₀ hborn hrolled hpresent with hlive | hspent
    · exact hnot hlive
    · exact hnotSpent hspent

/-- The record of a coin before the claims of a snapshot, and what it takes from before. -/
theorem Kept.reported_record (h : Kept g s) {height : ℕ} {records : List CoinStateRecord}
    (hrange : InRange height records) (htips : Rearms height s ↔ height < s.lastHeight)
    {v : WatchedCoin B} (hv : (reconcile E height records s).2.watchedCoins.lookup c = some v) :
    ∃ w, s.watchedCoins.lookup c = some w ∧ v = reported E height records s c w ∧
      (v.claimSubmitted = true ↔ g.standing s c (.reportCoinStates height records)) := by
  rw [lookup_reconcile, Option.map_eq_some_iff] at hv
  obtain ⟨w, hw, rfl⟩ := hv
  refine ⟨w, hw, rfl, ?_⟩
  rw [claimSubmitted_reported, h.claimed c w hw, htips, ← h.tip, Ledger.standing]
  simp only [hrange, true_and, hw, Option.some.injEq, exists_eq_left', not_or]

omit [ManagedGameSession C B O] in
/-- The birthdays after a snapshot are those of the records and those from before. -/
theorem reported_fits {height : ℕ} {records : List CoinStateRecord} (hfits : NoWrap s records)
    {w : WatchedCoin B} {b : ℕ} (hw : s.watchedCoins.lookup c = some w)
    (hb : (reported E height records s c w).birthday = some b) :
    b + (reported E height records s c w).timeoutBlocks < 2 ^ 64 := by
  have htimeout : (reported E height records s c w).timeoutBlocks = w.timeoutBlocks :=
    congrArg Prod.fst (terms_reported w)
  have htrack : trackOf (reconcile E height records s).2.watchedCoins c =
      some (reported E height records s c w).track := by
    rw [trackOf, lookup_reconcile, hw]
    rfl
  have hbefore : trackOf s.watchedCoins c = some w.track := by
    rw [trackOf, hw]
    rfl
  rw [trackOf_reconcile, hbefore, Option.map_some, Option.some.injEq] at htrack
  have hbirthday := congrArg Track.birthday htrack
  dsimp only [WatchedCoin.track] at hbirthday
  rw [hb, Option.or_eq_some_iff] at hbirthday
  rw [htimeout]
  rcases hbirthday with hlast | ⟨-, hrolled⟩
  · obtain ⟨rec, hmem, hcoin, hcreated⟩ := exists_of_lastOf hlast
    exact (hfits c w hw).2 rec hmem hcoin b hcreated
  · refine (hfits c w hw).1 b ?_
    by_cases hreorg : height < s.lastSnapshotHeight
    · rw [rolledTrack, if_pos hreorg] at hrolled
      dsimp only at hrolled
      split_ifs at hrolled
      exact hrolled
    · rw [rolledTrack, if_neg hreorg] at hrolled
      exact hrolled

/-- What is watched after a snapshot has come through the claims. -/
theorem lookup_reportCoinStates {height : ℕ} {records : List CoinStateRecord}
    (hrange : InRange height records) {w : WatchedCoin B}
    (hw : (serve E s (.reportCoinStates height records)).watchedCoins.lookup c = some w) :
    ((announce height (reconcile E height records s).1.rearmed
      (some (reconcile E height records s).1.observations)).after
        (reconcile E height records s).2).watchedCoins.lookup c = some w := by
  rw [serve, after, reportCoinStates_of_inRange hrange, bind_apply] at hw
  rw [after]
  cases hr : announce height (reconcile E height records s).1.rearmed
      (some (reconcile E height records s).1.observations) (reconcile E height records s).2 with
  | ok u s₁ =>
    rw [hr] at hw
    have hlookup : (s₁.evictConfirmedSpends E height).watchedCoins.lookup c = some w := hw
    rw [evictConfirmedSpends, Dict.lookup_retain, Option.filter_eq_some_iff] at hlookup
    exact hlookup.1
  | error e s₁ =>
    rw [hr] at hw
    exact hw

theorem Kept.disciplined_reportCoinStates (h : Kept g s) {height : ℕ} {records : List CoinStateRecord}
    (hsound : Sound s (.reportCoinStates height records)) :
    Disciplined E g s (.reportCoinStates height records) := by
  obtain ⟨hfits, htips, hshown⟩ := hsound
  refine ⟨fun c hq => ?_, fun c hq hstanding => ?_, fun c w hw => ?_⟩
  · obtain ⟨hrange, -, v, hv, hdue, -⟩ := hq
    obtain ⟨w, hw, rfl, -⟩ := h.reported_record hrange htips hv
    obtain ⟨⟨b, hb, hripe⟩, -, hnone⟩ := due_iff.mp hdue
    rw [Nat.mod_eq_of_lt (reported_fits hfits hw hb)] at hripe
    have htrack : trackOf (reconcile E height records s).2.watchedCoins c =
        some (reported E height records s c w).track := by
      rw [trackOf, hv]
      rfl
    exact ⟨live_reconcile h.vanished hshown htrack (Option.isSome_of_eq_some hb) hnone,
      _, b, hv, hb, hripe⟩
  · obtain ⟨hrange, -, v, hv, hdue, -⟩ := hq
    obtain ⟨w, hw, -, hclaimed⟩ := h.reported_record hrange htips hv
    obtain ⟨-, hfalse, -⟩ := due_iff.mp hdue
    rw [hclaimed.mpr hstanding] at hfalse
    cases hfalse
  · by_cases hrange : InRange height records
    · have hannounced := lookup_reportCoinStates hrange hw
      rw [lookup_announce, Option.map_eq_some_iff] at hannounced
      obtain ⟨v, hv, hw⟩ := hannounced
      obtain ⟨-, -, -, hclaimed⟩ := h.reported_record hrange htips hv
      rw [claimed_after hw, hclaimed]
      refine or_congr_right ?_
      simp only [Queues, Claims, hrange, true_and, hv, Option.some.injEq, exists_eq_left']
    · rw [serve, reportCoinStates_of_not_inRange hrange] at hw
      rw [h.claimed c w hw]
      simp [Ledger.next, Ledger.standing, Queues, hrange]

theorem tip_reportCoinStates {height : ℕ} {records : List CoinStateRecord}
    (hrange : InRange height records) :
    (serve E s (.reportCoinStates height records)).lastHeight = height ∧
      ∀ e, (serve E s (.reportCoinStates height records)).timeoutRollbackHeight = some e →
        height ≤ e := by
  let f := fun t : TransactionManager (Recorded C) B O => (t.lastHeight, t.timeoutRollbackHeight)
  have hkeeps : Keeps f (announce height (reconcile E height records s).1.rearmed
      (some (reconcile E height records s).1.observations) >>=
        fun _ => modify (evictConfirmedSpends E height)) := by
    refine Keeps.bind ?_ fun _ => keeps_modify fun _ => rfl
    refine Keeps.mono (keeps_books_announce _ _ _) fun t t' hbooks => ?_
    simp only [books, Prod.mk.injEq] at hbooks
    obtain ⟨-, -, -, -, hheight, hepoch⟩ := hbooks
    exact Prod.ext hheight hepoch
  have htip := hkeeps (reconcile E height records s).2
  rw [after, ← reportCoinStates_of_inRange hrange, ← after] at htip
  obtain ⟨hheight, hepoch⟩ := Prod.mk.inj htip
  obtain ⟨epoch, watched, hrolled⟩ := rolled_frame height s
  obtain ⟨submitted, pending, heq⟩ := reconcile_eq E height records s
  have hrolledHeight : (rolled height s).2.lastHeight = height := by rw [hrolled]
  rw [heq] at hheight hepoch
  refine ⟨hheight.trans hrolledHeight, fun e he => ?_⟩
  exact epoch_invalidate (hepoch.symm.trans he)

theorem Kept.after_reportCoinStates (h : Kept g s) {height : ℕ} {records : List CoinStateRecord}
    (hsound : Sound s (.reportCoinStates height records)) :
    Kept (g.next E s (.reportCoinStates height records))
      (serve E s (.reportCoinStates height records)) := by
  have harmed := (h.disciplined_reportCoinStates (E := E) hsound).armed
  by_cases hrange : InRange height records
  · obtain ⟨hlast, hepoch⟩ := tip_reportCoinStates (E := E) (s := s) hrange
    have hevicted : Evicted (reconcile E height records s).2
        (serve E s (.reportCoinStates height records)) := (reportCoinStates_after hrange).1
    refine ⟨?_, fun e he => ?_, harmed, fun c k hk hborn hspent => ?_, fun c hc hgone => ?_⟩
    · rw [hlast]
      exact if_pos hrange
    · rw [hlast]
      exact hepoch e he
    · rcases hevicted.coin c with ⟨htrack, hpresent⟩ | ⟨htrack, -⟩
      · rw [htrack] at hk
        rw [hpresent, mem_presentCoins_reconcile]
        exact .inl (live_reconcile h.vanished hsound.2.2 hk hborn hspent)
      · rw [htrack] at hk
        cases hk
    · have hlive : ShownLive c records :=
        mem_presentCoins_reconcile.mp (hevicted.present.subset hc)
      obtain ⟨htally, hnot⟩ := mem_vanishedCoins_reconcile.mp (hevicted.vanished hgone)
      obtain ⟨hbefore, hshown⟩ := mem_vanished.mp htally
      have hforward : ¬ height < s.lastSnapshotHeight := by
        intro hreorg
        obtain ⟨rec, hmem, hcoin, hcreated, -⟩ := hlive
        exact hshown ⟨hreorg, rec, hmem, hcoin, hcreated⟩
      have hpresent : c ∈ s.presentCoins := by
        by_contra habsent
        exact hnot (mem_created.mpr (.inl ⟨hlive, habsent⟩))
      rcases hbefore with hbefore | ⟨hreorg, -⟩
      · exact h.vanished c hpresent hbefore
      · exact hforward hreorg
  · have hsame : serve E s (.reportCoinStates height records) = s :=
      reportCoinStates_of_not_inRange hrange
    rw [hsame] at harmed ⊢
    refine ⟨?_, h.epoch, harmed, fun c k hk hborn hspent => ?_, h.vanished⟩
    · exact (if_neg hrange).trans h.tip
    · exact (h.live c k hk hborn hspent).imp_right fun hreturned => ⟨hreturned, hrange⟩

/-! The calls that report nothing. -/

def flag (watched : Dict CoinString (WatchedCoin B)) (c : CoinString) : Option Bool :=
  (watched.lookup c).map WatchedCoin.claimSubmitted

omit [ManagedGameSession C B O] in
theorem flag_registerWatch (coin : CoinString) (timeout : ℕ) (spend : Option B)
    (semantic : Option TimeoutClaimSemantic) (watched : Dict CoinString (WatchedCoin B)) :
    flag (registerWatch coin timeout spend semantic watched) c = flag watched c ∨
      (c = coin ∧ flag watched c = none ∧
        flag (registerWatch coin timeout spend semantic watched) c = some false) := by
  rw [registerWatch]
  by_cases hc : c = coin
  · subst hc
    cases hw : watched.lookup c with
    | none =>
      refine .inr ⟨rfl, ?_, ?_⟩
      · rw [flag, hw]
        rfl
      · rw [flag, AList.lookup_insert]
        rfl
    | some w =>
      refine .inl ?_
      simp only [flag, AList.lookup_insert, hw, Option.map_some]
      split_ifs <;> rfl
  · refine .inl ?_
    cases watched.lookup coin with
    | none => simp only [flag, AList.lookup_insert_ne hc]
    | some w => simp only [flag, AList.lookup_insert_ne hc]

omit [ManagedGameSession C B O] in
theorem flag_absorbEvents {C : Type} (events : List (SessionEvent B O))
    (t : TransactionManager C B O) :
    flag (absorbEvents events t).watchedCoins c = flag t.watchedCoins c ∨
      (Watches events c ∧ flag t.watchedCoins c = none ∧
        flag (absorbEvents events t).watchedCoins c = some false) := by
  induction events generalizing t with
  | nil => exact .inl rfl
  | cons event rest ih =>
    have hevent : flag (absorbEvent t event).watchedCoins c = flag t.watchedCoins c ∨
        (Watches (event :: rest) c ∧ flag t.watchedCoins c = none ∧
          flag (absorbEvent t event).watchedCoins c = some false) := by
      cases event with
      | outboundTransaction bundle expiry => exact .inl rfl
      | watchCoin coin timeout spend semantic =>
        refine (flag_registerWatch coin timeout spend semantic t.watchedCoins).imp_right ?_
        rintro ⟨rfl, h⟩
        exact ⟨⟨timeout, spend, semantic, List.mem_cons_self⟩, h⟩
      | other event => exact .inl rfl
    rw [absorbEvents, List.foldl_cons]
    rcases ih (absorbEvent t event) with h | ⟨⟨timeout, spend, semantic, hmem⟩, hnone, h⟩
    · rcases hevent with heq | ⟨hwatch, hnone, hfresh⟩
      · exact .inl (h.trans heq)
      · exact .inr ⟨hwatch, hnone, h.trans hfresh⟩
    · refine .inr ⟨⟨timeout, spend, semantic, List.mem_cons_of_mem _ hmem⟩, ?_, h⟩
      rcases hevent with heq | ⟨-, hnone', -⟩
      · exact heq ▸ hnone
      · exact hnone'

omit [ManagedGameSession C B O] in
theorem flag_eq_none {watched : Dict CoinString (WatchedCoin B)} :
    flag watched c = none ↔ trackOf watched c = none := by
  rw [flag, trackOf, Option.map_eq_none_iff, Option.map_eq_none_iff]

/-- A coin whose watch is registered anew has no claim, another keeps what it has. -/
theorem flag_flushAndCollect {claimed : Bool}
    (h : flag ((flushAndCollect : Act Error (TransactionManager (Recorded C) B O) _).after
      s).watchedCoins c = some claimed) :
    (¬ WatchedAnew s c ∧ flag s.watchedCoins c = some claimed) ∨
      (WatchedAnew s c ∧ claimed = false) := by
  cases hflush : ManagedGameSession.sessionFlushAndCollect s.cradle with
  | error e cradle =>
    have hr : onSession ManagedGameSession.sessionFlushAndCollect s =
        .error e { s with cradle := cradle } := by
      rw [onSession, hflush]
    rw [after, flushAndCollect, bind_of_error hr] at h
    refine .inl ⟨?_, h⟩
    rintro ⟨result, cradle', hok, -⟩
    rw [hflush] at hok
    cases hok
  | ok result cradle =>
    have hr : onSession ManagedGameSession.sessionFlushAndCollect s =
        .ok result { s with cradle := cradle } := by
      rw [onSession, hflush]
    let s₁ : TransactionManager (Recorded C) B O := { s with cradle := cradle }
    let s₂ := if result.resync.isSome then { s₁ with pendingResync := result.resync } else s₁
    let s₃ := if ManagedGameSession.isAbandoned s₂.cradle then s₂.discardLocalArtifacts else s₂
    have hafter : ((flushAndCollect : Act Error (TransactionManager (Recorded C) B O) _).after
        s).watchedCoins = (absorbEvents result.events s₃).watchedCoins := by
      rw [after, flushAndCollect, bind_of_ok hr]
      rfl
    have hs₂ : s₂.watchedCoins = s.watchedCoins ∧ s₂.cradle = cradle := by
      unfold s₂
      split_ifs
      · exact ⟨rfl, rfl⟩
      · exact ⟨rfl, rfl⟩
    have hs₃ : (ManagedGameSession.isAbandoned cradle = true ∧ flag s₃.watchedCoins c = none) ∨
        (¬ ManagedGameSession.isAbandoned cradle = true ∧
          flag s₃.watchedCoins c = flag s.watchedCoins c) := by
      unfold s₃
      rw [hs₂.2]
      split_ifs with habandoned
      · exact .inl ⟨habandoned, rfl⟩
      · exact .inr ⟨habandoned, by rw [hs₂.1]⟩
    have hanew : WatchedAnew s c ↔ Watches result.events c ∧
        (trackOf s.watchedCoins c = none ∨ ManagedGameSession.isAbandoned cradle = true) := by
      constructor
      · rintro ⟨result', cradle', hok, hwatch, hwhy⟩
        rw [hflush] at hok
        cases hok
        exact ⟨hwatch, hwhy⟩
      · rintro ⟨hwatch, hwhy⟩
        exact ⟨result, cradle, hflush, hwatch, hwhy⟩
    rw [hafter] at h
    rcases flag_absorbEvents (c := c) result.events s₃ with hsame | ⟨hwatch, hnone, hfresh⟩
    · rw [hsame] at h
      rcases hs₃ with ⟨-, hnone⟩ | ⟨habandoned, hkept⟩
      · rw [hnone] at h
        cases h
      · rw [hkept] at h
        refine .inl ⟨fun hwatched => ?_, h⟩
        rcases (hanew.mp hwatched).2 with hnone | hgone
        · rw [flag_eq_none.mpr hnone] at h
          cases h
        · exact habandoned hgone
    · rw [hfresh] at h
      refine .inr ⟨hanew.mpr ⟨hwatch, ?_⟩, (Option.some.inj h).symm⟩
      rcases hs₃ with ⟨habandoned, -⟩ | ⟨-, hkept⟩
      · exact .inr habandoned
      · exact .inl (flag_eq_none.mp (hkept ▸ hnone))

omit [ManagedGameSession C B O] in
theorem flag_eq_some {watched : Dict CoinString (WatchedCoin B)} {w : WatchedCoin B}
    (h : watched.lookup c = some w) : flag watched c = some w.claimSubmitted := by
  rw [flag, h]
  rfl

theorem Kept.disciplined_idle (h : Kept g s) {x : HostCall C} (hx : x.Idle) :
    Disciplined E g s x := by
  have hqueues : ∀ c, ¬ Queues E s c x := by
    intro c hq
    cases x with
    | reportHeight => exact hx
    | reportCoinStates => exact hx
    | session => exact hq
    | flushAndCollect => exact hq
    | drainSubmissions => exact hq
    | requeueSubmitted => exact hq
    | restore => exact hq
  have hsame : ∀ {c w}, (serve E s x).watchedCoins = s.watchedCoins →
      (serve E s x).watchedCoins.lookup c = some w → (g.standing s c x ↔ g.claimed c) →
        (w.claimSubmitted = true ↔ (g.next E s x).claimed c) := by
    intro c w hwatched hw hstanding
    rw [hwatched] at hw
    rw [h.claimed c w hw]
    change g.claimed c ↔ g.standing s c x ∨ Queues E s c x
    simp only [hqueues, or_false, hstanding]
  refine ⟨fun c hq => absurd hq (hqueues c), fun c hq => absurd hq (hqueues c), fun c w hw => ?_⟩
  cases x with
  | reportHeight => cases hx
  | reportCoinStates => cases hx
  | session => exact hsame rfl hw Iff.rfl
  | flushAndCollect =>
    change w.claimSubmitted = true ↔
      g.standing s c .flushAndCollect ∨ Queues E s c .flushAndCollect
    simp only [hqueues, or_false, Ledger.standing]
    rcases flag_flushAndCollect (flag_eq_some hw) with ⟨hkept, hflag⟩ | ⟨hanew, hfalse⟩
    · rw [flag, Option.map_eq_some_iff] at hflag
      obtain ⟨w₀, hw₀, hclaimed⟩ := hflag
      rw [← hclaimed, h.claimed c w₀ hw₀]
      simp only [hkept, not_false_eq_true, and_true]
    · rw [hfalse]
      simp only [hanew, not_true_eq_false, and_false, Bool.false_eq_true]
  | drainSubmissions =>
    refine hsame ?_ hw Iff.rfl
    exact keeps_drainSubmissions (f := fun s => s.watchedCoins) (fun _ _ => rfl) s
  | requeueSubmitted => exact hsame rfl hw Iff.rfl
  | restore => exact hsame rfl hw Iff.rfl

theorem Kept.after_idle (h : Kept g s) {x : HostCall C} (hx : x.Idle) :
    Kept (g.next E s x) (serve E s x) := by
  obtain ⟨hbetween, htrack⟩ := serve_of_idle (E := E) (s := s) hx
  have htip : (g.next E s x).tip = g.tip := by
    cases x with
    | reportHeight => cases hx
    | reportCoinStates => cases hx
    | _ => rfl
  have hreturned : (g.next E s x).returned = g.returned := by
    cases x with
    | reportHeight => cases hx
    | reportCoinStates => cases hx
    | _ => rfl
  refine ⟨?_, ?_, (h.disciplined_idle hx).armed, fun c k hk hborn hspent => ?_, fun c hc hgone => ?_⟩
  · rw [htip, h.tip, hbetween.height]
  · rw [hbetween.height, hbetween.epoch]
    exact h.epoch
  · rw [hbetween.present, hreturned]
    rcases htrack c with heq | hnone | ⟨-, -, hfresh⟩
    · rw [heq] at hk
      exact h.live c k hk hborn hspent
    · rw [hnone] at hk
      cases hk
    · rw [hfresh] at hk
      cases hk
      cases hborn
  · rw [hbetween.present] at hc
    exact h.vanished c hc (hbetween.vanished hgone)

theorem Kept.step (h : Kept g s) {x : HostCall C} (hsound : Sound s x) :
    Disciplined E g s x ∧ Kept (g.next E s x) (serve E s x) := by
  cases x with
  | reportHeight => exact ⟨h.disciplined_reportHeight hsound, h.after_reportHeight hsound⟩
  | reportCoinStates => exact ⟨h.disciplined_reportCoinStates hsound, h.after_reportCoinStates hsound⟩
  | session => exact ⟨h.disciplined_idle trivial, h.after_idle trivial⟩
  | flushAndCollect => exact ⟨h.disciplined_idle trivial, h.after_idle trivial⟩
  | drainSubmissions => exact ⟨h.disciplined_idle trivial, h.after_idle trivial⟩
  | requeueSubmitted => exact ⟨h.disciplined_idle trivial, h.after_idle trivial⟩
  | restore => exact ⟨h.disciplined_idle trivial, h.after_idle trivial⟩

theorem kept_of_served (h : Served E Ledger.start (SoundlyKeeping E) g s) : Kept g s := by
  induction h with
  | start c =>
    refine ⟨rfl, fun e he => ?_, fun c w hw => ?_, fun c k hk => ?_, fun c hc => ?_⟩
    · cases he
    · cases hw
    · cases hk
    · cases hc
  | call _ x hmay ih =>
    obtain ⟨rfl, hsound⟩ := hmay
    exact (ih.step hsound).2

theorem claims_disciplined (h : Served E Ledger.start (SoundlyKeeping E) g s) {x : HostCall C}
    (hsound : Sound s x) : Disciplined E g s x := ((kept_of_served h).step hsound).1

end Ledger

namespace Ripening

def coin : CoinString := ⟨[1], [2], 3⟩

def start (timeout : ℕ) : TransactionManager (Recorded MockGameSession) Unit Unit :=
  new ⟨⟨[⟨[.watchCoin coin timeout (some ()) none], none⟩]⟩, []⟩

def watching (timeout : ℕ) : TransactionManager (Recorded MockGameSession) Unit Unit :=
  serve MockGameSession.env (start timeout) .flushAndCollect

def records : List CoinStateRecord := [⟨coin, some 50, none⟩]

/-- With the longest timeout the claim of a coin is made fifty blocks after the coin's creation. -/
theorem claimed_early : ¬ ∀ g (s : TransactionManager (Recorded MockGameSession) Unit Unit),
    Served MockGameSession.env Ledger.start (Keeping MockGameSession.env) g s →
      ∀ x, Disciplined MockGameSession.env g s x := by
  intro h
  have hdisciplined := h _ (watching (2 ^ 64 - 1)) (.call (.start _) .flushAndCollect rfl)
    (.reportCoinStates 100 records)
  have hqueues : Queues MockGameSession.env (watching (2 ^ 64 - 1)) coin
      (.reportCoinStates 100 records) :=
    ⟨⟨by decide, by decide⟩, by decide, _, rfl, by decide, rfl⟩
  obtain ⟨-, w, b, hw, -, hripe⟩ := hdisciplined.mature coin hqueues
  cases hw
  have htimeout : 2 ^ 64 - 1 ≤ 100 := Nat.le_trans (Nat.le_add_left _ b) hripe
  omega

/-- A claim with a timeout of five blocks is made when the coin is fifty blocks old. -/
theorem claimed_once : Queues MockGameSession.env (watching 5) coin (.reportCoinStates 100 records) ∧
    ShownLive coin records := by
  have hq : Queues MockGameSession.env (watching 5) coin (.reportCoinStates 100 records) :=
    ⟨⟨by decide, by decide⟩, by decide, _, rfl, by decide, rfl⟩
  have hwatching : Served MockGameSession.env Ledger.start (SoundlyKeeping MockGameSession.env)
      (Ledger.start.next MockGameSession.env (start 5) .flushAndCollect) (watching 5) :=
    .call (.start _) .flushAndCollect ⟨rfl, trivial⟩
  have hsound : Sound (watching 5) (.reportCoinStates 100 records) := by
    refine ⟨fun c w hw => ?_, ?_, fun c k hk hborn => ?_⟩
    · by_cases hc : c = coin
      · subst hc
        cases hw
        refine ⟨fun b hb => (by cases hb), fun rec hrec _ b hb => ?_⟩
        rw [List.mem_singleton.mp hrec] at hb
        cases hb
        decide
      · have hnone : (watching 5).watchedCoins.lookup c = none :=
          (AList.lookup_insert_ne hc).trans rfl
        rw [hnone] at hw
        cases hw
    · exact ⟨fun hrearms => absurd hrearms.1 (by decide), fun hlower => absurd hlower (by decide)⟩
    · by_cases hc : c = coin
      · subst hc
        cases hk
        cases hborn
      · have hnone : (watching 5).watchedCoins.lookup c = none :=
          (AList.lookup_insert_ne hc).trans rfl
        rw [trackOf, hnone] at hk
        cases hk
  exact ⟨hq, ((claims_disciplined hwatching hsound).mature coin hq).1⟩

end Ripening

end TransactionManager

end ChiaGaming
