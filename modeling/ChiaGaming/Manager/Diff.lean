import ChiaGaming.Manager.Reports

namespace ChiaGaming

/-! What a report makes of the records of one coin. -/

section Records

variable (c : CoinString) (records : List CoinStateRecord)

/-- The last value that the records of a coin give. -/
def lastOf (f : CoinStateRecord → Option ℕ) : List CoinStateRecord → Option ℕ
  | [] => none
  | rec :: rest => (lastOf f rest).or (if rec.coin = c then f rec else none)

def ShownLive : Prop :=
  ∃ rec ∈ records, rec.coin = c ∧ rec.createdHeight.isSome ∧ rec.spentHeight.isNone

def ShownSpent : Prop := ∃ rec ∈ records, rec.coin = c ∧ rec.spentHeight.isSome

def ShownCreated : Prop := ∃ rec ∈ records, rec.coin = c ∧ rec.createdHeight.isSome

variable {c records}

theorem lastOf_isSome {f : CoinStateRecord → Option ℕ} :
    (lastOf c f records).isSome ↔ ∃ rec ∈ records, rec.coin = c ∧ (f rec).isSome := by
  induction records with
  | nil => simp [lastOf]
  | cons rec rest ih =>
    rw [lastOf, Option.isSome_or, Bool.or_eq_true, ih]
    by_cases hc : rec.coin = c
    · simp [hc, or_comm]
    · simp [hc]

theorem exists_of_lastOf {f : CoinStateRecord → Option ℕ} {n : ℕ} (h : lastOf c f records = some n) :
    ∃ rec ∈ records, rec.coin = c ∧ f rec = some n := by
  induction records with
  | nil => cases h
  | cons rec rest ih =>
    rw [lastOf, Option.or_eq_some_iff] at h
    rcases h with h | ⟨-, h⟩
    · obtain ⟨rec', hmem, hrec⟩ := ih h
      exact ⟨rec', List.mem_cons_of_mem _ hmem, hrec⟩
    · split_ifs at h with hc
      exact ⟨rec, List.mem_cons_self, hc, h⟩

end Records

/-- The birthday and the spend of a coin that the manager has on record. -/
structure Track where
  birthday : Option ℕ
  spentConfirmedAt : Option ℕ

def Track.see (birthday spent : Option ℕ) (k : Track) : Track :=
  ⟨birthday.or k.birthday, spent.or k.spentConfirmedAt⟩

theorem Track.see_see (k : Track) (b b' s s' : Option ℕ) :
    (k.see b s).see b' s' = k.see (b'.or b) (s'.or s) := by
  simp only [see, Option.or_assoc]

theorem Track.see_none (k : Track) : k.see none none = k := rfl

def WatchedCoin.track {B : Type} (w : WatchedCoin B) : Track := ⟨w.birthday, w.spentConfirmedAt⟩

def trackOf {B : Type} (watched : Dict CoinString (WatchedCoin B)) (c : CoinString) : Option Track :=
  (watched.lookup c).map WatchedCoin.track

theorem WatchedCoin.born_birthday {B : Type} (height : ℕ) (w : WatchedCoin B) :
    (w.born height).birthday = some height := by
  rw [born]
  split_ifs with h
  · exact h
  · rfl

theorem trackOf_update {B : Type} {watched : Dict CoinString (WatchedCoin B)} {c : CoinString}
    {f : CoinString → WatchedCoin B → WatchedCoin B} (g : Track → Track)
    (h : ∀ w, (f c w).track = g w.track) :
    trackOf (watched.update f) c = (trackOf watched c).map g := by
  rw [trackOf, trackOf, Dict.lookup_update, Option.map_map, Option.map_map]
  congr 1
  funext w
  exact h w

namespace TransactionManager

variable {C B O : Type}

/-! The tally, coin by coin. -/

section Tally

variable {reorg : Bool} {present : List CoinString} {t : Tally B} {records : List CoinStateRecord}
  {c : CoinString}

theorem trackOf_tallyRecord (rec : CoinStateRecord) :
    trackOf (tallyRecord reorg present t rec).watched c = (trackOf t.watched c).map
      (Track.see (if rec.coin = c then rec.createdHeight else none)
        (if rec.coin = c then rec.spentHeight else none)) := by
  rw [tallyRecord]
  by_cases hc : rec.coin = c
  · subst hc
    cases hw : t.watched.lookup rec.coin with
    | none => simp [trackOf, hw]
    | some w =>
      refine trackOf_update _ fun w => ?_
      cases rec.createdHeight with
      | none => simp [WatchedCoin.track, Track.see]
      | some h => simp [WatchedCoin.track, Track.see, WatchedCoin.born_birthday]
  · rw [if_neg hc, if_neg hc]
    cases t.watched.lookup rec.coin with
    | none => exact Option.map_id'.symm
    | some w =>
      refine trackOf_update _ fun w => ?_
      rw [if_neg fun heq => hc heq.symm]
      rfl

theorem trackOf_foldl : trackOf (records.foldl (tallyRecord reorg present) t).watched c =
    (trackOf t.watched c).map (Track.see (lastOf c CoinStateRecord.createdHeight records)
      (lastOf c CoinStateRecord.spentHeight records)) := by
  induction records generalizing t with
  | nil => exact Option.map_id'.symm
  | cons rec rest ih =>
    rw [List.foldl_cons, ih, trackOf_tallyRecord, Option.map_map]
    congr 1
    funext k
    exact k.see_see ..

theorem presentNow_tallyRecord (rec : CoinStateRecord) :
    (tallyRecord reorg present t rec).presentNow =
      if rec.createdHeight.isSome && rec.spentHeight.isNone then t.presentNow.insert rec.coin
      else t.presentNow := by
  rw [tallyRecord]
  cases t.watched.lookup rec.coin <;> rfl

theorem mem_presentNow_foldl : c ∈ (records.foldl (tallyRecord reorg present) t).presentNow ↔
    c ∈ t.presentNow ∨ ShownLive c records := by
  induction records generalizing t with
  | nil => simp [ShownLive]
  | cons rec rest ih =>
    rw [List.foldl_cons, ih, presentNow_tallyRecord]
    simp only [ShownLive, List.exists_mem_cons_iff, Bool.and_eq_true]
    split_ifs with hlive
    · simp only [List.mem_insert_iff, hlive, and_true, eq_comm (a := c)]
      tauto
    · simp only [hlive, and_false, false_or]

theorem nodup_presentNow_foldl (h : t.presentNow.Nodup) :
    (records.foldl (tallyRecord reorg present) t).presentNow.Nodup := by
  induction records generalizing t with
  | nil => exact h
  | cons rec rest ih =>
    rw [List.foldl_cons]
    refine ih ?_
    rw [presentNow_tallyRecord]
    split_ifs
    · exact h.insert
    · exact h

theorem vanished_tallyRecord (rec : CoinStateRecord) :
    (tallyRecord reorg present t rec).vanished =
      if reorg && rec.createdHeight.isSome then t.vanished.filter (· ≠ rec.coin)
      else t.vanished := by
  rw [tallyRecord]
  cases t.watched.lookup rec.coin <;> rfl

theorem mem_vanished_foldl : c ∈ (records.foldl (tallyRecord reorg present) t).vanished ↔
    c ∈ t.vanished ∧ ¬ (reorg ∧ ShownCreated c records) := by
  induction records generalizing t with
  | nil => simp [ShownCreated]
  | cons rec rest ih =>
    rw [List.foldl_cons, ih, vanished_tallyRecord]
    simp only [ShownCreated, List.exists_mem_cons_iff, Bool.and_eq_true]
    split_ifs with hgone
    · simp only [List.mem_filter, hgone, and_true, true_and, decide_not, Bool.not_eq_true',
        decide_eq_false_iff_not, eq_comm (a := c), not_or, and_assoc]
    · rw [not_and] at hgone
      refine and_congr_right fun _ => not_congr (and_congr_right fun hreorg => ?_)
      rw [or_iff_right]
      exact fun h => hgone hreorg h.2

/-- A coin that is seen spent before it was seen alive. -/
def FirstSpent (present : List CoinString) (watched : Dict CoinString (WatchedCoin B))
    (records : List CoinStateRecord) (c : CoinString) : Prop :=
  (∃ k, trackOf watched c = some k ∧ k.spentConfirmedAt = none) ∧ c ∉ present ∧
    ShownSpent c records

theorem mem_firstSeenSpent_tallyRecord (rec : CoinStateRecord) :
    c ∈ (tallyRecord reorg present t rec).firstSeenSpent ↔
      c ∈ t.firstSeenSpent ∨ (rec.coin = c ∧ rec.spentHeight.isSome ∧ c ∉ present ∧
        ∃ k, trackOf t.watched c = some k ∧ k.spentConfirmedAt = none) := by
  rw [tallyRecord]
  cases hw : t.watched.lookup rec.coin with
  | none =>
    refine (or_iff_left ?_).symm
    rintro ⟨rfl, -, -, k, hk, -⟩
    rw [trackOf, hw] at hk
    cases hk
  | some w =>
    have htrack : ∀ k, trackOf t.watched rec.coin = some k ↔ k = w.track := by
      intro k
      rw [trackOf, hw, Option.map_some, Option.some.injEq, eq_comm]
    dsimp only
    split_ifs with hfirst
    · simp only [Bool.and_eq_true, Option.isNone_iff_eq_none, decide_eq_true_eq] at hfirst
      rw [List.mem_append, List.mem_singleton]
      refine or_congr_right ⟨?_, fun h => h.1.symm⟩
      rintro rfl
      exact ⟨rfl, hfirst.1.1, hfirst.2, w.track, (htrack _).mpr rfl, hfirst.1.2⟩
    · refine (or_iff_left ?_).symm
      rintro ⟨rfl, hspent, hpresent, k, hk, hnone⟩
      obtain rfl := (htrack k).mp hk
      refine hfirst ?_
      simp only [Bool.and_eq_true, Option.isNone_iff_eq_none, decide_eq_true_eq]
      exact ⟨⟨hspent, hnone⟩, hpresent⟩

theorem mem_firstSeenSpent_foldl :
    c ∈ (records.foldl (tallyRecord reorg present) t).firstSeenSpent ↔
      c ∈ t.firstSeenSpent ∨ FirstSpent present t.watched records c := by
  induction records generalizing t with
  | nil => simp [FirstSpent, ShownSpent]
  | cons rec rest ih =>
    rw [List.foldl_cons, ih, mem_firstSeenSpent_tallyRecord]
    simp only [FirstSpent, trackOf_tallyRecord, ShownSpent, List.exists_mem_cons_iff,
      Option.map_eq_some_iff]
    by_cases hc : rec.coin = c ∧ rec.spentHeight.isSome
    · -- the first record of a spend is the one that counts
      obtain ⟨h, hspent⟩ := Option.isSome_iff_exists.mp hc.2
      simp [hc.1, hspent, Track.see, and_comm]
    · have hnone : (if rec.coin = c then rec.spentHeight else none) = none := by
        split_ifs with heq
        · exact Option.not_isSome_iff_eq_none.mp fun hsome => hc ⟨heq, hsome⟩
        · rfl
      simp only [hnone, hc, false_or, ← and_assoc, false_and, or_false, Track.see, Option.none_or]
      simp [and_assoc]

end Tally

/-! The whole report, coin by coin. -/

section Reconcile

variable {E : BundleEnv B} {height : ℕ} {records : List CoinStateRecord}
  {s : TransactionManager C B O} {c : CoinString}

/-- What a rollback leaves of the records; a tip that was seen to roll back before keeps the spends. -/
def rolledTrack (height : ℕ) (s : TransactionManager C B O) (k : Track) : Track :=
  if height < s.lastSnapshotHeight then
    ⟨if k.birthday.any (height < ·) then none else k.birthday,
      if s.timeoutRollbackHeight ≠ some height ∧ k.spentConfirmedAt.any (height < ·) then none
      else k.spentConfirmedAt⟩
  else k

/-- The rollback takes the creation of the coin away. -/
def Unborn (s : TransactionManager C B O) (height : ℕ) (c : CoinString) : Prop :=
  ∃ k, trackOf s.watchedCoins c = some k ∧ k.birthday.any (height < ·)

theorem invalidate_frame (height : ℕ) (reorg : Bool) (s : TransactionManager C B O) : ∃ epoch watched,
    (invalidateTimeoutClaimsForRollbackEpoch height reorg s).2 =
      { s with timeoutRollbackHeight := epoch, watchedCoins := watched } := by
  rw [invalidateTimeoutClaimsForRollbackEpoch]
  split_ifs
  · exact ⟨_, _, rfl⟩
  · exact ⟨_, _, rfl⟩
  · exact ⟨_, _, rfl⟩
  · exact ⟨_, _, rfl⟩

theorem trackOf_invalidate (reorg : Bool) :
    trackOf (invalidateTimeoutClaimsForRollbackEpoch height reorg s).2.watchedCoins c =
      (trackOf s.watchedCoins c).map fun k =>
        if reorg ∧ s.timeoutRollbackHeight ≠ some height ∧ k.spentConfirmedAt.any (height < ·) then
          { k with spentConfirmedAt := none }
        else k := by
  rw [invalidateTimeoutClaimsForRollbackEpoch]
  cases reorg with
  | false =>
    simp only [Bool.not_false, if_true, Bool.false_eq_true, false_and, if_false]
    split_ifs
    · exact Option.map_id'.symm
    · exact Option.map_id'.symm
  | true =>
    simp only [Bool.not_true, Bool.false_eq_true, if_false, true_and]
    by_cases hepoch : s.timeoutRollbackHeight = some height
    · simp only [hepoch, if_true, ne_eq, not_true_eq_false, false_and, if_false]
      exact Option.map_id'.symm
    · simp only [hepoch, if_false, ne_eq, not_false_eq_true, true_and]
      refine trackOf_update _ fun w => ?_
      dsimp only [WatchedCoin.track]
      split_ifs
      · rfl
      · rfl

theorem trackOf_startTally (reorg : Bool) (rearmed : List TimeoutClaimSemantic) :
    trackOf (startTally height reorg rearmed s).watched c = (trackOf s.watchedCoins c).map fun k =>
      if reorg ∧ k.birthday.any (height < ·) then { k with birthday := none } else k := by
  rw [startTally]
  cases reorg with
  | false =>
    simp only [Bool.false_eq_true, false_and, if_false]
    exact Option.map_id'.symm
  | true =>
    simp only [if_true, true_and]
    refine trackOf_update _ fun w => ?_
    by_cases hborn : w.bornAfter height
    · rw [if_pos hborn, if_pos (show w.track.birthday.any (height < ·) from hborn)]
      rfl
    · rw [if_neg hborn, if_neg (show ¬ w.track.birthday.any (height < ·) from hborn)]

theorem mem_vanished_startTally (reorg : Bool) (rearmed : List TimeoutClaimSemantic) :
    c ∈ (startTally height reorg rearmed s).vanished ↔
      c ∈ s.vanishedCoins ∨ (reorg ∧ Unborn s height c) := by
  rw [startTally]
  cases reorg with
  | false => simp
  | true =>
    have hgone : c ∈ (s.watchedCoins.entries.filter fun e => e.2.bornAfter height).map Sigma.fst ↔
        Unborn s height c := by
      simp only [List.mem_map, List.mem_filter, Unborn, trackOf, Option.map_eq_some_iff,
        Dict.lookup_eq_some]
      constructor
      · rintro ⟨⟨c', w⟩, ⟨hmem, hborn⟩, rfl⟩
        exact ⟨_, ⟨w, hmem, rfl⟩, hborn⟩
      · rintro ⟨k, ⟨w, hmem, rfl⟩, hborn⟩
        exact ⟨⟨c, w⟩, ⟨hmem, hborn⟩, rfl⟩
    simp only [if_true, vanish, List.mem_append, List.mem_filter, hgone, decide_eq_true_eq, true_and]
    tauto

theorem resubmit_eq (coins : List CoinString) : ∃ submitted pending,
    coins.foldl (resubmitVanished height) s =
      { s with submitted, pendingSubmissions := pending } := by
  induction coins generalizing s with
  | nil => exact ⟨_, _, rfl⟩
  | cons coin rest ih =>
    obtain ⟨submitted, pending, h⟩ := ih (s := resubmitVanished height s coin)
    exact ⟨submitted, pending, h⟩

theorem trackOf_rolled (rearmed : List TimeoutClaimSemantic) :
    trackOf (startTally height (height < s.lastSnapshotHeight) rearmed (rolled height s).2).watched c =
      (trackOf s.watchedCoins c).map (rolledTrack height s) := by
  rw [trackOf_startTally, rolled, trackOf_invalidate, Option.map_map]
  congr 1
  funext k
  by_cases hreorg : height < s.lastSnapshotHeight
  · simp only [Function.comp_apply, hreorg, rolledTrack, decide_true, true_and, if_true]
    split_ifs <;> rfl
  · simp only [Function.comp_apply, hreorg, rolledTrack, decide_false, Bool.false_eq_true,
      false_and, if_false]

theorem trackOf_tally : trackOf (tally height records s).watched c =
    (trackOf s.watchedCoins c).map fun k =>
      (rolledTrack height s k).see (lastOf c CoinStateRecord.createdHeight records)
        (lastOf c CoinStateRecord.spentHeight records) := by
  rw [tally, trackOf_foldl, trackOf_rolled, Option.map_map]
  rfl

theorem rolled_frame (height : ℕ) (s : TransactionManager C B O) : ∃ epoch watched, (rolled height s).2 = { s with
    lastHeight := height, lastSnapshotHeight := height
    timeoutRollbackHeight := epoch, watchedCoins := watched } := invalidate_frame _ _ _

/-- The coin is seen spent before it was seen alive, as far as the manager remembers. -/
def FirstSpentIn (height : ℕ) (records : List CoinStateRecord) (s : TransactionManager C B O)
    (c : CoinString) : Prop :=
  (∃ k, trackOf s.watchedCoins c = some k ∧ (rolledTrack height s k).spentConfirmedAt = none) ∧
    c ∉ s.presentCoins ∧ ShownSpent c records

theorem mem_firstSeenSpent : c ∈ (tally height records s).firstSeenSpent ↔
    FirstSpentIn height records s c := by
  have hstart : ∀ rearmed, (startTally height (height < s.lastSnapshotHeight) rearmed
      (rolled height s).2).firstSeenSpent = [] := by
    intro rearmed
    rw [startTally]
    split <;> rfl
  rw [tally, mem_firstSeenSpent_foldl, hstart, FirstSpent, trackOf_rolled, FirstSpentIn]
  simp [and_comm]

theorem presentNow_startTally (reorg : Bool) (rearmed : List TimeoutClaimSemantic) :
    (startTally height reorg rearmed s).presentNow = [] := by
  rw [startTally]
  split <;> rfl

theorem mem_presentNow : c ∈ (tally height records s).presentNow ↔ ShownLive c records := by
  rw [tally, mem_presentNow_foldl, presentNow_startTally]
  simp

theorem nodup_presentNow : (tally height records s).presentNow.Nodup := by
  rw [tally]
  refine nodup_presentNow_foldl ?_
  rw [presentNow_startTally]
  exact List.nodup_nil

theorem mem_vanished : c ∈ (tally height records s).vanished ↔
    (c ∈ s.vanishedCoins ∨ (height < s.lastSnapshotHeight ∧ Unborn s height c)) ∧
      ¬ (height < s.lastSnapshotHeight ∧ ShownCreated c records) := by
  obtain ⟨epoch, watched, hrolled⟩ := rolled_frame height s
  have hunborn : Unborn (rolled height s).2 height c ↔ Unborn s height c := by
    simp only [Unborn, rolled, trackOf_invalidate, Option.map_eq_some_iff]
    constructor
    · rintro ⟨k, ⟨k', hk', rfl⟩, hborn⟩
      refine ⟨k', hk', ?_⟩
      split_ifs at hborn
      · exact hborn
      · exact hborn
    · rintro ⟨k, hk, hborn⟩
      refine ⟨_, ⟨k, hk, rfl⟩, ?_⟩
      split_ifs
      · exact hborn
      · exact hborn
  rw [tally, mem_vanished_foldl, mem_vanished_startTally, hunborn, hrolled]
  simp only [decide_eq_true_eq]

theorem mem_insertAll {coins cs : List CoinString} :
    c ∈ coins.foldl (fun cs c => cs.insert c) cs ↔ c ∈ cs ∨ c ∈ coins := by
  induction coins generalizing cs with
  | nil => simp
  | cons coin rest ih =>
    rw [List.foldl_cons, ih, List.mem_insert_iff, List.mem_cons]
    tauto

theorem nodup_insertAll {coins cs : List CoinString} (h : cs.Nodup) :
    (coins.foldl (fun cs c => cs.insert c) cs).Nodup := by
  induction coins generalizing cs with
  | nil => exact h
  | cons coin rest ih => exact ih h.insert

/-- A coin is told to be created if it came alive or is seen spent at first sight. -/
theorem mem_created : c ∈ (reconcile E height records s).1.created ↔
    (ShownLive c records ∧ c ∉ s.presentCoins) ∨ FirstSpentIn height records s c := by
  rw [reconcile, Tally.diff]
  dsimp only
  rw [mem_insertAll, mem_firstSeenSpent, List.mem_filter, mem_presentNow, decide_eq_true_eq]

/-- A coin is told to be spent if it is gone without a rollback. -/
theorem mem_deleted : c ∈ (reconcile E height records s).1.deleted ↔
    (c ∈ s.presentCoins ∧ ¬ ShownLive c records ∧ c ∉ (tally height records s).vanished) ∨
      FirstSpentIn height records s c := by
  rw [reconcile, Tally.diff]
  dsimp only
  rw [mem_insertAll, mem_firstSeenSpent, List.mem_filter, List.mem_filter, decide_eq_true_eq,
    decide_eq_true_eq, mem_presentNow, and_assoc]

theorem nodup_created : (reconcile E height records s).1.created.Nodup := by
  exact nodup_insertAll (nodup_presentNow.filter _)

theorem nodup_deleted (h : s.presentCoins.Nodup) :
    (reconcile E height records s).1.deleted.Nodup := by
  exact nodup_insertAll ((h.filter _).filter _)

theorem reconcile_eq (E : BundleEnv B) (height : ℕ) (records : List CoinStateRecord)
    (s : TransactionManager C B O) : ∃ submitted pending, (reconcile E height records s).2 =
    { booked E height records s with submitted, pendingSubmissions := pending } := resubmit_eq _

theorem reconcile_frame : ∃ epoch submitted pending, (reconcile E height records s).2 = { s with
    lastHeight := height, lastSnapshotHeight := height
    timeoutRollbackHeight := epoch
    watchedCoins := (booked E height records s).watchedCoins
    submitted
    pendingSubmissions := pending
    vanishedCoins := (booked E height records s).vanishedCoins
    presentCoins := (tally height records s).presentNow } := by
  obtain ⟨epoch, watched, hrolled⟩ := rolled_frame height s
  obtain ⟨submitted, pending, heq⟩ := reconcile_eq E height records s
  refine ⟨epoch, submitted, pending, ?_⟩
  rw [heq, booked, hrolled]

theorem presentCoins_reconcile :
    (reconcile E height records s).2.presentCoins = (tally height records s).presentNow := by
  obtain ⟨epoch, submitted, pending, hframe⟩ := @reconcile_frame C B O E height records s
  rw [hframe]

theorem lastSnapshotHeight_reconcile : (reconcile E height records s).2.lastSnapshotHeight = height := by
  obtain ⟨epoch, submitted, pending, hframe⟩ := @reconcile_frame C B O E height records s
  rw [hframe]

theorem cradle_reconcile : (reconcile E height records s).2.cradle = s.cradle := by
  obtain ⟨epoch, submitted, pending, hframe⟩ := @reconcile_frame C B O E height records s
  rw [hframe]

theorem mem_presentCoins_reconcile :
    c ∈ (reconcile E height records s).2.presentCoins ↔ ShownLive c records := by
  rw [presentCoins_reconcile, mem_presentNow]

theorem nodup_presentCoins_reconcile : (reconcile E height records s).2.presentCoins.Nodup := by
  rw [presentCoins_reconcile]
  exact nodup_presentNow

theorem trackOf_reconcile : trackOf (reconcile E height records s).2.watchedCoins c =
    (trackOf s.watchedCoins c).map fun k =>
      ⟨(lastOf c CoinStateRecord.createdHeight records).or (rolledTrack height s k).birthday,
        ((lastOf c CoinStateRecord.spentHeight records).or
          (rolledTrack height s k).spentConfirmedAt).or
            (if c ∈ (reconcile E height records s).1.deleted then some height else none)⟩ := by
  obtain ⟨submitted, pending, heq⟩ := reconcile_eq E height records s
  have hbooked : trackOf (booked E height records s).watchedCoins c =
      (trackOf (tally height records s).watched c).map fun k =>
        ⟨k.birthday, k.spentConfirmedAt.or
          (if c ∈ (reconcile E height records s).1.deleted then some height else none)⟩ := by
    refine trackOf_update _ fun w => ?_
    have hdeleted : c ∈ ((tally height records s).diff s.presentCoins).deleted ↔
        c ∈ (reconcile E height records s).1.deleted := Iff.rfl
    by_cases hc : c ∈ (reconcile E height records s).1.deleted
    · cases hspent : w.spentConfirmedAt with
      | none => simp [hdeleted, hc, hspent, WatchedCoin.track]
      | some h => simp [hspent, WatchedCoin.track]
    · simp [hdeleted, hc, WatchedCoin.track]
  rw [heq, hbooked, trackOf_tally, Option.map_map]
  rfl

theorem mem_vanishedCoins_reconcile : c ∈ (reconcile E height records s).2.vanishedCoins ↔
    c ∈ (tally height records s).vanished ∧ c ∉ (reconcile E height records s).1.created := by
  obtain ⟨submitted, pending, heq⟩ := reconcile_eq E height records s
  rw [heq, booked, List.mem_filter, decide_eq_true_eq]
  rfl

end Reconcile

end TransactionManager

end ChiaGaming
