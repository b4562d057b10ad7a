import ChiaGaming.Manager.Feed

namespace ChiaGaming

open Act

/-! A feed without rollbacks: the coins come and go once, and the session hears of it once. -/

def CoinObservation.coin : CoinObservation → CoinString
  | .created coin => coin
  | .spent coin => coin

/-- What was told of one coin, in order. -/
def told (c : CoinString) (observations : List CoinObservation) : List CoinObservation :=
  observations.filter fun o => o.coin = c

inductive Life where
  | absent
  | unspent (birthday : ℕ)
  | spent (birthday height : ℕ)

/-- What the records of a snapshot say of a coin.  A feed may leave spent coins out. -/
def Life.Shows (c : CoinString) (records : List CoinStateRecord) : Life → Prop
  | .absent => ∀ rec ∈ records, rec.coin = c → rec.createdHeight = none ∧ rec.spentHeight = none
  | .unspent birthday => (∃ rec ∈ records, rec.coin = c) ∧
      ∀ rec ∈ records, rec.coin = c → rec.createdHeight = some birthday ∧ rec.spentHeight = none
  | .spent birthday height =>
      ∀ rec ∈ records, rec.coin = c → rec.createdHeight = some birthday ∧ rec.spentHeight = some height

inductive Life.Ages : Life → Life → Prop where
  | stays (life : Life) : Ages life life
  | appears (birthday : ℕ) : Ages .absent (.unspent birthday)
  | comesAndGoes (birthday height : ℕ) : Ages .absent (.spent birthday height)
  | goes (birthday height : ℕ) : Ages (.unspent birthday) (.spent birthday height)

theorem Life.Shows.not_shownSpent {c : CoinString} {records : List CoinStateRecord} {life : Life}
    (h : life.Shows c records) (hlife : ∀ birthday height, life ≠ .spent birthday height) :
    ¬ ShownSpent c records := by
  rintro ⟨rec, hmem, hcoin, hspent⟩
  cases life with
  | absent =>
    rw [(h rec hmem hcoin).2] at hspent
    cases hspent
  | unspent birthday =>
    rw [(h.2 rec hmem hcoin).2] at hspent
    cases hspent
  | spent birthday height => exact hlife birthday height rfl

theorem Life.Shows.shownLive_iff {c : CoinString} {records : List CoinStateRecord} {life : Life}
    (h : life.Shows c records) : ShownLive c records ↔ ∃ birthday, life = .unspent birthday := by
  constructor
  · rintro ⟨rec, hmem, hcoin, hcreated, hspent⟩
    cases life with
    | absent =>
      rw [(h rec hmem hcoin).1] at hcreated
      cases hcreated
    | unspent birthday => exact ⟨birthday, rfl⟩
    | spent birthday height =>
      rw [(h rec hmem hcoin).2] at hspent
      cases hspent
  · rintro ⟨birthday, rfl⟩
    obtain ⟨⟨rec, hmem, hcoin⟩, hall⟩ := h
    obtain ⟨hcreated, hspent⟩ := hall rec hmem hcoin
    exact ⟨rec, hmem, hcoin, by rw [hcreated]; rfl, by rw [hspent]; rfl⟩

theorem told_append (c : CoinString) (os os' : List CoinObservation) :
    told c (os ++ os') = told c os ++ told c os' := List.filter_append ..

namespace TransactionManager

variable {C B O : Type}

/-! How far the manager is with a coin. -/

def Unspent (k : Option Track) : Prop := ∀ k', k = some k' → k'.spentConfirmedAt = none

def Spent (k : Option Track) : Prop := ∀ k', k = some k' → k'.spentConfirmedAt ≠ none

/-- The coin's place in the books, and what was told of it, against the life it has had. -/
inductive Stage (c : CoinString) (present : List CoinString) (k : Option Track)
    (seen : List CoinObservation) : Life → Prop where
  | absent (hpresent : c ∉ present) (hk : Unspent k) (htold : told c seen = []) :
    Stage c present k seen .absent
  | unspent {birthday : ℕ} (hpresent : c ∈ present) (hk : Unspent k)
    (htold : told c seen = [.created c]) : Stage c present k seen (.unspent birthday)
  | missed {birthday height : ℕ} (hpresent : c ∉ present) (hk : Unspent k)
    (htold : told c seen = []) : Stage c present k seen (.spent birthday height)
  | spent {birthday height : ℕ} (hpresent : c ∉ present) (hk : Spent k)
    (htold : told c seen = [.created c, .spent c]) : Stage c present k seen (.spent birthday height)

section Snapshot

variable {E : BundleEnv B} {height : ℕ} {records : List CoinStateRecord}
  {s : TransactionManager C B O} {c : CoinString}

/-- Lists without repetitions mention a coin once at most. -/
theorem told_observations {d : Diff} (hcreated : d.created.Nodup)
    (hdeleted : d.deleted.Nodup) : told c d.observations =
      (if c ∈ d.created then [.created c] else []) ++ if c ∈ d.deleted then [.spent c] else [] := by
  have hfilter : ∀ {f : CoinString → CoinObservation} {cs : List CoinString},
      (∀ c, (f c).coin = c) → cs.Nodup →
        told c (cs.map f) = if c ∈ cs then [f c] else [] := by
    intro f cs hf hcs
    have hmap : told c (cs.map f) = (cs.filter (· = c)).map f := by
      rw [told, List.filter_map]
      congr 2
      funext c'
      simp only [Function.comp_apply, hf]
    rw [hmap, List.filter_eq, hcs.count]
    split_ifs
    · rfl
    · rfl
  rw [Diff.observations, told_append, hfilter (fun _ => rfl) hcreated, hfilter (fun _ => rfl) hdeleted]

theorem rolledTrack_of_le (hheight : s.lastSnapshotHeight ≤ height) (k : Track) :
    rolledTrack height s k = k := if_neg (Nat.not_lt.mpr hheight)

theorem mem_created_of_le (E : BundleEnv B) (records : List CoinStateRecord) (c : CoinString)
    (hheight : s.lastSnapshotHeight ≤ height) :
    c ∈ (reconcile E height records s).1.created ↔ (ShownLive c records ∧ c ∉ s.presentCoins) ∨
      (∃ k, trackOf s.watchedCoins c = some k ∧ k.spentConfirmedAt = none) ∧
        c ∉ s.presentCoins ∧ ShownSpent c records := by
  rw [mem_created, FirstSpentIn]
  simp only [rolledTrack_of_le hheight]

theorem mem_deleted_of_le (E : BundleEnv B) (records : List CoinStateRecord) (c : CoinString)
    (hheight : s.lastSnapshotHeight ≤ height) (hvanished : s.vanishedCoins = []) :
    c ∈ (reconcile E height records s).1.deleted ↔ (c ∈ s.presentCoins ∧ ¬ ShownLive c records) ∨
      (∃ k, trackOf s.watchedCoins c = some k ∧ k.spentConfirmedAt = none) ∧
        c ∉ s.presentCoins ∧ ShownSpent c records := by
  have hgone : c ∉ (tally height records s).vanished := by
    rw [mem_vanished, hvanished]
    rintro ⟨h | ⟨hlt, -⟩, -⟩
    · cases h
    · exact absurd hlt (Nat.not_lt.mpr hheight)
  rw [mem_deleted, FirstSpentIn]
  simp only [rolledTrack_of_le hheight, hgone, not_false_eq_true, and_true]

theorem unspent_reconcile (hheight : s.lastSnapshotHeight ≤ height)
    (hk : Unspent (trackOf s.watchedCoins c)) (hspent : ¬ ShownSpent c records)
    (hdeleted : c ∉ (reconcile E height records s).1.deleted) :
    Unspent (trackOf (reconcile E height records s).2.watchedCoins c) := by
  intro k' hk'
  rw [trackOf_reconcile, Option.map_eq_some_iff] at hk'
  obtain ⟨k, hsome, rfl⟩ := hk'
  have hlast : lastOf c CoinStateRecord.spentHeight records = none :=
    Option.not_isSome_iff_eq_none.mp fun h => hspent (lastOf_isSome.mp h)
  simp only [hlast, rolledTrack_of_le hheight, hk k hsome, hdeleted, if_false, Option.or_none]

theorem spent_reconcile (hheight : s.lastSnapshotHeight ≤ height)
    (h : Spent (trackOf s.watchedCoins c) ∨ ShownSpent c records ∨
      c ∈ (reconcile E height records s).1.deleted) :
    Spent (trackOf (reconcile E height records s).2.watchedCoins c) := by
  intro k' hk' hnone
  rw [trackOf_reconcile, Option.map_eq_some_iff] at hk'
  obtain ⟨k, hsome, rfl⟩ := hk'
  rw [rolledTrack_of_le hheight, Option.or_eq_none_iff, Option.or_eq_none_iff] at hnone
  obtain ⟨⟨hlast, hold⟩, hdeleted⟩ := hnone
  rcases h with hk | hspent | hmem
  · exact hk k hsome hold
  · exact absurd (lastOf_isSome.mpr hspent) (by rw [hlast]; exact Bool.false_ne_true)
  · rw [if_pos hmem] at hdeleted
    cases hdeleted

theorem told_append_reconcile (E : BundleEnv B) (height : ℕ) (records : List CoinStateRecord)
    (c : CoinString) (seen : List CoinObservation) (hnodup : s.presentCoins.Nodup) :
    told c (seen ++ (reconcile E height records s).1.observations) = told c seen ++
      ((if c ∈ (reconcile E height records s).1.created then [.created c] else []) ++
        if c ∈ (reconcile E height records s).1.deleted then [.spent c] else []) := by
  rw [told_append, told_observations nodup_created (nodup_deleted hnodup)]

/-- A coin that was never told of is told at once, if it is on record, and never if it is not. -/
theorem stage_of_unseen {seen : List CoinObservation} {birthday confirmed : ℕ}
    (hheight : s.lastSnapshotHeight ≤ height) (hvanished : s.vanishedCoins = [])
    (hnodup : s.presentCoins.Nodup) (hshows : (Life.spent birthday confirmed).Shows c records)
    (hpresent : c ∉ s.presentCoins) (hk : Unspent (trackOf s.watchedCoins c))
    (htold : told c seen = []) :
    Stage c (reconcile E height records s).2.presentCoins
      (trackOf (reconcile E height records s).2.watchedCoins c)
      (seen ++ (reconcile E height records s).1.observations) (.spent birthday confirmed) ∧
    (ShownSpent c records → (trackOf s.watchedCoins c).isSome →
      told c (seen ++ (reconcile E height records s).1.observations) = [.created c, .spent c]) := by
  have hnotLive : ¬ ShownLive c records := by
    rw [hshows.shownLive_iff]
    rintro ⟨b, heq⟩
    cases heq
  have hgone : c ∉ (reconcile E height records s).2.presentCoins := by
    rwa [mem_presentCoins_reconcile]
  have hnew := told_append_reconcile E height records c seen hnodup
  by_cases hfirst : ShownSpent c records ∧ (trackOf s.watchedCoins c).isSome
  · obtain ⟨hspent, hsome⟩ := hfirst
    obtain ⟨k, hsome⟩ := Option.isSome_iff_exists.mp hsome
    have hcreated : c ∈ (reconcile E height records s).1.created :=
      (mem_created_of_le E records c hheight).mpr (.inr ⟨⟨k, hsome, hk k hsome⟩, hpresent, hspent⟩)
    have hdeleted : c ∈ (reconcile E height records s).1.deleted :=
      (mem_deleted_of_le E records c hheight hvanished).mpr (.inr ⟨⟨k, hsome, hk k hsome⟩, hpresent, hspent⟩)
    rw [if_pos hcreated, if_pos hdeleted, htold] at hnew
    exact ⟨.spent hgone (spent_reconcile hheight (.inr (.inl hspent))) hnew, fun _ _ => hnew⟩
  · have hcreated : c ∉ (reconcile E height records s).1.created := by
      rw [mem_created_of_le E records c hheight]
      rintro (h | ⟨⟨k, hsome, -⟩, -, hspent⟩)
      · exact hnotLive h.1
      · exact hfirst ⟨hspent, Option.isSome_of_eq_some hsome⟩
    have hdeleted : c ∉ (reconcile E height records s).1.deleted := by
      rw [mem_deleted_of_le E records c hheight hvanished]
      rintro (h | ⟨⟨k, hsome, -⟩, -, hspent⟩)
      · exact hpresent h.1
      · exact hfirst ⟨hspent, Option.isSome_of_eq_some hsome⟩
    rw [if_neg hcreated, if_neg hdeleted, htold] at hnew
    refine ⟨.missed hgone ?_ hnew, fun hspent hsome => absurd ⟨hspent, hsome⟩ hfirst⟩
    by_cases hspent : ShownSpent c records
    · -- the coin has no record
      intro k hsome
      rw [trackOf_reconcile, Option.map_eq_some_iff] at hsome
      obtain ⟨k', hk', -⟩ := hsome
      exact absurd ⟨hspent, Option.isSome_of_eq_some hk'⟩ hfirst
    · exact unspent_reconcile hheight hk hspent hdeleted

/-- A snapshot takes a coin from one stage of its life to the next, and a coin on record is told to
be spent with the first snapshot that shows it so. -/
theorem stage_reconcile {seen : List CoinObservation} {life life' : Life}
    (hheight : s.lastSnapshotHeight ≤ height) (hvanished : s.vanishedCoins = [])
    (hnodup : s.presentCoins.Nodup) (hages : life.Ages life') (hshows : life'.Shows c records)
    (h : Stage c s.presentCoins (trackOf s.watchedCoins c) seen life) :
    Stage c (reconcile E height records s).2.presentCoins
      (trackOf (reconcile E height records s).2.watchedCoins c)
      (seen ++ (reconcile E height records s).1.observations) life' ∧
    (ShownSpent c records → (trackOf s.watchedCoins c).isSome →
      told c (seen ++ (reconcile E height records s).1.observations) = [.created c, .spent c]) := by
  have hnew := told_append_reconcile E height records c seen hnodup
  have hlive : c ∈ (reconcile E height records s).2.presentCoins ↔ ShownLive c records :=
    mem_presentCoins_reconcile
  rw [hshows.shownLive_iff] at hlive
  have hcreated := mem_created_of_le E records c hheight
  have hdeleted := mem_deleted_of_le E records c hheight hvanished
  rw [hshows.shownLive_iff] at hcreated hdeleted
  cases life' with
  | absent =>
    have hnotSpent : ¬ ShownSpent c records := hshows.not_shownSpent (fun _ _ heq => by cases heq)
    cases hages
    cases h with
    | absent hpresent hk htold =>
      have hquiet : c ∉ (reconcile E height records s).1.created ∧
          c ∉ (reconcile E height records s).1.deleted := by
        simp [hcreated, hdeleted, hpresent, hnotSpent]
      refine ⟨.absent ?_ (unspent_reconcile hheight hk hnotSpent hquiet.2) ?_,
        fun h => absurd h hnotSpent⟩
      · simp [hlive]
      · rw [hnew, if_neg hquiet.1, if_neg hquiet.2, htold]
        rfl
  | unspent birthday =>
    have hnotSpent : ¬ ShownSpent c records := hshows.not_shownSpent (fun _ _ heq => by cases heq)
    have hnotDeleted : c ∉ (reconcile E height records s).1.deleted := by
      simp [hdeleted, hnotSpent]
    have hstays : c ∈ (reconcile E height records s).2.presentCoins := hlive.mpr ⟨birthday, rfl⟩
    refine ⟨?_, fun h => absurd h hnotSpent⟩
    cases hages with
    | stays =>
      cases h with
      | unspent hpresent hk htold =>
        refine .unspent hstays (unspent_reconcile hheight hk hnotSpent hnotDeleted) ?_
        rw [hnew, if_neg (by simp [hcreated, hpresent]), if_neg hnotDeleted, htold]
        rfl
    | appears =>
      cases h with
      | absent hpresent hk htold =>
        refine .unspent hstays (unspent_reconcile hheight hk hnotSpent hnotDeleted) ?_
        rw [hnew, if_pos (by simp [hcreated, hpresent]), if_neg hnotDeleted, htold]
        rfl
  | spent birthday confirmed =>
    have hgone : c ∉ (reconcile E height records s).2.presentCoins := by simp [hlive]
    cases hages with
    | stays =>
      cases h with
      | missed hpresent hk htold =>
        exact stage_of_unseen hheight hvanished hnodup hshows hpresent hk htold
      | spent hpresent hk htold =>
        have hfirst : ¬ ((∃ k, trackOf s.watchedCoins c = some k ∧ k.spentConfirmedAt = none) ∧
            c ∉ s.presentCoins ∧ ShownSpent c records) := by
          rintro ⟨⟨k, hsome, hnone⟩, -⟩
          exact hk k hsome hnone
        have hnotDeleted : c ∉ (reconcile E height records s).1.deleted := by
          rw [hdeleted]
          exact fun h => h.elim (fun h => hpresent h.1) hfirst
        rw [if_neg (by simp [hcreated, hfirst]), if_neg hnotDeleted, htold] at hnew
        exact ⟨.spent hgone (spent_reconcile hheight (.inl hk)) hnew, fun _ _ => hnew⟩
    | comesAndGoes =>
      cases h with
      | absent hpresent hk htold =>
        exact stage_of_unseen hheight hvanished hnodup hshows hpresent hk htold
    | goes =>
      cases h with
      | unspent hpresent hk htold =>
        have hmem : c ∈ (reconcile E height records s).1.deleted := by simp [hdeleted, hpresent]
        rw [if_neg (by simp [hcreated, hpresent]), if_pos hmem, htold] at hnew
        exact ⟨.spent hgone (spent_reconcile hheight (.inr (.inr hmem))) hnew, fun _ _ => hnew⟩

end Snapshot

/-! Runs. -/

section Runs

variable [ManagedGameSession C B O] (E : BundleEnv B)

/-- The calls of a host whose snapshots never go back, with the lives that its coins have had. -/
def Forward (life : CoinString → Life) (s : TransactionManager (Recorded C) B O) (x : HostCall C)
    (life' : CoinString → Life) : Prop :=
  match x with
  | .reportCoinStates height records =>
    (¬ InRange height records ∧ life' = life) ∨
    (InRange height records ∧ s.lastSnapshotHeight ≤ height ∧
      ∀ c, (life c).Ages (life' c) ∧ (life' c).Shows c records)
  | _ => life' = life

/-- A height below the last one takes a spend off the record. -/
def TakesBack (height : ℕ) (s : TransactionManager (Recorded C) B O) (c : CoinString) : Prop :=
  height ≤ maxReportedHeight ∧ height < s.lastHeight ∧ s.timeoutRollbackHeight ≠ some height ∧
    ∃ k, trackOf s.watchedCoins c = some k ∧ k.spentConfirmedAt.any (height < ·)

/-- No height takes a spend off the record, no coin is watched anew once its spend was told, and what
a snapshot has to say is heard. -/
def Careful (s : TransactionManager (Recorded C) B O) : HostCall C → Prop
  | .reportHeight height => ∀ c, ¬ TakesBack height s c
  | .flushAndCollect => ∀ c, .spent c ∈ s.cradle.seen → ¬ WatchedAnew s c
  | .reportCoinStates height records => InRange height records → Heard E height records s
  | _ => True

def Steady (life : CoinString → Life) (s : TransactionManager (Recorded C) B O) (x : HostCall C)
    (life' : CoinString → Life) : Prop :=
  Forward life s x life' ∧ Careful E s x

structure Told (life : CoinString → Life) (s : TransactionManager (Recorded C) B O) : Prop where
  vanished : s.vanishedCoins = []
  nodup : s.presentCoins.Nodup
  stage : ∀ c, Stage c s.presentCoins (trackOf s.watchedCoins c) s.cradle.seen (life c)

variable {E} {life life' : CoinString → Life} {s : TransactionManager (Recorded C) B O}
  {c : CoinString}

omit [ManagedGameSession C B O] in
theorem Stage.track {present : List CoinString} {k k' : Option Track} {seen : List CoinObservation}
    {l : Life} (h : Stage c present k seen l) (hunspent : Unspent k → Unspent k')
    (hspent : .spent c ∈ seen → Spent k → Spent k') : Stage c present k' seen l := by
  cases h with
  | absent hpresent hk htold => exact .absent hpresent (hunspent hk) htold
  | unspent hpresent hk htold => exact .unspent hpresent (hunspent hk) htold
  | missed hpresent hk htold => exact .missed hpresent (hunspent hk) htold
  | spent hpresent hk htold =>
    have hmem : CoinObservation.spent c ∈ told c seen := by
      rw [htold]
      exact List.mem_cons_of_mem _ List.mem_cons_self
    exact .spent hpresent (hspent (List.mem_of_mem_filter hmem) hk) htold

theorem told_of_idle {x : HostCall C} (hx : x.Idle) (hcareful : Careful E s x) (h : Told life s) :
    Told life (serve E s x) := by
  obtain ⟨hbetween, htrack⟩ := serve_of_idle (E := E) (s := s) hx
  refine ⟨?_, hbetween.present ▸ h.nodup, fun c => ?_⟩
  · exact List.subset_nil.mp (h.vanished ▸ hbetween.vanished)
  · rw [hbetween.present, hbetween.seen]
    rcases htrack c with heq | hnone | ⟨rfl, hanew, hfresh⟩
    · rw [heq]
      exact h.stage c
    · rw [hnone]
      exact (h.stage c).track (fun _ _ hk => by cases hk) (fun _ _ _ hk => by cases hk)
    · rw [hfresh]
      refine (h.stage c).track (fun _ k hk => ?_) fun hspent _ => absurd hanew (hcareful c hspent)
      rw [← Option.some.inj hk]

theorem told_of_reportHeight {height : ℕ} (hcareful : ∀ c, ¬ TakesBack height s c)
    (h : Told life s) : Told life ((reportHeight height).after s) := by
  obtain ⟨hseen, hpresent, hvanished, -, htrack⟩ := reportHeight_after (s := s) height
  refine ⟨hvanished.trans h.vanished, hpresent ▸ h.nodup, fun c => ?_⟩
  have hsame : trackOf ((reportHeight height).after s).watchedCoins c = trackOf s.watchedCoins c := by
    rw [htrack]
    cases hk : trackOf s.watchedCoins c with
    | none => rfl
    | some k =>
      rw [Option.map_some, if_neg]
      rintro ⟨hmax, hlower, hepoch, hspent⟩
      exact hcareful c ⟨hmax, hlower, hepoch, k, hk, hspent⟩
  rw [hsame, hpresent, hseen]
  exact h.stage c

omit [ManagedGameSession C B O] in
theorem Evicted.stage {s' : TransactionManager (Recorded C) B O} (hevicted : Evicted s s')
    {seen : List CoinObservation} {l : Life}
    (h : Stage c s.presentCoins (trackOf s.watchedCoins c) seen l) :
    Stage c s'.presentCoins (trackOf s'.watchedCoins c) seen l := by
  rcases hevicted.coin c with ⟨htrack, hpresent⟩ | ⟨hnone, hgone, k, hk, hspent⟩
  · rw [htrack]
    cases h with
    | absent hp hk ht => exact .absent (hpresent.not.mpr hp) hk ht
    | unspent hp hk ht => exact .unspent (hpresent.mpr hp) hk ht
    | missed hp hk ht => exact .missed (hpresent.not.mpr hp) hk ht
    | spent hp hk ht => exact .spent (hpresent.not.mpr hp) hk ht
  · rw [hnone]
    have hnot : ¬ Unspent (trackOf s.watchedCoins c) := by
      intro hunspent
      rw [hunspent k hk] at hspent
      cases hspent
    cases h with
    | absent hp hk ht => exact absurd hk hnot
    | unspent hp hk ht => exact absurd hk hnot
    | missed hp hk ht => exact absurd hk hnot
    | spent hp hk ht => exact .spent hgone (fun _ hk => by cases hk) ht

theorem told_of_reportCoinStates {height : ℕ} {records : List CoinStateRecord}
    (hrange : InRange height records) (hheight : s.lastSnapshotHeight ≤ height)
    (hlife : ∀ c, (life c).Ages (life' c) ∧ (life' c).Shows c records)
    (hheard : Heard E height records s) (h : Told life s) :
    Told life' ((reportCoinStates E height records).after s) ∧
      ∀ c, ShownSpent c records → (trackOf s.watchedCoins c).isSome →
        told c ((reportCoinStates E height records).after s).cradle.seen =
          [.created c, .spent c] := by
  obtain ⟨hevicted, hseen, -⟩ := reportCoinStates_after (E := E) (s := s) hrange
  have hstage := fun c => stage_reconcile (E := E) hheight h.vanished h.nodup (hlife c).1 (hlife c).2
    (h.stage c)
  refine ⟨⟨?_, ?_, fun c => ?_⟩, fun c => ?_⟩
  · refine List.subset_nil.mp (List.Subset.trans hevicted.vanished fun c hc => ?_)
    rw [mem_vanishedCoins_reconcile, mem_vanished, h.vanished] at hc
    rcases hc.1.1 with hmem | ⟨hlt, -⟩
    · exact hmem
    · exact absurd hlt (Nat.not_lt.mpr hheight)
  · exact hevicted.present.nodup nodup_presentCoins_reconcile
  · rw [hseen hheard]
    exact hevicted.stage (hstage c).1
  · rw [hseen hheard]
    exact (hstage c).2

theorem told_of_served (h : Served E (fun _ => .absent) (Steady E) life s) : Told life s := by
  induction h with
  | start session =>
    refine ⟨rfl, List.nodup_nil, fun c => .absent List.not_mem_nil ?_ rfl⟩
    intro k hk
    cases hk
  | call h x hmay ih =>
    obtain ⟨hforward, hcareful⟩ := hmay
    cases x with
    | reportHeight height =>
      cases hforward
      exact told_of_reportHeight hcareful ih
    | reportCoinStates height records =>
      rcases hforward with ⟨hrange, rfl⟩ | ⟨hrange, hheight, hlife⟩
      · rw [serve, reportCoinStates_of_not_inRange hrange]
        exact ih
      · exact (told_of_reportCoinStates hrange hheight hlife (hcareful hrange) ih).1
    | session cradle =>
      cases hforward
      exact told_of_idle trivial hcareful ih
    | flushAndCollect =>
      cases hforward
      exact told_of_idle trivial hcareful ih
    | drainSubmissions =>
      cases hforward
      exact told_of_idle trivial hcareful ih
    | requeueSubmitted =>
      cases hforward
      exact told_of_idle trivial hcareful ih
    | restore =>
      cases hforward
      exact told_of_idle trivial hcareful ih

/-- Nothing, the creation, or the creation and then the spend. -/
def Once (c : CoinString) (seen : List CoinObservation) : Prop :=
  told c seen = [] ∨ told c seen = [.created c] ∨ told c seen = [.created c, .spent c]

omit [ManagedGameSession C B O] in
theorem Stage.once {present : List CoinString} {k : Option Track} {seen : List CoinObservation}
    {l : Life} (h : Stage c present k seen l) : Once c seen := by
  cases h with
  | absent _ _ htold => exact .inl htold
  | unspent _ _ htold => exact .inr (.inl htold)
  | missed _ _ htold => exact .inl htold
  | spent _ _ htold => exact .inr (.inr htold)

/-- The session hears once of a coin, as soon as a snapshot shows it. -/
theorem observed_once (h : Served E (fun _ => .absent) (Steady E) life s) (c : CoinString) :
    Once c s.cradle.seen ∧ ∀ height records life', InRange height records →
      Steady E life s (.reportCoinStates height records) life' →
        (ShownLive c records →
          told c (serve E s (.reportCoinStates height records)).cradle.seen = [.created c]) ∧
        ((trackOf s.watchedCoins c).isSome → ShownSpent c records →
          told c (serve E s (.reportCoinStates height records)).cradle.seen =
            [.created c, .spent c]) := by
  have hinv := told_of_served h
  refine ⟨(hinv.stage c).once, fun height records life' hrange hmay => ?_⟩
  · obtain ⟨hforward, hcareful⟩ := hmay
    obtain ⟨hheight, hlife⟩ := (hforward.resolve_left fun h => h.1 hrange).2
    obtain ⟨hafter, hspent⟩ := told_of_reportCoinStates hrange hheight hlife (hcareful hrange) hinv
    refine ⟨fun hlive => ?_, fun hwatched hshown => hspent c hshown hwatched⟩
    obtain ⟨birthday, heq⟩ := (hlife c).2.shownLive_iff.mp hlive
    have hstage := hafter.stage c
    rw [heq] at hstage
    cases hstage with
    | unspent _ _ htold => exact htold

end Runs

/-! A run in which the session hears twice of the coin that it watches. -/

namespace Rewound

def coin : CoinString := ⟨[1], [2], 3⟩

def start : TransactionManager (Recorded MockGameSession) Unit Unit :=
  new ⟨⟨[⟨[.watchCoin coin 5 none none], none⟩]⟩, []⟩

def watching : TransactionManager (Recorded MockGameSession) Unit Unit :=
  serve MockGameSession.env start .flushAndCollect

def records : List CoinStateRecord := [⟨coin, some 90, some 99⟩]

def life (c : CoinString) : Life := if c = coin then .spent 90 99 else .absent

theorem shows_life (c : CoinString) : (life c).Shows c records := by
  rw [life]
  split_ifs with hc
  · intro rec hrec _
    rw [List.mem_singleton.mp hrec]
    exact ⟨rfl, rfl⟩
  · intro rec hrec hcoin
    rw [List.mem_singleton.mp hrec] at hcoin
    exact absurd hcoin.symm hc

theorem ages_life (c : CoinString) : Life.Ages .absent (life c) := by
  rw [life]
  split_ifs
  · exact .comesAndGoes 90 99
  · exact .stays _

/-- The spend is taken off the record by a lower height, and so told again with the coin's creation. -/
theorem observed_twice : ¬ ∀ life (s : TransactionManager (Recorded MockGameSession) Unit Unit),
    Served MockGameSession.env (fun _ => .absent) Forward life s → ∀ c, Once c s.cradle.seen := by
  intro h
  have hwatching : Served MockGameSession.env (fun _ => .absent) Forward (fun _ => .absent) watching :=
    .call (.start _) .flushAndCollect rfl
  have hfirst : Served MockGameSession.env (fun _ => .absent) Forward life
      (serve MockGameSession.env watching (.reportCoinStates 100 records)) :=
    hwatching.call _ (.inr ⟨⟨by decide, by decide⟩, by decide, fun c => ⟨ages_life c, shows_life c⟩⟩)
  have hlower := hfirst.call (.reportHeight 50) rfl
  have hagain := hlower.call (.reportCoinStates 101 records)
    (.inr ⟨⟨by decide, by decide⟩, by decide, fun c => ⟨.stays _, shows_life c⟩⟩)
  have hseen : told coin (serve MockGameSession.env (serve MockGameSession.env
      (serve MockGameSession.env watching (.reportCoinStates 100 records)) (.reportHeight 50))
        (.reportCoinStates 101 records)).cradle.seen =
      [.created coin, .spent coin, .created coin, .spent coin] := by decide
  have honce := h _ _ hagain coin
  rw [Once, hseen] at honce
  revert honce
  decide

def alive : CoinString → Life := fun c => if c = coin then .unspent 90 else .absent

theorem steady_alive : Steady MockGameSession.env (fun _ => .absent) watching
    (.reportCoinStates 95 [⟨coin, some 90, none⟩]) alive := by
  refine ⟨.inr ⟨⟨by decide, by decide⟩, by decide, fun c => ?_⟩, fun _ => .inr ⟨_, rfl⟩⟩
  rw [alive]
  split_ifs with hc
  · refine ⟨.appears 90, ⟨_, List.mem_singleton_self _, hc.symm⟩, fun rec hrec _ => ?_⟩
    rw [List.mem_singleton.mp hrec]
    exact ⟨rfl, rfl⟩
  · refine ⟨.stays _, fun rec hrec hcoin => ?_⟩
    rw [List.mem_singleton.mp hrec] at hcoin
    exact absurd hcoin.symm hc

theorem steady_spent (s : TransactionManager (Recorded MockGameSession) Unit Unit)
    (hheight : s.lastSnapshotHeight ≤ 100) (hheard : Heard MockGameSession.env 100 records s) :
    Steady MockGameSession.env alive s (.reportCoinStates 100 records) life := by
  refine ⟨.inr ⟨⟨by decide, by decide⟩, hheight, fun c => ⟨?_, shows_life c⟩⟩, fun _ => hheard⟩
  rw [alive, life]
  split_ifs
  · exact .goes 90 99
  · exact .stays _

theorem observed_once_alive_spent :
    told coin (serve MockGameSession.env (serve MockGameSession.env watching
      (.reportCoinStates 95 [⟨coin, some 90, none⟩])) (.reportCoinStates 100 records)).cradle.seen =
        [.created coin, .spent coin] := by
  have hwatching : Served MockGameSession.env (fun _ => .absent) (Steady MockGameSession.env)
      (fun _ => .absent) watching :=
    .call (.start _) .flushAndCollect ⟨rfl, fun c hc => by cases hc⟩
  exact ((observed_once (hwatching.call _ steady_alive) coin).2 100 records life
    ⟨by decide, by decide⟩ (steady_spent _ (by decide) (.inr ⟨_, rfl⟩))).2 (by decide)
      ⟨_, List.mem_singleton_self _, rfl, rfl⟩

end Rewound

end TransactionManager

end ChiaGaming
