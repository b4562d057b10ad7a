import ChiaGaming.Manager.Lives

namespace ChiaGaming

open Act

/-! Rollbacks: a coin whose creation is undone has not been spent. -/

/-- How a coin stands since a rollback took its creation away, with the count of what was told of it
before. -/
inductive Standing where
  | steady
  | undone (count : ℕ)
  | back (count : ℕ)

/-- Nothing more is told of a coin while it is gone; what is told next is its creation. -/
def Standing.Holds (c : CoinString) (seen : List CoinObservation) : Standing → Prop
  | .steady => True
  | .undone count => (told c seen).length = count
  | .back count => (told c seen)[count]? = some (.created c)

def Standing.returned : Standing → Standing
  | .undone count => .back count
  | standing => standing

theorem Standing.Holds.append {c : CoinString} {standing : Standing}
    {seen more : List CoinObservation}
    (h : standing.Holds c seen) (hsame : ∀ count, standing = .undone count →
      told c (seen ++ more) = told c seen) : standing.Holds c (seen ++ more) := by
  cases standing with
  | steady => trivial
  | undone count => exact (congrArg List.length (hsame count rfl)).trans h
  | back count =>
    rw [Standing.Holds] at h ⊢
    rw [told_append, List.getElem?_append_left (List.getElem?_eq_some_iff.mp h).1]
    exact h

theorem Standing.Holds.returned {c : CoinString} {standing : Standing} {seen : List CoinObservation}
    (h : standing.Holds c seen) (hnot : ∀ count, standing ≠ .undone count) :
    standing.returned.Holds c seen := by
  cases standing with
  | steady => trivial
  | undone count => exact absurd rfl (hnot count)
  | back count => exact h

/-- What the reports have shown: the birthdays in the last snapshot, the lowest tip since, and the
coins that a rollback took away. -/
structure Chain where
  live : CoinString → Option ℕ
  low : ℕ
  standing : CoinString → Standing

def Chain.start : Chain := ⟨fun _ => none, 0, fun _ => .steady⟩

/-- The coin is missing, and since it was last seen the tip was below its birthday. -/
def Chain.RolledBack (g : Chain) (height : ℕ) (records : List CoinStateRecord) (c : CoinString) : Prop :=
  (∃ birthday, g.live c = some birthday ∧ min g.low height < birthday) ∧
    ¬ ShownCreated c records ∧ ¬ ShownSpent c records

namespace TransactionManager

variable {C B O : Type}

def Watched (s : TransactionManager C B O) (c : CoinString) : Prop :=
  (trackOf s.watchedCoins c).isSome

instance {s : TransactionManager C B O} {c : CoinString} : Decidable (Watched s c) :=
  inferInstanceAs (Decidable (_ = true))

def Reappears (s : TransactionManager C B O) (records : List CoinStateRecord) (c : CoinString) : Prop :=
  ShownLive c records ∨ (Watched s c ∧ ShownSpent c records)

open Classical in
/-- What a call adds to the chain as reported. -/
noncomputable def next (g : Chain) (s : TransactionManager (Recorded C) B O) : HostCall C → Chain
  | .reportHeight height =>
    if height ≤ maxReportedHeight then { g with low := min g.low height } else g
  | .reportCoinStates height records =>
    if InRange height records then
      { live := fun c =>
          if ShownLive c records then lastOf c CoinStateRecord.createdHeight records else none
        low := height
        standing := fun c =>
          if Watched s c ∧ g.RolledBack height records c then
            .undone (told c s.cradle.seen).length
          else if Reappears s records c then (g.standing c).returned
          else g.standing c }
    else g
  | _ => g

variable [ManagedGameSession C B O] (E : BundleEnv B)

/-- A snapshot without a coin that was rolled back shows the rollback itself, to a manager that knows
the birthday.  A snapshot in which a coin is back is heard, and if the coin is spent by then, no old
spend is on record. -/
def Visible (s : TransactionManager (Recorded C) B O) (g : Chain) : HostCall C → Prop
  | .reportCoinStates height records => InRange height records →
      (∀ c count, g.standing c = .undone count → Reappears s records c → Heard E height records s) ∧
      ∀ c, (Watched s c → g.RolledBack height records c → c ∈ s.presentCoins →
          height < s.lastSnapshotHeight ∧ Unborn s height c) ∧
        (∀ count k, g.standing c = .undone count → ¬ ShownLive c records → ShownSpent c records →
          trackOf s.watchedCoins c = some k → (rolledTrack height s k).spentConfirmedAt = none)
  | _ => True

def Follows (g : Chain) (s : TransactionManager (Recorded C) B O) (x : HostCall C) (g' : Chain) : Prop :=
  g' = next g s x ∧ Visible E s g x

structure Undone (g : Chain) (s : TransactionManager (Recorded C) B O) : Prop where
  nodup : s.presentCoins.Nodup
  gone : ∀ c count, g.standing c = .undone count → c ∉ s.presentCoins
  holds : ∀ c, (g.standing c).Holds c s.cradle.seen

variable {E} {g g' : Chain} {s : TransactionManager (Recorded C) B O} {c : CoinString}

section Snapshot

variable {height : ℕ} {records : List CoinStateRecord}

omit [ManagedGameSession C B O] in
/-- Nothing is told of a coin that is neither on the books nor seen. -/
theorem told_of_missing (hnodup : s.presentCoins.Nodup) (hlive : ¬ ShownLive c records)
    (hfirst : ¬ FirstSpentIn height records s c)
    (hgone : c ∈ s.presentCoins → c ∈ (tally height records s).vanished) :
    told c (s.cradle.seen ++ (reconcile E height records s).1.observations) =
      told c s.cradle.seen := by
  have hcreated : c ∉ (reconcile E height records s).1.created := by
    rw [mem_created]
    exact fun h => h.elim (fun h => hlive h.1) hfirst
  have hdeleted : c ∉ (reconcile E height records s).1.deleted := by
    rw [mem_deleted]
    exact fun h => h.elim (fun h => h.2.2 (hgone h.1)) hfirst
  rw [told_append_reconcile E _ _ _ _ hnodup, if_neg hcreated, if_neg hdeleted]
  exact List.append_nil _

omit [ManagedGameSession C B O] in
theorem told_of_reappears (hnodup : s.presentCoins.Nodup) (hpresent : c ∉ s.presentCoins)
    (h : ShownLive c records ∨ FirstSpentIn height records s c) :
    ∃ rest, told c (s.cradle.seen ++ (reconcile E height records s).1.observations) =
      told c s.cradle.seen ++ .created c :: rest := by
  have hcreated : c ∈ (reconcile E height records s).1.created :=
    mem_created.mpr (h.imp_left fun hlive => ⟨hlive, hpresent⟩)
  rw [told_append_reconcile E _ _ _ _ hnodup, if_pos hcreated]
  exact ⟨_, rfl⟩

theorem undone_of_reportCoinStates (hrange : InRange height records)
    (hvisible : Visible E s g (.reportCoinStates height records)) (h : Undone g s) :
    Undone (next g s (.reportCoinStates height records))
      ((reportCoinStates E height records).after s) := by
  obtain ⟨hevicted, hseen, hunheard⟩ := reportCoinStates_after (E := E) (s := s) hrange
  obtain ⟨hheard, hcoins⟩ := hvisible hrange
  have hlive : ∀ c, c ∈ ((reportCoinStates E height records).after s).presentCoins →
      ShownLive c records :=
    fun c hc => mem_presentCoins_reconcile.mp (hevicted.present.subset hc)
  rw [next, if_pos hrange]
  refine ⟨?_, fun c count hc hmem => ?_, fun c => ?_⟩
  · exact hevicted.present.nodup nodup_presentCoins_reconcile
  · obtain ⟨rec, hrec, hcoin, hcreated, -⟩ := hlive c hmem
    dsimp only at hc
    split_ifs at hc with hrolled hreappears
    · exact hrolled.2.2.1 ⟨rec, hrec, hcoin, hcreated⟩
    · generalize g.standing c = standing at hc
      cases standing <;> cases hc
    · exact hreappears (.inl (hlive c hmem))
  · by_cases hheardNow : Heard E height records s
    swap
    · rw [hunheard hheardNow]
      dsimp only
      split_ifs with hrolled hreappears
      · exact rfl
      · exact (h.holds c).returned fun count hstanding =>
          hheardNow (hheard c count hstanding hreappears)
      · exact h.holds c
    rw [hseen hheardNow]
    dsimp only
    split_ifs with hrolled hreappears
    · obtain ⟨hwatched, hback⟩ := hrolled
      have hnotLive : ¬ ShownLive c records := by
        rintro ⟨rec, hrec, hcoin, hcreated, -⟩
        exact hback.2.1 ⟨rec, hrec, hcoin, hcreated⟩
      refine congrArg List.length (told_of_missing h.nodup hnotLive ?_ fun hpresent => ?_)
      · exact fun hfirst => hback.2.2 hfirst.2.2
      · have hunborn := (hcoins c).1 hwatched hback hpresent
        exact mem_vanished.mpr ⟨.inr hunborn, fun hshown => hback.2.1 hshown.2⟩
    · cases hstanding : g.standing c with
      | steady => trivial
      | back count =>
        have hold := h.holds c
        rw [hstanding] at hold
        exact Standing.Holds.append hold fun _ heq => by cases heq
      | undone count =>
        have hcount := h.holds c
        rw [hstanding] at hcount
        have hgone := h.gone c count hstanding
        have hcreated : ShownLive c records ∨ FirstSpentIn height records s c := by
          refine or_iff_not_imp_left.mpr fun hnotLive => ?_
          obtain ⟨hwatched, hspent⟩ := hreappears.resolve_left hnotLive
          obtain ⟨k, hk⟩ := Option.isSome_iff_exists.mp hwatched
          exact ⟨⟨k, hk, (hcoins c).2 count k hstanding hnotLive hspent hk⟩, hgone, hspent⟩
        obtain ⟨rest, htold⟩ := told_of_reappears (E := E) h.nodup hgone hcreated
        rw [Standing.returned, Standing.Holds, htold, ← hcount, List.getElem?_append_right le_rfl,
          Nat.sub_self]
        rfl
    · refine Standing.Holds.append (h.holds c) fun count hstanding => ?_
      rw [Reappears, not_or] at hreappears
      refine told_of_missing h.nodup hreappears.1 ?_ fun hpresent =>
        absurd hpresent (h.gone c count hstanding)
      rintro ⟨⟨k, hk, -⟩, -, hspent⟩
      exact hreappears.2 ⟨Option.isSome_of_eq_some hk, hspent⟩

end Snapshot

theorem undone_of_served (h : Served E Chain.start (Follows E) g s) : Undone g s := by
  induction h with
  | start session => exact ⟨List.nodup_nil, fun _ _ _ => List.not_mem_nil, fun _ => trivial⟩
  | @call g g' s h x hmay ih =>
    obtain ⟨rfl, hvisible⟩ := hmay
    have hidle : x.Idle → Undone (next g s x) (serve E s x) := by
      intro hx
      obtain ⟨hbetween, -⟩ := serve_of_idle (E := E) (s := s) hx
      have hnext : next g s x = g := by
        cases x with
        | reportHeight height => cases hx
        | reportCoinStates height records => cases hx
        | _ => rfl
      rw [hnext]
      refine ⟨hbetween.present ▸ ih.nodup, ?_, ?_⟩
      · rw [hbetween.present]
        exact ih.gone
      · rw [hbetween.seen]
        exact ih.holds
    cases x with
    | reportHeight height =>
      obtain ⟨hseen, hpresent, -⟩ := reportHeight_after (s := s) height
      have hstanding : (next g s (.reportHeight height)).standing = g.standing := by
        rw [next]
        split_ifs
        · rfl
        · rfl
      refine ⟨?_, ?_, ?_⟩
      · rw [serve, hpresent]
        exact ih.nodup
      · rw [serve, hpresent, hstanding]
        exact ih.gone
      · rw [serve, hseen, hstanding]
        exact ih.holds
    | reportCoinStates height records =>
      by_cases hrange : InRange height records
      · exact undone_of_reportCoinStates hrange hvisible ih
      · rw [serve, reportCoinStates_of_not_inRange hrange, next, if_neg hrange]
        exact ih
    | session cradle => exact hidle trivial
    | flushAndCollect => exact hidle trivial
    | drainSubmissions => exact hidle trivial
    | requeueSubmitted => exact hidle trivial
    | restore => exact hidle trivial

/-- A coin that a rollback took away is not told to be spent, and it is told to be created when it is
back. -/
theorem rolledBack_not_spent (h : Served E Chain.start (Follows E) g s) (c : CoinString) :
    (g.standing c).Holds c s.cradle.seen :=
  (undone_of_served h).holds c

/-! A rollback that only a height shows, and one that a snapshot shows. -/

namespace Reorg

open Rewound (coin watching)

def records : List CoinStateRecord := [⟨coin, some 99, none⟩]

def mined : TransactionManager (Recorded MockGameSession) Unit Unit :=
  serve MockGameSession.env watching (.reportCoinStates 100 records)

noncomputable def chain : Chain := next Chain.start watching (.reportCoinStates 100 records)

theorem inRange_records {height : ℕ} (h : height ≤ maxReportedHeight) : InRange height records :=
  ⟨h, by decide⟩

theorem chain_eq : chain =
    ⟨fun c => if c = coin then some 99 else none, 100, fun _ => .steady⟩ := by
  have hlive : ∀ c, ShownLive c records ↔ c = coin := by
    intro c
    constructor
    · rintro ⟨rec, hrec, rfl, -⟩
      rw [List.mem_singleton.mp hrec]
    · rintro rfl
      exact ⟨_, List.mem_singleton_self _, rfl, rfl, rfl⟩
  have hrange : InRange 100 records := inRange_records (by decide)
  rw [chain, next, if_pos hrange]
  congr 1
  · funext c
    simp only [hlive]
    split_ifs with hc
    · subst hc
      rfl
    · rfl
  · funext c
    rw [if_neg]
    · split_ifs <;> rfl
    · rintro ⟨-, ⟨birthday, hbirthday, -⟩, -⟩
      cases hbirthday

theorem rolledBack_coin {g : Chain} {height : ℕ} (hlive : g.live coin = some 99)
    (hlow : min g.low height < 99) : g.RolledBack height [] coin := by
  refine ⟨⟨99, hlive, hlow⟩, ?_, ?_⟩
  · rintro ⟨rec, hrec, -⟩
    cases hrec
  · rintro ⟨rec, hrec, -⟩
    cases hrec

/-- The height below the coin's birthday is forgotten by the time of the snapshot. -/
theorem rolledBack_spent : ¬ ∀ (g : Chain) (s : TransactionManager (Recorded MockGameSession) Unit Unit),
    Served MockGameSession.env Chain.start (fun g s x g' => g' = next g s x) g s →
      ∀ c, (g.standing c).Holds c s.cradle.seen := by
  intro h
  have hwatching : Served MockGameSession.env Chain.start (fun g s x g' => g' = next g s x)
      Chain.start watching := .call (.start _) .flushAndCollect rfl
  have hmined : Served MockGameSession.env Chain.start (fun g s x g' => g' = next g s x)
      chain mined := hwatching.call _ rfl
  have hlower := hmined.call (.reportHeight 98) rfl
  have hagain := hlower.call (.reportCoinStates 100 []) rfl
  have hholds := h _ _ hagain coin
  rw [chain_eq] at hholds
  have hrange : InRange 100 [] := ⟨by decide, rfl⟩
  have hmax : 98 ≤ maxReportedHeight := by decide
  rw [next, next, if_pos hmax, if_pos hrange] at hholds
  dsimp only at hholds
  rw [if_pos ⟨by decide, rolledBack_coin rfl (by decide)⟩] at hholds
  revert hholds
  rw [Standing.Holds]
  decide

def unmined : TransactionManager (Recorded MockGameSession) Unit Unit :=
  serve MockGameSession.env mined (.reportCoinStates 98 [])

theorem live_chain {c : CoinString} {birthday : ℕ} (h : chain.live c = some birthday) : c = coin := by
  rw [chain_eq] at h
  dsimp only at h
  split_ifs at h with hc
  exact hc

theorem next_unmined : next chain mined (.reportCoinStates 98 []) =
    ⟨fun _ => none, 98, fun c => if c = coin then .undone 1 else .steady⟩ := by
  have hrange : InRange 98 [] := ⟨by decide, rfl⟩
  have hshown : ∀ c, ¬ ShownLive c [] := by
    rintro c ⟨rec, hrec, -⟩
    cases hrec
  rw [next, if_pos hrange]
  congr 1
  · funext c
    rw [if_neg (hshown c)]
  · funext c
    by_cases hc : c = coin
    · subst hc
      rw [if_pos ⟨by decide, rolledBack_coin (by rw [chain_eq]; rfl) (by rw [chain_eq]; decide)⟩,
        if_pos rfl]
      rfl
    · have hsteady : chain.standing c = .steady := by rw [chain_eq]
      rw [if_neg hc, if_neg fun h => hc (live_chain h.2.1.choose_spec.1), hsteady]
      split_ifs
      · rfl
      · rfl

theorem follows_mined : Follows MockGameSession.env Chain.start watching
    (.reportCoinStates 100 records) chain := by
  refine ⟨rfl, fun _ => ⟨fun _ _ _ _ => .inr ⟨_, rfl⟩, fun c => ⟨fun _ hback => ?_, fun count k hstanding => ?_⟩⟩⟩
  · obtain ⟨birthday, hbirthday, -⟩ := hback.1
    cases hbirthday
  · cases hstanding

theorem follows_unmined : Follows MockGameSession.env chain mined (.reportCoinStates 98 [])
    (next chain mined (.reportCoinStates 98 [])) := by
  refine ⟨rfl, fun _ => ⟨fun _ _ _ _ => .inr ⟨_, rfl⟩, fun c => ⟨fun _ hback _ => ?_, fun count k hstanding => ?_⟩⟩⟩
  · obtain rfl := live_chain hback.1.choose_spec.1
    exact ⟨by decide, _, rfl, by decide⟩
  · rw [chain_eq] at hstanding
    cases hstanding

theorem rolledBack_not_spent_back :
    (told coin (serve MockGameSession.env unmined (.reportCoinStates 99 records)).cradle.seen)[1]? =
      some (.created coin) := by
  have hwatching : Served MockGameSession.env Chain.start (Follows MockGameSession.env)
      Chain.start watching := .call (.start _) .flushAndCollect ⟨rfl, trivial⟩
  have hunmined := (hwatching.call _ follows_mined).call _ follows_unmined
  rw [next_unmined] at hunmined
  have hlive : ShownLive coin records := ⟨_, List.mem_singleton_self _, rfl, rfl, rfl⟩
  have hagain : Served MockGameSession.env Chain.start (Follows MockGameSession.env)
      (next _ unmined (.reportCoinStates 99 records)) _ := hunmined.call _ ⟨rfl, fun _ =>
    ⟨fun _ _ _ _ => .inr ⟨_, rfl⟩, fun c => ⟨fun _ hback => ?_, fun count k hstanding hnotLive => ?_⟩⟩⟩
  · have hholds := rolledBack_not_spent hagain coin
    rw [next, if_pos (inRange_records (by decide))] at hholds
    dsimp only at hholds
    rw [if_neg, if_pos (.inl hlive), if_pos rfl] at hholds
    · exact hholds
    · rintro ⟨-, ⟨birthday, hbirthday, -⟩, -⟩
      cases hbirthday
  · obtain ⟨birthday, hbirthday, -⟩ := hback.1
    cases hbirthday
  · dsimp only at hstanding
    split_ifs at hstanding with hc
    exact absurd (hc ▸ hlive) hnotLive

end Reorg

end TransactionManager

end ChiaGaming
