import ChiaGaming.Manager.Diff

namespace ChiaGaming

open Act

namespace TransactionManager

variable {C B O : Type}

/-! What the calls to the session leave alone. -/

/-- What the manager knows of the coins and the tip. -/
def books (s : TransactionManager C B O) :
    (CoinString → Option Track) × List CoinString × List CoinString × ℕ × ℕ × Option ℕ :=
  (trackOf s.watchedCoins, s.presentCoins, s.vanishedCoins, s.lastSnapshotHeight, s.lastHeight,
    s.timeoutRollbackHeight)

theorem after_onSession {α : Type} (x : Act Error C α) (s : TransactionManager C B O) :
    (onSession x).after s = { s with cradle := x.after s.cradle } := by
  rw [after, onSession, after]
  cases x s.cradle <;> rfl

theorem keeps_onSession {α γ : Type} {f : TransactionManager C B O → γ} {x : Act Error C α}
    (h : ∀ s c, f { s with cradle := c } = f s) : Keeps f (onSession (B := B) (O := O) x) := by
  intro s
  rw [after_onSession]
  exact h s _

section Calls

variable [ManagedGameSession C B O] {γ : Type} {f : TransactionManager C B O → γ}

theorem keeps_reportTimeoutClaimRearms (h : ∀ semantic,
    Keeps f (onSession (ManagedGameSession.sessionTimeoutClaimRearmed semantic)))
    (reported rearmed : List TimeoutClaimSemantic) :
    Keeps f (reportTimeoutClaimRearms reported rearmed) := by
  induction rearmed generalizing reported with
  | nil => exact keeps_pure _
  | cons semantic rest ih =>
    rw [reportTimeoutClaimRearms]
    exact keeps_ite (ih _) ((h semantic).bind fun _ => ih _)

theorem keeps_tellSubmitted (h : ∀ semantic,
    Keeps f (onSession (ManagedGameSession.sessionTimeoutClaimSubmitted semantic)))
    (semantics : List TimeoutClaimSemantic) : Keeps f (tellSubmitted semantics) := by
  induction semantics with
  | nil => exact keeps_pure _
  | cons semantic rest ih => exact (h semantic).bind fun _ => ih

theorem keeps_submitClaims (h : ∀ semantic,
    Keeps f (onSession (ManagedGameSession.sessionTimeoutClaimSubmitted semantic)))
    (hpending : ∀ s pending, f { s with pendingSubmissions := pending } = f s)
    (claims : List (B × Option TimeoutClaimSemantic)) : Keeps f (submitClaims claims) := by
  induction claims with
  | nil => exact keeps_pure _
  | cons claim rest ih =>
    exact (keeps_tellSubmitted h _).bind fun _ => (keeps_modify fun s => hpending s _).bind fun _ => ih

/-- Whatever is untouched by the notices to the session, the claims and the queue of submissions. -/
theorem keeps_updateTimeoutClaims (hrearmed : ∀ semantic,
    Keeps f (onSession (ManagedGameSession.sessionTimeoutClaimRearmed semantic)))
    (hsubmitted : ∀ semantic,
      Keeps f (onSession (ManagedGameSession.sessionTimeoutClaimSubmitted semantic)))
    (hpending : ∀ s pending, f { s with pendingSubmissions := pending } = f s)
    (hreconciled : ∀ s, f { s with timeoutClaimStatusReconciled := true } = f s)
    (hclaims : ∀ s (q : WatchedCoin B → Bool), f { s with
      watchedCoins := s.watchedCoins.update fun _ w =>
        if q w then { w with claimSubmitted := true } else w } = f s)
    (height : ℕ) (rearmed : List TimeoutClaimSemantic) :
    Keeps f (updateTimeoutClaims height rearmed) := by
  refine (keeps_reportTimeoutClaimRearms hrearmed _ _).bind fun _ => ?_
  refine Keeps.bind ?_ fun _ => ?_
  · refine keeps_get.bind fun s => keeps_ite (keeps_pure _) ?_
    exact (keeps_tellSubmitted hsubmitted _).bind fun _ => keeps_modify hreconciled
  · refine keeps_get.bind fun s => ?_
    exact (keeps_modify fun s => hclaims s _).bind fun _ => keeps_submitClaims hsubmitted hpending _

theorem keeps_books_updateTimeoutClaims (height : ℕ) (rearmed : List TimeoutClaimSemantic) :
    Keeps (books (C := C) (B := B) (O := O)) (updateTimeoutClaims height rearmed) := by
  refine keeps_updateTimeoutClaims (fun _ => keeps_onSession fun _ _ => rfl)
    (fun _ => keeps_onSession fun _ _ => rfl) (fun _ _ => rfl) (fun _ => rfl) (fun s q => ?_) _ _
  have htrack : ∀ c, trackOf (s.watchedCoins.update fun _ w =>
      if q w then { w with claimSubmitted := true } else w) c = trackOf s.watchedCoins c := by
    intro c
    rw [trackOf_update id fun w => ?_, Option.map_id, id]
    split_ifs <;> rfl
  simp only [books, Prod.mk.injEq, and_true]
  exact funext htrack

theorem keeps_books_announce (height : ℕ) (rearmed : List TimeoutClaimSemantic)
    (observations : Option (List CoinObservation)) :
    Keeps (books (C := C) (B := B) (O := O)) (announce height rearmed observations) :=
  (keeps_books_updateTimeoutClaims _ _).bind fun _ => keeps_onSession fun _ _ => rfl

end Calls

/-! A session that keeps a record of what it is told. -/

/-- A session with the observations that it was told, in order. -/
structure Recorded (C : Type) where
  session : C
  seen : List CoinObservation

def Recorded.run {α : Type} (x : Act Error C α) : Act Error (Recorded C) α := fun r =>
  match x r.session with
  | .ok a c => .ok a { r with session := c }
  | .error e c => .error e { r with session := c }

instance [ManagedGameSession C B O] : ManagedGameSession (Recorded C) B O where
  sessionObserve height observations := do
    modify fun r => { r with seen := r.seen ++ observations.getD [] }
    Recorded.run (ManagedGameSession.sessionObserve height observations)
  sessionFlushAndCollect := Recorded.run ManagedGameSession.sessionFlushAndCollect
  sessionTimeoutClaimSubmitted semantic :=
    Recorded.run (ManagedGameSession.sessionTimeoutClaimSubmitted semantic)
  sessionTimeoutClaimRearmed semantic :=
    Recorded.run (ManagedGameSession.sessionTimeoutClaimRearmed semantic)
  isAbandoned r := ManagedGameSession.isAbandoned r.session

theorem Recorded.keeps_run {α : Type} (x : Act Error C α) : Keeps Recorded.seen (Recorded.run x) := by
  intro r
  rw [after, Recorded.run]
  cases x r.session <;> rfl

/-! The calls of the host. -/

/-- A saved manager that is loaded again: what was on its way to the host is not saved. -/
def restored (s : TransactionManager C B O) : TransactionManager C B O :=
  { s with
    pendingEvents := []
    pendingWatchCoins := []
    pendingUnwatchCoins := []
    pendingResync := none
    timeoutClaimStatusReconciled := false }

inductive HostCall (C : Type) where
  | session (c : C)
  | flushAndCollect
  | drainSubmissions
  | requeueSubmitted
  | restore
  | reportHeight (height : ℕ)
  | reportCoinStates (height : ℕ) (records : List CoinStateRecord)

section Host

variable [ManagedGameSession C B O]

/-- A call of the host, whether or not it fails. -/
def serve (E : BundleEnv B) (s : TransactionManager (Recorded C) B O) :
    HostCall C → TransactionManager (Recorded C) B O
  | .session c => { s with cradle := { s.cradle with session := c } }
  | .flushAndCollect => flushAndCollect.after s
  | .drainSubmissions => (drainSubmissions E).after s
  | .requeueSubmitted => s.requeueSubmitted
  | .restore => s.restored
  | .reportHeight height => (reportHeight height).after s
  | .reportCoinStates height records => (reportCoinStates E height records).after s

/-- The runs of a manager; `may` says which calls come when, and what the feed stands at then. -/
inductive Served {G : Type} (E : BundleEnv B) (g₀ : G)
    (may : G → TransactionManager (Recorded C) B O → HostCall C → G → Prop) :
    G → TransactionManager (Recorded C) B O → Prop where
  | start (c : C) : Served E g₀ may g₀ (new ⟨c, []⟩)
  | call {g g' : G} {s : TransactionManager (Recorded C) B O} (h : Served E g₀ may g s)
      (x : HostCall C) (hmay : may g s x g') : Served E g₀ may g' (serve E s x)

end Host

/-- Heights that the manager does not reject. -/
def InRange (height : ℕ) (records : List CoinStateRecord) : Prop :=
  height ≤ maxReportedHeight ∧ badHeight records = none

/-- What the calls between two reports leave as it was. -/
structure Between (s s' : TransactionManager (Recorded C) B O) : Prop where
  present : s'.presentCoins = s.presentCoins
  snapshot : s'.lastSnapshotHeight = s.lastSnapshotHeight
  height : s'.lastHeight = s.lastHeight
  epoch : s'.timeoutRollbackHeight = s.timeoutRollbackHeight
  seen : s'.cradle.seen = s.cradle.seen
  vanished : s'.vanishedCoins ⊆ s.vanishedCoins

instance : Std.Refl (Between (C := C) (B := B) (O := O)) where
  refl _ := ⟨rfl, rfl, rfl, rfl, rfl, List.Subset.refl _⟩

instance : IsTrans (TransactionManager (Recorded C) B O) Between where
  trans _ _ _ h h' :=
    ⟨h'.present.trans h.present, h'.snapshot.trans h.snapshot, h'.height.trans h.height,
      h'.epoch.trans h.epoch, h'.seen.trans h.seen, List.Subset.trans h'.vanished h.vanished⟩

theorem between_of_books {s s' : TransactionManager (Recorded C) B O} (hbooks : s'.books = s.books)
    (hseen : s'.cradle.seen = s.cradle.seen) : Between s s' := by
  simp only [books, Prod.mk.injEq] at hbooks
  obtain ⟨-, hpresent, hvanished, hsnapshot, hheight, hepoch⟩ := hbooks
  exact ⟨hpresent, hsnapshot, hheight, hepoch, hseen, hvanished ▸ List.Subset.refl _⟩

section Host

variable [ManagedGameSession C B O] {E : BundleEnv B} {s : TransactionManager (Recorded C) B O}
  {c : CoinString}

omit [ManagedGameSession C B O] in
theorem trackOf_registerWatch (coin : CoinString) (timeout : ℕ) (spend : Option B)
    (semantic : Option TimeoutClaimSemantic) (watched : Dict CoinString (WatchedCoin B)) :
    trackOf (registerWatch coin timeout spend semantic watched) c = trackOf watched c ∨
      (c = coin ∧ trackOf watched c = none ∧
        trackOf (registerWatch coin timeout spend semantic watched) c = some ⟨none, none⟩) := by
  rw [registerWatch]
  by_cases hc : c = coin
  · subst hc
    cases hw : watched.lookup c with
    | none =>
      refine .inr ⟨rfl, ?_, ?_⟩
      · rw [trackOf, hw]
        rfl
      · rw [trackOf, AList.lookup_insert]
        rfl
    | some w =>
      refine .inl ?_
      simp only [trackOf, AList.lookup_insert, hw, Option.map_some]
      split_ifs <;> rfl
  · refine .inl ?_
    cases watched.lookup coin with
    | none => simp only [trackOf, AList.lookup_insert_ne hc]
    | some w => simp only [trackOf, AList.lookup_insert_ne hc]

def Watches (events : List (SessionEvent B O)) (c : CoinString) : Prop :=
  ∃ timeout spend semantic, SessionEvent.watchCoin c timeout spend semantic ∈ events

/-- Events register watches; a coin that is watched already keeps its record. -/
theorem absorbEvents_frame {C : Type} (events : List (SessionEvent B O))
    (s : TransactionManager C B O) :
    (∃ watched submissions others watch, absorbEvents events s = { s with
      watchedCoins := watched, pendingSubmissions := submissions
      pendingEvents := others, pendingWatchCoins := watch }) ∧
    ∀ c, trackOf (absorbEvents events s).watchedCoins c = trackOf s.watchedCoins c ∨
      (Watches events c ∧ trackOf s.watchedCoins c = none ∧
        trackOf (absorbEvents events s).watchedCoins c = some ⟨none, none⟩) := by
  induction events generalizing s with
  | nil => exact ⟨⟨_, _, _, _, rfl⟩, fun c => .inl rfl⟩
  | cons event rest ih =>
    obtain ⟨⟨watched, submissions, others, watch, hrest⟩, htrack⟩ := ih (absorbEvent s event)
    refine ⟨⟨watched, submissions, others, watch, ?_⟩, fun c => ?_⟩
    · refine hrest.trans ?_
      cases event <;> rfl
    · have hevent : trackOf (absorbEvent s event).watchedCoins c = trackOf s.watchedCoins c ∨
          (Watches (event :: rest) c ∧ trackOf s.watchedCoins c = none ∧
            trackOf (absorbEvent s event).watchedCoins c = some ⟨none, none⟩) := by
        cases event with
        | outboundTransaction bundle expiry => exact .inl rfl
        | watchCoin coin timeout spend semantic =>
          refine (trackOf_registerWatch coin timeout spend semantic s.watchedCoins).imp_right ?_
          rintro ⟨rfl, h⟩
          exact ⟨⟨timeout, spend, semantic, List.mem_cons_self⟩, h⟩
        | other event => exact .inl rfl
      rcases htrack c with h | ⟨⟨timeout, spend, semantic, hmem⟩, hnone, h⟩
      · rw [absorbEvents, List.foldl_cons]
        exact hevent.imp h.trans fun ⟨hwatch, hnone, hfresh⟩ => ⟨hwatch, hnone, h.trans hfresh⟩
      · refine .inr ⟨⟨timeout, spend, semantic, List.mem_cons_of_mem _ hmem⟩, ?_, h⟩
        rcases hevent with heq | ⟨-, hnone', -⟩
        · exact heq ▸ hnone
        · exact hnone'

/-- The session asks for a coin that has no record, or none any more once it is abandoned. -/
def WatchedAnew (s : TransactionManager (Recorded C) B O) (c : CoinString) : Prop :=
  ∃ result cradle, ManagedGameSession.sessionFlushAndCollect s.cradle = .ok result cradle ∧
    Watches result.events c ∧
    (trackOf s.watchedCoins c = none ∨ ManagedGameSession.isAbandoned cradle)

theorem trackOf_flushAndCollect :
    let s' := (flushAndCollect : Act Error (TransactionManager (Recorded C) B O) _).after s
    trackOf s'.watchedCoins c = trackOf s.watchedCoins c ∨ trackOf s'.watchedCoins c = none ∨
      (WatchedAnew s c ∧ trackOf s'.watchedCoins c = some ⟨none, none⟩) := by
  dsimp only
  cases hflush : ManagedGameSession.sessionFlushAndCollect s.cradle with
  | error e cradle =>
    have hr : onSession ManagedGameSession.sessionFlushAndCollect s =
        .error e { s with cradle := cradle } := by
      rw [onSession, hflush]
    rw [after, flushAndCollect, bind_of_error hr]
    exact .inl rfl
  | ok result cradle =>
    have hr : onSession ManagedGameSession.sessionFlushAndCollect s =
        .ok result { s with cradle := cradle } := by
      rw [onSession, hflush]
    let s₁ : TransactionManager (Recorded C) B O := { s with cradle := cradle }
    let s₂ := if result.resync.isSome then { s₁ with pendingResync := result.resync } else s₁
    let s₃ := if ManagedGameSession.isAbandoned s₂.cradle then s₂.discardLocalArtifacts else s₂
    have hafter : ((flushAndCollect : Act Error (TransactionManager (Recorded C) B O) _).after
        s).watchedCoins = (absorbEvents result.events s₃).watchedCoins := by
      rw [after, flushAndCollect, bind_of_ok hr]
      rfl
    have hs₂ : s₂.watchedCoins = s.watchedCoins ∧ s₂.cradle = cradle := by
      unfold s₂
      split_ifs
      · exact ⟨rfl, rfl⟩
      · exact ⟨rfl, rfl⟩
    have hs₃ : trackOf s₃.watchedCoins c = trackOf s.watchedCoins c ∨
        (ManagedGameSession.isAbandoned cradle ∧ trackOf s₃.watchedCoins c = none) := by
      unfold s₃
      rw [hs₂.2]
      split_ifs with habandoned
      · exact .inr ⟨habandoned, rfl⟩
      · rw [hs₂.1]
        exact .inl rfl
    rw [hafter]
    rcases (absorbEvents_frame result.events s₃).2 c with heq | ⟨hwatch, hnone, hfresh⟩
    · rw [heq]
      exact hs₃.imp_right fun h => .inl h.2
    · refine .inr (.inr ⟨⟨result, cradle, hflush, hwatch, ?_⟩, hfresh⟩)
      exact hs₃.imp (fun heq => heq.symm.trans hnone) fun h => h.1

theorem moves_flushAndCollect :
    Moves Between (flushAndCollect : Act Error (TransactionManager (Recorded C) B O) _) := by
  have hmodify : ∀ f : TransactionManager (Recorded C) B O → TransactionManager (Recorded C) B O,
      (∀ s, Between s (f s)) → Moves Between (modify f : Act Error _ PUnit) := fun f h s => h s
  rw [flushAndCollect]
  refine Moves.bind (fun s => ?_) fun result => ?_
  · rw [after_onSession]
    exact between_of_books rfl (Recorded.keeps_run _ s.cradle)
  refine (hmodify _ fun s => ?_).bind fun _ => (hmodify _ fun s => ?_).bind fun _ =>
    (hmodify _ fun s => ?_).bind fun _ => moves_get.bind fun s => (hmodify _ fun s => ?_).bind
      fun _ => moves_pure _
  · split_ifs
    · exact between_of_books rfl rfl
    · exact Std.Refl.refl s
  · split_ifs
    · exact ⟨rfl, rfl, rfl, rfl, rfl, List.nil_subset _⟩
    · exact Std.Refl.refl s
  · obtain ⟨⟨watched, submissions, others, watch, heq⟩, -⟩ := absorbEvents_frame result.events s
    rw [heq]
    exact ⟨rfl, rfl, rfl, rfl, rfl, List.Subset.refl _⟩
  · exact between_of_books rfl rfl

omit [ManagedGameSession C B O] in
theorem keeps_drainSubmissions {γ : Type} {f : TransactionManager (Recorded C) B O → γ}
    (h : ∀ s submitted, f { s with pendingSubmissions := [], submitted := submitted } = f s) :
    Keeps f (drainSubmissions E) := by
  intro s
  rw [after, drainSubmissions, bind_of_ok (get_apply s)]
  cases newOutputs E s.submitted s.pendingSubmissions with
  | ok outputs => exact h s _
  | error e => rfl

/-- A call that reports nothing. -/
def HostCall.Idle : HostCall C → Prop
  | .reportHeight _ => False
  | .reportCoinStates _ _ => False
  | _ => True

theorem serve_of_idle {x : HostCall C} (hx : x.Idle) : Between s (serve E s x) ∧
    ∀ c, trackOf (serve E s x).watchedCoins c = trackOf s.watchedCoins c ∨
      trackOf (serve E s x).watchedCoins c = none ∨
      (x = .flushAndCollect ∧ WatchedAnew s c ∧
        trackOf (serve E s x).watchedCoins c = some ⟨none, none⟩) := by
  cases x with
  | session c => exact ⟨between_of_books rfl rfl, fun _ => .inl rfl⟩
  | flushAndCollect =>
    refine ⟨moves_flushAndCollect s, fun c => ?_⟩
    exact trackOf_flushAndCollect.imp_right fun h => h.imp_right fun h => ⟨rfl, h⟩
  | drainSubmissions =>
    have hbooks : (serve E s .drainSubmissions).books = s.books :=
      keeps_drainSubmissions (fun _ _ => rfl) s
    have hseen : (serve E s .drainSubmissions).cradle.seen = s.cradle.seen :=
      keeps_drainSubmissions (f := fun s => s.cradle.seen) (fun _ _ => rfl) s
    exact ⟨between_of_books hbooks hseen, fun c => .inl (congrFun (congrArg Prod.fst hbooks) c)⟩
  | requeueSubmitted => exact ⟨between_of_books rfl rfl, fun _ => .inl rfl⟩
  | restore => exact ⟨between_of_books rfl rfl, fun _ => .inl rfl⟩
  | reportHeight height => cases hx
  | reportCoinStates height records => cases hx

theorem keeps_seen_updateTimeoutClaims (height : ℕ) (rearmed : List TimeoutClaimSemantic) :
    Keeps (fun s : TransactionManager (Recorded C) B O => s.cradle.seen)
      (updateTimeoutClaims height rearmed) := by
  refine keeps_updateTimeoutClaims (fun semantic s => ?_) (fun semantic s => ?_) (fun _ _ => rfl)
    (fun _ => rfl) (fun _ _ => rfl) _ _
  · rw [after_onSession]
    exact Recorded.keeps_run _ s.cradle
  · rw [after_onSession]
    exact Recorded.keeps_run _ s.cradle

theorem seen_sessionObserve (height : ℕ) (observations : Option (List CoinObservation))
    (r : Recorded C) :
    ((ManagedGameSession.sessionObserve (B := B) (O := O) height observations).after r).seen =
      r.seen ++ observations.getD [] :=
  Recorded.keeps_run (ManagedGameSession.sessionObserve (B := B) (O := O) height observations)
    { r with seen := r.seen ++ observations.getD [] }

/-- No notice about the claims fails. -/
def Notified (height : ℕ) (rearmed : List TimeoutClaimSemantic)
    (s : TransactionManager (Recorded C) B O) : Prop :=
  ∃ s', updateTimeoutClaims height rearmed s = .ok () s'

/-- The session is told the observations unless a notice about the claims fails before. -/
theorem seen_announce (height : ℕ) (rearmed : List TimeoutClaimSemantic)
    (observations : Option (List CoinObservation)) :
    (Notified height rearmed s → ((announce height rearmed observations).after s).cradle.seen =
      s.cradle.seen ++ observations.getD []) ∧
    (¬ Notified height rearmed s →
      ((announce height rearmed observations).after s).cradle.seen = s.cradle.seen) := by
  have hupdate : ((updateTimeoutClaims height rearmed).after s).cradle.seen = s.cradle.seen :=
    keeps_seen_updateTimeoutClaims height rearmed s
  cases hr : updateTimeoutClaims height rearmed s with
  | ok u s₁ =>
    refine ⟨fun _ => ?_, fun hnot => absurd ⟨s₁, hr⟩ hnot⟩
    rw [after_of_ok hr] at hupdate
    have hobserve : ((announce height rearmed observations).after s).cradle =
        ((ManagedGameSession.sessionObserve (B := B) (O := O) height observations).after
          s₁.cradle) := by
      rw [after, announce, bind_of_ok hr]
      exact congrArg TransactionManager.cradle
        (after_onSession (ManagedGameSession.sessionObserve height observations) s₁)
    rw [hobserve, seen_sessionObserve, hupdate]
  | error e s₁ =>
    refine ⟨fun hnotified => ?_, fun _ => ?_⟩
    · obtain ⟨s', hok⟩ := hnotified
      rw [hr] at hok
      cases hok
    · rw [after_of_error hr] at hupdate
      rw [after, announce, bind_of_error hr]
      exact hupdate

/-! A height without a snapshot. -/

/-- A new height below the last one takes back the spends above it. -/
theorem reportHeight_after (height : ℕ) :
    let s' := (reportHeight height).after s
    s'.cradle.seen = s.cradle.seen ∧ s'.presentCoins = s.presentCoins ∧
      s'.vanishedCoins = s.vanishedCoins ∧ s'.lastSnapshotHeight = s.lastSnapshotHeight ∧
      ∀ c, trackOf s'.watchedCoins c = (trackOf s.watchedCoins c).map fun k =>
        if height ≤ maxReportedHeight ∧ height < s.lastHeight ∧
          s.timeoutRollbackHeight ≠ some height ∧ k.spentConfirmedAt.any (height < ·)
        then { k with spentConfirmedAt := none } else k := by
  by_cases hrange : maxReportedHeight < height
  · have hsame : (reportHeight height).after s = s := by
      rw [after, reportHeight, if_pos hrange]
      rfl
    rw [hsame]
    refine ⟨rfl, rfl, rfl, rfl, fun c => ?_⟩
    simp only [Nat.not_le.mpr hrange, false_and, if_false]
    exact Option.map_id'.symm
  · let s₀ : TransactionManager (Recorded C) B O := { s with lastHeight := height }
    let invalidated := invalidateTimeoutClaimsForRollbackEpoch height (height < s.lastHeight) s₀
    obtain ⟨epoch, watched, hframe⟩ := invalidate_frame height
      (height < s.lastHeight) s₀
    have htail : (reportHeight height).after s =
        (announce height (invalidated.1.getD []) none).after invalidated.2 := by
      rw [after, reportHeight, if_neg hrange, bind_of_ok (get_apply s), bind_of_ok (set_apply _ _)]
      rfl
    have hbooks : ((reportHeight height).after s).books = invalidated.2.books := by
      rw [htail]
      exact keeps_books_announce _ _ _ _
    have hseen : ((reportHeight height).after s).cradle.seen = invalidated.2.cradle.seen := by
      rw [htail]
      by_cases hnotified : Notified height (invalidated.1.getD []) invalidated.2
      · exact ((seen_announce _ _ none).1 hnotified).trans (List.append_nil _)
      · exact (seen_announce _ _ none).2 hnotified
    simp only [books, Prod.mk.injEq] at hbooks
    obtain ⟨htrack, hpresent, hvanished, hsnapshot, -, -⟩ := hbooks
    refine ⟨?_, ?_, ?_, ?_, fun c => ?_⟩
    · rw [hseen, show invalidated.2 = _ from hframe]
    · rw [hpresent, show invalidated.2 = _ from hframe]
    · rw [hvanished, show invalidated.2 = _ from hframe]
    · rw [hsnapshot, show invalidated.2 = _ from hframe]
    · rw [htrack]
      refine (trackOf_invalidate _).trans ?_
      congr 1
      funext k
      simp only [Nat.not_lt.mp hrange, true_and, decide_eq_true_eq, s₀]

/-! A snapshot. -/

theorem reportCoinStates_of_not_inRange {height : ℕ} {records : List CoinStateRecord}
    (h : ¬ InRange height records) : (reportCoinStates E height records).after s = s := by
  rw [after, reportCoinStates]
  split_ifs with hheight
  · rfl
  · cases hbad : badHeight records with
    | some n => rfl
    | none => exact absurd ⟨Nat.not_lt.mp hheight, hbad⟩ h

/-- A snapshot takes coins whose spend is deep enough off the books. -/
structure Evicted (s s' : TransactionManager (Recorded C) B O) : Prop where
  snapshot : s'.lastSnapshotHeight = s.lastSnapshotHeight
  vanished : s'.vanishedCoins ⊆ s.vanishedCoins
  present : s'.presentCoins.Sublist s.presentCoins
  coin : ∀ c,
    (trackOf s'.watchedCoins c = trackOf s.watchedCoins c ∧
      (c ∈ s'.presentCoins ↔ c ∈ s.presentCoins)) ∨
    (trackOf s'.watchedCoins c = none ∧ c ∉ s'.presentCoins ∧
      ∃ k, trackOf s.watchedCoins c = some k ∧ k.spentConfirmedAt.isSome)

omit [ManagedGameSession C B O] in
theorem evicted_of_books {s s' : TransactionManager (Recorded C) B O} (h : s'.books = s.books) :
    Evicted s s' := by
  simp only [books, Prod.mk.injEq] at h
  obtain ⟨htrack, hpresent, hvanished, hsnapshot, -, -⟩ := h
  refine ⟨hsnapshot, hvanished ▸ List.Subset.refl _, hpresent ▸ List.Sublist.refl _, fun c => .inl ?_⟩
  rw [htrack, hpresent]
  exact ⟨rfl, Iff.rfl⟩

omit [ManagedGameSession C B O] in
theorem evicted_evictConfirmedSpends (height : ℕ) : Evicted s (s.evictConfirmedSpends E height) := by
  refine ⟨rfl, List.filter_subset_self _, List.filter_sublist, fun c => ?_⟩
  have hlookup : (s.evictConfirmedSpends E height).watchedCoins.lookup c =
      (s.watchedCoins.lookup c).filter fun w => !w.buried s.confirmationDepth height :=
    Dict.lookup_retain _ _
  have hpresent : c ∈ (s.evictConfirmedSpends E height).presentCoins ↔ c ∈ s.presentCoins ∧
      ¬ ∃ w, s.watchedCoins.lookup c = some w ∧ w.buried s.confirmationDepth height := by
    rw [evictConfirmedSpends, List.mem_filter, decide_eq_true_eq]
    refine and_congr_right fun _ => not_congr ?_
    simp only [List.mem_map, List.mem_filter, Dict.lookup_eq_some]
    constructor
    · rintro ⟨⟨c', w⟩, ⟨hmem, hburied⟩, rfl⟩
      exact ⟨w, hmem, hburied⟩
    · rintro ⟨w, hmem, hburied⟩
      exact ⟨⟨c, w⟩, ⟨hmem, hburied⟩, rfl⟩
  cases hw : s.watchedCoins.lookup c with
  | none =>
    refine .inl ⟨?_, ?_⟩
    · rw [trackOf, trackOf, hlookup, hw]
      rfl
    · simp [hpresent, hw]
  | some w =>
    by_cases hburied : w.buried s.confirmationDepth height
    · refine .inr ⟨?_, ?_, w.track, ?_, ?_⟩
      · rw [trackOf, hlookup, hw, Option.filter_some, if_neg (by simp [hburied])]
        rfl
      · simp [hpresent, hw, hburied]
      · rw [trackOf, hw]
        rfl
      · rw [WatchedCoin.buried, Option.any_eq_true] at hburied
        obtain ⟨n, hn, -⟩ := hburied
        exact Option.isSome_of_eq_some hn
    · refine .inl ⟨?_, ?_⟩
      · rw [trackOf, trackOf, hlookup, hw, Option.filter_some, if_pos (by simp [hburied])]
      · simp [hpresent, hw, hburied]

instance : IsTrans (TransactionManager (Recorded C) B O) Evicted where
  trans s₁ s₂ s₃ h h' := by
    refine ⟨h'.snapshot.trans h.snapshot, List.Subset.trans h'.vanished h.vanished,
      h'.present.trans h.present, fun c => ?_⟩
    rcases h'.coin c with ⟨htrack, hpresent⟩ | ⟨hnone, hgone, k, hk, hspent⟩
    · rw [htrack, hpresent]
      exact h.coin c
    · rcases h.coin c with ⟨htrack, -⟩ | ⟨htrack, -⟩
      · exact .inr ⟨hnone, hgone, k, htrack ▸ hk, hspent⟩
      · rw [htrack] at hk
        cases hk

/-- What the snapshot has to say, if anything, comes through to the session. -/
def Heard (E : BundleEnv B) (height : ℕ) (records : List CoinStateRecord)
    (s : TransactionManager (Recorded C) B O) : Prop :=
  (reconcile E height records s).1.observations = [] ∨
    Notified height (reconcile E height records s).1.rearmed (reconcile E height records s).2

theorem reportCoinStates_of_inRange {height : ℕ} {records : List CoinStateRecord}
    (hrange : InRange height records) : reportCoinStates E height records s =
      (announce height (reconcile E height records s).1.rearmed
          (some (reconcile E height records s).1.observations) >>=
        fun _ => modify (evictConfirmedSpends E height)) (reconcile E height records s).2 := by
  rw [reportCoinStates, if_neg (Nat.not_lt.mpr hrange.1), hrange.2]
  rfl

theorem reportCoinStates_after {height : ℕ} {records : List CoinStateRecord}
    (hrange : InRange height records) :
    Evicted (reconcile E height records s).2 ((reportCoinStates E height records).after s) ∧
      (Heard E height records s → ((reportCoinStates E height records).after s).cradle.seen =
        s.cradle.seen ++ (reconcile E height records s).1.observations) ∧
      (¬ Heard E height records s →
        ((reportCoinStates E height records).after s).cradle.seen = s.cradle.seen) := by
  let r := reconcile E height records s
  let announced : Act Error (TransactionManager (Recorded C) B O) Unit :=
    announce height r.1.rearmed (some r.1.observations)
  have hstart : reportCoinStates E height records s =
      (announced >>= fun _ => modify (evictConfirmedSpends E height)) r.2 :=
    reportCoinStates_of_inRange hrange
  have hbooks : Evicted r.2 (announced.after r.2) :=
    evicted_of_books (keeps_books_announce _ _ _ _)
  have hcradle : r.2.cradle = s.cradle := cradle_reconcile
  have hseen : Heard E height records s →
      (announced.after r.2).cradle.seen = s.cradle.seen ++ r.1.observations := by
    intro hheard
    rw [← hcradle]
    by_cases hnotified : Notified height r.1.rearmed r.2
    · exact (seen_announce _ _ _).1 hnotified
    · rw [hheard.resolve_right hnotified, List.append_nil]
      exact (seen_announce _ _ _).2 hnotified
  have hunheard : ¬ Heard E height records s → (announced.after r.2).cradle.seen = s.cradle.seen := by
    intro hnot
    rw [← hcradle]
    exact (seen_announce _ _ _).2 fun hnotified => hnot (.inr hnotified)
  rw [after, hstart, bind_apply]
  rw [after] at hbooks hseen hunheard
  cases hr : announced r.2 with
  | ok u s₁ =>
    rw [hr] at hbooks hseen hunheard
    exact ⟨IsTrans.trans _ _ _ hbooks (evicted_evictConfirmedSpends height), hseen, hunheard⟩
  | error e s₁ =>
    rw [hr] at hbooks hseen hunheard
    exact ⟨hbooks, hseen, hunheard⟩

end Host

/-! A session that takes everything in and hands out what it was scripted to. -/

structure MockGameSession where
  scriptedDrains : List (DrainResult Unit Unit)

instance : ManagedGameSession MockGameSession Unit Unit where
  sessionObserve _ _ := pure ()
  sessionFlushAndCollect := fun s => .ok (s.scriptedDrains.headD ⟨[], none⟩) ⟨s.scriptedDrains.tail⟩
  sessionTimeoutClaimSubmitted _ := pure ()
  sessionTimeoutClaimRearmed _ := pure ()
  isAbandoned _ := false

def MockGameSession.env : BundleEnv Unit := ⟨fun _ => [], fun _ => [], fun _ => .ok []⟩

end TransactionManager

end ChiaGaming
