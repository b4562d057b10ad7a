import ChiaGaming.Manager.Lives

namespace ChiaGaming

open Act

/-! A report that fails, and the same report again. -/

/-- What a session asks of its phase when a block comes, and what it passes on to it. -/
class SessionPeer (P : Type) (B O : outParam Type) where
  coinObserved : CoinObservation → Act Error P Unit
  newBlock : ℕ → Act Error P Unit
  checkChannelCreationExpiry : ℕ → List CoinObservation → P → P
  flushAndCollect : Act Error P (DrainResult B O)
  timeoutClaimSubmitted : TimeoutClaimSemantic → Act Error P Unit
  timeoutClaimRearmed : TimeoutClaimSemantic → Act Error P Unit
  isDisposed : P → Bool
  isAbandoned : P → Bool

/-- A session with the observations that its phase has taken. -/
structure GameSession (P : Type) where
  peer : P
  currentHeight : ℕ
  processed : List CoinObservation

namespace GameSession

variable {P B O : Type}

def onPeer {α : Type} (x : Act Error P α) : Act Error (GameSession P) α := fun g =>
  match x g.peer with
  | .ok a p => .ok a { g with peer := p }
  | .error e p => .error e { g with peer := p }

theorem after_onPeer {α : Type} (x : Act Error P α) (g : GameSession P) :
    (onPeer x).after g = { g with peer := x.after g.peer } := by
  rw [after, onPeer, after]
  cases x g.peer <;> rfl

theorem keeps_onPeer {α : Type} (x : Act Error P α) : Keeps processed (onPeer x) := by
  intro g
  rw [after_onPeer]

variable [SessionPeer P B O]

/-- The observations in order, up to the first that the phase rejects. -/
def observe : List CoinObservation → Act Error (GameSession P) Unit
  | [] => pure ()
  | observation :: rest => do
    onPeer (SessionPeer.coinObserved observation)
    modify fun g => { g with processed := g.processed ++ [observation] }
    observe rest

def newBlock (height : ℕ) (observations : List CoinObservation) :
    Act Error (GameSession P) Unit := do
  let g ← get
  if SessionPeer.isDisposed g.peer then pure ()
  else
    modify fun g => { g with currentHeight := height }
    observe observations
    onPeer (SessionPeer.newBlock height)
    modify fun g =>
      { g with peer := SessionPeer.checkChannelCreationExpiry height observations g.peer }

def newBlockHeightOnly (height : ℕ) : Act Error (GameSession P) Unit := do
  let g ← get
  if SessionPeer.isDisposed g.peer then pure ()
  else
    modify fun g => { g with currentHeight := height }
    onPeer (SessionPeer.newBlock height)

instance : ManagedGameSession (GameSession P) B O where
  sessionObserve height observations :=
    match observations with
    | some observations => newBlock height observations
    | none => newBlockHeightOnly height
  sessionFlushAndCollect := onPeer SessionPeer.flushAndCollect
  sessionTimeoutClaimSubmitted semantic := onPeer (SessionPeer.timeoutClaimSubmitted semantic)
  sessionTimeoutClaimRearmed semantic := onPeer (SessionPeer.timeoutClaimRearmed semantic)
  isAbandoned g := SessionPeer.isAbandoned g.peer

/-- An error of the phase leaves the observations from there on. -/
theorem processed_observe (observations : List CoinObservation) (g : GameSession P) :
    (∀ u g', observe observations g = .ok u g' → g'.processed = g.processed ++ observations) ∧
    ∀ e g', observe observations g = .error e g' →
      g'.processed.length < g.processed.length + observations.length := by
  induction observations generalizing g with
  | nil =>
    refine ⟨fun u g' h => ?_, fun e g' h => by cases h⟩
    cases h
    exact (List.append_nil _).symm
  | cons observation rest ih =>
    have hkeeps := keeps_onPeer (SessionPeer.coinObserved observation) g
    cases hr : onPeer (SessionPeer.coinObserved observation) g with
    | ok u g₁ =>
      rw [after_of_ok hr] at hkeeps
      obtain ⟨hok, herror⟩ := ih { g₁ with processed := g₁.processed ++ [observation] }
      have hrest : observe (observation :: rest) g =
          observe rest { g₁ with processed := g₁.processed ++ [observation] } := by
        rw [observe, bind_of_ok hr]
        rfl
      rw [hrest]
      refine ⟨fun u g' h => ?_, fun e g' h => ?_⟩
      · rw [hok u g' h, hkeeps, List.append_assoc]
        rfl
      · have hlt := herror e g' h
        rw [hkeeps, List.length_append, List.length_singleton] at hlt
        rw [List.length_cons]
        omega
    | error e g₁ =>
      rw [after_of_error hr] at hkeeps
      rw [observe, bind_of_error hr]
      refine ⟨fun u g' h => ?_, fun e' g' h => ?_⟩
      · cases h
      · cases h
        rw [hkeeps, List.length_cons]
        omega

theorem newBlock_error {height : ℕ} {observations : List CoinObservation} {g g' : GameSession P}
    {e : Error} (h : newBlock height observations g = .error e g') :
    (∃ g₁, observe observations { g with currentHeight := height } = .ok () g₁ ∧
      g'.processed = g₁.processed) ∨
    observe observations { g with currentHeight := height } = .error e g' := by
  rw [newBlock, bind_of_ok (get_apply g), ite_eq_error] at h
  obtain ⟨-, h⟩ | ⟨-, h⟩ := h
  · cases h
  · rw [bind_of_ok (modify_apply _ g)] at h
    rcases Act.bind_eq_error.mp h with herror | ⟨u, g₁, hobserve, h⟩
    · exact .inr herror
    · refine .inl ⟨g₁, hobserve, ?_⟩
      rcases Act.bind_eq_error.mp h with herror | ⟨u, g₂, -, h⟩
      · exact (keeps_onPeer _).onError _ _ _ herror
      · cases h

end GameSession

namespace TransactionManager

section Report

variable {P B O : Type} {E : BundleEnv B} {height : ℕ} {records : List CoinStateRecord}

/-- The coins and spends that a snapshot showed are on the books, told or not. -/
theorem observations_again {C : Type} {s s' : TransactionManager C B O}
    (h : s'.books = (reconcile E height records s).2.books) :
    (reconcile E height records s').1.observations = [] := by
  simp only [books, Prod.mk.injEq] at h
  obtain ⟨htrack, hpresent, -, hsnapshot, -, -⟩ := h
  have hheight : s'.lastSnapshotHeight = height := hsnapshot.trans lastSnapshotHeight_reconcile
  have hlive : ∀ c, c ∈ s'.presentCoins ↔ ShownLive c records := by
    intro c
    rw [hpresent, mem_presentCoins_reconcile]
  have hfirst : ∀ c, ¬ FirstSpentIn height records s' c := by
    rintro c ⟨⟨k, hk, hnone⟩, -, hspent⟩
    rw [rolledTrack_of_le hheight.le] at hnone
    rw [htrack, trackOf_reconcile, Option.map_eq_some_iff] at hk
    obtain ⟨k', -, rfl⟩ := hk
    rw [Option.or_eq_none_iff, Option.or_eq_none_iff] at hnone
    have hsome := lastOf_isSome.mpr hspent
    rw [hnone.1.1] at hsome
    cases hsome
  have hcreated : (reconcile E height records s').1.created = [] := by
    refine List.eq_nil_iff_forall_not_mem.mpr fun c hc => ?_
    rcases mem_created.mp hc with ⟨hshown, hnot⟩ | h
    · exact hnot ((hlive c).mpr hshown)
    · exact hfirst c h
  have hdeleted : (reconcile E height records s').1.deleted = [] := by
    refine List.eq_nil_iff_forall_not_mem.mpr fun c hc => ?_
    rcases mem_deleted.mp hc with ⟨hmem, hnot, -⟩ | h
    · exact hnot ((hlive c).mp hmem)
    · exact hfirst c h
  rw [Diff.observations, hcreated, hdeleted]
  rfl

variable [SessionPeer P B O] {s s' : TransactionManager (Recorded (GameSession P)) B O} {e : Error}

/-- The claim notices and every observation go through, so that what fails comes after them. -/
def Taken (E : BundleEnv B) (height : ℕ) (records : List CoinStateRecord)
    (s : TransactionManager (Recorded (GameSession P)) B O) : Prop :=
  ∃ s₁ g, updateTimeoutClaims height (reconcile E height records s).1.rearmed
      (reconcile E height records s).2 = .ok () s₁ ∧
    GameSession.observe (reconcile E height records s).1.observations
      { s₁.cradle.session with currentHeight := height } = .ok () g

/-- What the session has taken of a failed report, and what the same report tells it again, make up
what the report had to say. -/
def MadeGood (E : BundleEnv B) (height : ℕ) (records : List CoinStateRecord)
    (s s' : TransactionManager (Recorded (GameSession P)) B O) : Prop :=
  (reconcile E height records s).1.observations.Subperm
    (s'.cradle.session.processed.drop s.cradle.session.processed.length ++
      ((reportCoinStates E height records).after s').cradle.seen.drop s'.cradle.seen.length)

theorem processed_updateTimeoutClaims (height : ℕ) (rearmed : List TimeoutClaimSemantic) :
    Keeps (fun s : TransactionManager (Recorded (GameSession P)) B O => s.cradle.session.processed)
      (updateTimeoutClaims height rearmed) := by
  have hrun : ∀ x : Act Error P Unit, Keeps
      (fun r : Recorded (GameSession P) => r.session.processed) (Recorded.run (GameSession.onPeer x)) := by
    intro x r
    have h := GameSession.keeps_onPeer x r.session
    rw [after] at h ⊢
    rw [Recorded.run]
    cases hr : GameSession.onPeer x r.session with
    | ok u g =>
      rw [hr] at h
      exact h
    | error e g =>
      rw [hr] at h
      exact h
  refine keeps_updateTimeoutClaims (fun semantic s => ?_) (fun semantic s => ?_) (fun _ _ => rfl)
    (fun _ => rfl) (fun _ _ => rfl) _ _
  · rw [after_onSession]
    exact hrun _ s.cradle
  · rw [after_onSession]
    exact hrun _ s.cradle

theorem newBlock_of_onSession {observations : List CoinObservation}
    (h : onSession (ManagedGameSession.sessionObserve height (some observations)) s = .error e s') :
    GameSession.newBlock height observations s.cradle.session = .error e s'.cradle.session := by
  have hrun : Recorded.run (GameSession.newBlock height observations)
      { s.cradle with seen := s.cradle.seen ++ observations } = .error e s'.cradle := by
    rw [onSession] at h
    cases hr : ManagedGameSession.sessionObserve height (some observations) s.cradle with
    | ok u r =>
      rw [hr] at h
      cases h
    | error e r =>
      rw [hr] at h
      cases h
      exact hr
  rw [Recorded.run] at hrun
  cases hr : GameSession.newBlock height observations s.cradle.session with
  | ok u g =>
    rw [hr] at hrun
    cases hrun
  | error e' g =>
    rw [hr, EStateM.Result.error.injEq] at hrun
    rw [hrun.1, ← hrun.2]

/-- A failed report has failed in the notices, in an observation, or after all of them. -/
theorem reportCoinStates_error (hrange : InRange height records)
    (herror : reportCoinStates E height records s = .error e s') :
    s'.books = (reconcile E height records s).2.books ∧
    ((Taken E height records s ∧ s'.cradle.session.processed =
        s.cradle.session.processed ++ (reconcile E height records s).1.observations) ∨
      (¬ Taken E height records s ∧
        (s'.cradle.session.processed = s.cradle.session.processed ∨
          s'.cradle.session.processed.length < s.cradle.session.processed.length +
            (reconcile E height records s).1.observations.length))) := by
  let r := reconcile E height records s
  have hannounce : announce height r.1.rearmed (some r.1.observations) r.2 = .error e s' := by
    rw [reportCoinStates_of_inRange hrange] at herror
    rcases Act.bind_eq_error.mp herror with h | ⟨u, s₁, -, h⟩
    · exact h
    · cases h
  refine ⟨(keeps_books_announce _ _ _).onError _ _ _ hannounce, ?_⟩
  have hkeeps := processed_updateTimeoutClaims height r.1.rearmed r.2
  have hstart : r.2.cradle.session.processed = s.cradle.session.processed := by
    rw [cradle_reconcile]
  dsimp only at hkeeps
  rw [hstart] at hkeeps
  rcases Act.bind_eq_error.mp hannounce with hnotices | ⟨u, s₁, hnotices, hobserve⟩
  · -- a notice about the claims
    refine .inr ⟨?_, .inl ?_⟩
    · rintro ⟨s₁, g, hok, -⟩
      rw [hnotices] at hok
      cases hok
    · rw [after_of_error hnotices] at hkeeps
      exact hkeeps
  · rw [after_of_ok hnotices] at hkeeps
    -- the session's own block
    have hblock : GameSession.newBlock height r.1.observations s₁.cradle.session =
        .error e s'.cradle.session := newBlock_of_onSession hobserve
    rcases GameSession.newBlock_error hblock with ⟨g₁, hall, hprocessed⟩ | hsome
    · refine .inl ⟨⟨s₁, g₁, hnotices, hall⟩, ?_⟩
      rw [hprocessed, (GameSession.processed_observe _ _).1 _ _ hall, hkeeps]
    · refine .inr ⟨?_, .inr ?_⟩
      · rintro ⟨s₂, g, hok, hall⟩
        rw [hnotices] at hok
        cases hok
        rw [hsome] at hall
        cases hall
      · have hlt := (GameSession.processed_observe _ _).2 _ _ hsome
        dsimp only at hlt
        rwa [hkeeps] at hlt

/-- The next try makes up for a failed report if and only if there is nothing left to make up for. -/
theorem retry_delivers_iff (hrange : InRange height records)
    (herror : reportCoinStates E height records s = .error e s') :
    MadeGood E height records s s' ↔
      (reconcile E height records s).1.observations = [] ∨ Taken E height records s := by
  obtain ⟨hbooks, hprocessed⟩ := reportCoinStates_error hrange herror
  have hagain : ((reportCoinStates E height records).after s').cradle.seen = s'.cradle.seen := by
    have hnone := observations_again hbooks
    have hseen := (reportCoinStates_after (E := E) (s := s') hrange).2.1 (.inl hnone)
    rwa [hnone, List.append_nil] at hseen
  rw [MadeGood, hagain, List.drop_length, List.append_nil]
  rcases hprocessed with ⟨htaken, hall⟩ | ⟨hnot, hsome⟩
  · rw [hall, List.drop_left]
    exact iff_of_true (List.Subperm.refl _) (.inr htaken)
  · rw [or_iff_left hnot]
    constructor
    · intro hsub
      have hle := hsub.length_le
      rw [List.length_drop] at hle
      refine List.length_eq_zero_iff.mp ?_
      rcases hsome with heq | hlt
      · rw [heq] at hle
        omega
      · omega
    · intro hnil
      rw [hnil]
      exact List.nil_subperm

end Report

/-! A phase that rejects its first observation, and one that fails in every block. -/

namespace Rejection

inductive MockPeer where
  | rejects
  | takes
  | failsInBlocks

def MockPeer.fail : Act Error MockPeer Unit := throw (.strErr "coin_created" [])

instance : SessionPeer MockPeer Unit Unit where
  coinObserved _ := do
    let p ← get
    match p with
    | .rejects =>
      set MockPeer.takes
      MockPeer.fail
    | _ => pure ()
  newBlock _ := do
    let p ← get
    match p with
    | .failsInBlocks => MockPeer.fail
    | _ => pure ()
  checkChannelCreationExpiry _ _ p := p
  flushAndCollect := pure ⟨[], none⟩
  timeoutClaimSubmitted _ := pure ()
  timeoutClaimRearmed _ := pure ()
  isDisposed _ := false
  isAbandoned _ := false

def start (peer : MockPeer) : TransactionManager (Recorded (GameSession MockPeer)) Unit Unit :=
  new ⟨⟨peer, 0, []⟩, []⟩

def records : List CoinStateRecord := [⟨Rewound.coin, some 90, none⟩]

/-- The coin is on the books once the phase has rejected it, and not told again. -/
theorem retry_loses :
    ¬ ∀ (height : ℕ) (records : List CoinStateRecord) (e : Error)
      (s s' : TransactionManager (Recorded (GameSession MockPeer)) Unit Unit),
      InRange height records →
      reportCoinStates MockGameSession.env height records s = .error e s' →
        MadeGood MockGameSession.env height records s s' := by
  intro h
  have hgood := h 100 records _ (start .rejects) _ ⟨by decide, by decide⟩ rfl
  have hlength := hgood.length_le
  revert hlength
  decide

theorem retry_delivers_iff_block : ∃ e s',
    reportCoinStates MockGameSession.env 100 records (start .failsInBlocks) = .error e s' ∧
      MadeGood MockGameSession.env 100 records (start .failsInBlocks) s' :=
  ⟨_, _, rfl, (retry_delivers_iff ⟨by decide, by decide⟩ rfl).mpr (.inr ⟨_, _, rfl, rfl⟩)⟩

end Rejection

end TransactionManager

end ChiaGaming
