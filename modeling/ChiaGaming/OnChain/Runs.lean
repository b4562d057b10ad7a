import ChiaGaming.OnChain.Spent

namespace ChiaGaming

namespace OnChainPhase

open Act

variable (E : ChannelEnv)

/-! Runs of the phase.  The queue is gone through one action at a time. -/

inductive Input where
  | observed (coin : CoinString) (puzzle : ChainPuzzle) (solution : Clvm)
  | unseen (coin : CoinString)
  | queued
  | played (action : GameAction)

def popAction : Act Error OnChainPhase (List ChainEffect) := do
  match (← get).gameActionQueue with
  | [] => pure []
  | action :: rest =>
    modify fun p => { p with gameActionQueue := rest }
    doOnChainAction E action

def step : Input → Act Error OnChainPhase (List ChainEffect)
  | .observed coin puzzle solution => do
    pure (← observeGameCoinSpent E coin puzzle solution).effects
  | .unseen coin => do pure (← missingPuzzle coin).effects
  | .queued => popAction E
  | .played action => doOnChainAction E action

/-- What comes of a run; nothing does of one that fails. -/
def reports (x : Act Error OnChainPhase (List ChainEffect)) (p : OnChainPhase) : List ChainEffect :=
  match x p with
  | .ok effects _ => effects
  | .error _ _ => []

/-- The steps from one state to another, each with the state that it was taken in. -/
inductive Run (p₀ : OnChainPhase) : List (OnChainPhase × Input) → OnChainPhase → Prop where
  | start : Run p₀ [] p₀
  | next {history : List (OnChainPhase × Input)} {p : OnChainPhase} (h : Run p₀ history p)
      (input : Input) : Run p₀ (history ++ [(p, input)]) ((step E input).after p)

/-- Everything that was reported in the course of a run. -/
def reported (history : List (OnChainPhase × Input)) : List ChainEffect :=
  history.flatMap fun s => reports (step E s.2) s.1

variable {E} {p p' p₀ p₁ p₂ : OnChainPhase} {history history' : List (OnChainPhase × Input)}

theorem reports_of_ok {x : Act Error OnChainPhase (List ChainEffect)} {effects : List ChainEffect}
    (h : x p = .ok effects p') : reports x p = effects := by
  rw [reports, h]

theorem reports_of_error {x : Act Error OnChainPhase (List ChainEffect)} {e : Error}
    (h : x p = .error e p') : reports x p = [] := by
  rw [reports, h]

theorem reported_append :
    reported E (history ++ history') = reported E history ++ reported E history' :=
  List.flatMap_append

theorem reported_single (input : Input) : reported E [(p, input)] = reports (step E input) p :=
  List.flatMap_singleton ..

theorem Run.single (input : Input) : Run E p [(p, input)] ((step E input).after p) :=
  (@Run.start E p).next input

theorem Run.trans (h : Run E p₀ history p₁) (h' : Run E p₁ history' p₂) :
    Run E p₀ (history ++ history') p₂ := by
  induction h' with
  | start => rwa [List.append_nil]
  | next _ input ih =>
    rw [← List.append_assoc]
    exact ih.next input

/-- What holds at first and is kept by every step that is taken holds throughout. -/
theorem Run.invariant {Good : OnChainPhase → Prop} {Allowed : OnChainPhase → Input → Prop}
    (hstep : ∀ p input, Good p → Allowed p input → Good ((step E input).after p))
    (h : Run E p₀ history p) (hall : ∀ s ∈ history, Allowed s.1 s.2) (h₀ : Good p₀) :
    Good p ∧ ∀ s ∈ history, Good s.1 := by
  induction h with
  | start => exact ⟨h₀, List.forall_mem_nil _⟩
  | @next history p _ input ih =>
    rw [List.forall_mem_append] at hall
    obtain ⟨hp, hhistory⟩ := ih hall.1
    refine ⟨hstep p input hp (hall.2 _ List.mem_cons_self), ?_⟩
    rw [List.forall_mem_append, List.forall_mem_singleton]
    exact ⟨hhistory, hp⟩

/-! An action leaves the queue to the loop that it was popped by. -/

theorem keeps_restoreGameState_queue (gameId : GameID) (referee : Referee) (lastPh : Hash) :
    Keeps gameActionQueue (restoreGameState gameId referee lastPh) :=
  keeps_get.bind fun _ => (keeps_lift _).bind fun _ => keeps_modify fun _ => rfl

theorem keeps_onChainOurMove_queue (gameId : GameID) (readableMove : Clvm) (entropy : Hash)
    (coin : CoinString) :
    Keeps gameActionQueue (onChainOurMove E gameId readableMove entropy coin) := by
  refine keeps_get.bind fun _ => (keeps_lift _).bind fun _ => (keeps_lift _).bind fun _ => ?_
  exact Keeps.bind (keeps_modify fun _ => rfl) fun _ => (keeps_lift _).bind fun _ => keeps_pure _

theorem keeps_doOnChainMove_queue (coin : CoinString) (gameId : GameID) (readableMove : Clvm)
    (entropy : Hash) : Keeps gameActionQueue (doOnChainMove E coin gameId readableMove entropy) := by
  refine keeps_get.bind fun p => ?_
  split
  · exact keeps_throw _
  · exact keeps_throw _
  · refine (keeps_lift _).bind fun _ => (keeps_lift _).bind fun _ =>
      (keeps_onChainOurMove_queue gameId readableMove entropy coin).bind fun _ => ?_
    split
    refine keeps_ite ?_ ?_
    · exact (keeps_restoreGameState_queue _ _ _).bind fun _ =>
        Keeps.bind (keeps_modify fun _ => rfl) fun _ => keeps_pure _
    · exact keeps_get.bind fun _ => (keeps_lift _).bind fun _ =>
        (keeps_restoreGameState_queue _ _ _).bind fun _ =>
          keeps_ite (keeps_throw _) (Keeps.bind (keeps_modify fun _ => rfl) fun _ => keeps_pure _)

theorem keeps_doAcceptSettlement_queue (coin : CoinString) (state : OnChainGameState)
    (gameId : GameID) : Keeps gameActionQueue (doAcceptSettlement E coin state gameId) :=
  keeps_get.bind fun _ =>
    keeps_ite (Keeps.bind (keeps_modify fun _ => rfl) fun _ => keeps_pure _)
      ((keeps_lift _).bind fun _ => Keeps.bind (keeps_modify fun _ => rfl) fun _ => keeps_pure _)

theorem keeps_doOnChainAction_queue (action : GameAction) :
    Keeps gameActionQueue (doOnChainAction E action) := by
  cases action with
  | move gameId readableMove entropy =>
    refine keeps_get.bind fun _ => (keeps_lift _).bind fun _ => ?_
    exact keeps_ite (keeps_throw _) (keeps_doOnChainMove_queue _ _ _ _)
  | cheat gameId moverShare entropy =>
    refine keeps_get.bind fun _ => (keeps_lift _).bind fun _ => ?_
    refine keeps_ite (keeps_throw _) (keeps_ite (keeps_throw _) ?_)
    refine Keeps.bind ?_ fun _ => keeps_doOnChainMove_queue _ _ _ _
    refine keeps_get.bind fun _ => (keeps_lift _).bind fun _ => ?_
    exact Keeps.bind (keeps_modify fun _ => rfl) fun _ => keeps_pure _
  | acceptSettlement gameId =>
    exact keeps_get.bind fun _ => (keeps_lift _).bind fun _ => keeps_doAcceptSettlement_queue _ _ _
  | cleanShutdown => exact keeps_pure _
  | sendPotato => exact keeps_throw _
  | queuedProposalGroup _ _ => exact keeps_pure _
  | queuedAcceptProposal _ => exact keeps_pure _
  | queuedCancelProposal _ => exact keeps_pure _
  | queuedCancelProposalSilently _ => exact keeps_pure _

/-! The methods of the phase are such runs. -/

/-- A method does what some steps do; one that fails keeps what it would have reported. -/
def Walks (x : Act Error OnChainPhase (List ChainEffect)) (p : OnChainPhase) : Prop :=
  ∃ history, Run E p history (x.after p) ∧
    ∀ effects p', x p = .ok effects p' → effects = reported E history

theorem processActions_walks (actions : List GameAction) (hqueue : p.gameActionQueue = actions) :
    Walks (E := E) (processActions E actions) p := by
  induction actions generalizing p with
  | nil =>
    refine ⟨[], .start, ?_⟩
    rintro effects p' ⟨⟩
    rfl
  | cons action rest ih =>
    have hpop : step E .queued p = doOnChainAction E action { p with gameActionQueue := rest } := by
      rw [step, popAction, bind_of_ok (get_apply p), hqueue]
      rfl
    have hcons : processActions E (action :: rest) p = (do
        let effects ← doOnChainAction E action
        if effects.isEmpty then processActions E rest else pure effects)
          { p with gameActionQueue := rest } := rfl
    have hsingle := Run.single (E := E) (p := p) .queued
    cases hr : doOnChainAction E action { p with gameActionQueue := rest } with
    | error e p₁ =>
      rw [hr] at hpop
      rw [after_of_error hpop] at hsingle
      have hx := hcons.trans (bind_of_error hr _)
      refine ⟨[(p, .queued)], ?_, ?_⟩
      · rwa [after_of_error hx]
      · intro effects p' h
        rw [hx] at h
        cases h
    | ok effects p₁ =>
      rw [hr] at hpop
      rw [after_of_ok hpop] at hsingle
      have hrest : p₁.gameActionQueue = rest := (keeps_doOnChainAction_queue action).ok hr
      have hx := hcons.trans (bind_of_ok hr _)
      by_cases hempty : effects.isEmpty
      · rw [if_pos hempty] at hx
        obtain ⟨history, hrun, heffects⟩ := ih hrest
        have hafter : (processActions E (action :: rest)).after p =
            (processActions E rest).after p₁ := by rw [after, hx, after]
        refine ⟨(p, .queued) :: history, ?_, ?_⟩
        · rw [hafter]
          exact hsingle.trans hrun
        · intro effects' p' h
          rw [hx] at h
          have hnil : reported E [(p, .queued)] = [] := by
            rw [reported_single, reports_of_ok hpop]
            exact List.isEmpty_iff.mp hempty
          rw [← List.singleton_append, reported_append, hnil, heffects effects' p' h]
          rfl
      · rw [if_neg hempty] at hx
        refine ⟨[(p, .queued)], ?_, ?_⟩
        · rwa [after_of_ok hx]
        · intro effects' p' h
          rw [hx] at h
          cases h
          rw [reported_single, reports_of_ok hpop]

theorem processQueuedAction_walks (p : OnChainPhase) :
    Walks (E := E) (processQueuedAction E) p := processActions_walks p.gameActionQueue rfl

/-- An observation and, if it calls for that, the queue. -/
theorem observed_walks {x : Act Error OnChainPhase Observed} {input : Input}
    (hstep : step E input = do pure (← x).effects)
    (handle : Act Error OnChainPhase (List ChainEffect))
    (hhandle : handle = do
      let observed ← x
      if observed.unblock then
        let effects ← processQueuedAction E
        pure (observed.effects ++ effects)
      else pure observed.effects) (p : OnChainPhase) : Walks (E := E) handle p := by
  have hsingle := Run.single (E := E) (p := p) input
  cases hr : x p with
  | error e p₁ =>
    have hx : handle p = .error e p₁ := by rw [hhandle, bind_of_error hr]
    have hone : step E input p = .error e p₁ := by rw [hstep, bind_of_error hr]
    rw [after_of_error hone] at hsingle
    refine ⟨[(p, input)], ?_, ?_⟩
    · rwa [after_of_error hx]
    · intro effects p' h
      rw [hx] at h
      cases h
  | ok observed p₁ =>
    have hone : step E input p = .ok observed.effects p₁ := by rw [hstep, bind_of_ok hr]; rfl
    have hreported : reported E [(p, input)] = observed.effects := by
      rw [reported_single, reports_of_ok hone]
    rw [after_of_ok hone] at hsingle
    have hx := hhandle ▸ bind_of_ok hr _
    by_cases hunblock : observed.unblock
    · rw [if_pos hunblock] at hx
      obtain ⟨history, hrun, heffects⟩ := processQueuedAction_walks (E := E) p₁
      cases hq : processQueuedAction E p₁ with
      | error e p₂ =>
        rw [bind_of_error hq] at hx
        rw [after_of_error hq] at hrun
        refine ⟨[(p, input)] ++ history, ?_, ?_⟩
        · rw [after_of_error hx]
          exact hsingle.trans hrun
        · intro effects p' h
          rw [hx] at h
          cases h
      | ok effects p₂ =>
        rw [bind_of_ok hq] at hx
        rw [after_of_ok hq] at hrun
        refine ⟨[(p, input)] ++ history, ?_, ?_⟩
        · rw [after_of_ok hx]
          exact hsingle.trans hrun
        · intro effects' p' h
          rw [hx] at h
          cases h
          rw [reported_append, hreported, heffects effects p₂ hq]
    · rw [if_neg hunblock] at hx
      refine ⟨[(p, input)], ?_, ?_⟩
      · rwa [after_of_ok hx]
      · intro effects' p' h
        rw [hx] at h
        cases h
        exact hreported.symm

/-- The effects of an observation that the queue may follow. -/
theorem effects_unblocked (x : Act Error OnChainPhase Observed)
    (resync : Observed → Option ResyncInfo) :
    (do
      let result ← (do
        let observed ← x
        if observed.unblock then
          let effects ← processQueuedAction E
          pure (observed.effects ++ effects, resync observed)
        else pure (observed.effects, resync observed))
      pure result.1) = (do
        let observed ← x
        if observed.unblock then
          let effects ← processQueuedAction E
          pure (observed.effects ++ effects)
        else pure observed.effects : Act Error OnChainPhase (List ChainEffect)) := by
  funext s
  simp only [bind_apply]
  cases x s with
  | error e s₁ => rfl
  | ok observed s₁ =>
    by_cases hunblock : observed.unblock
    · simp only [hunblock, if_true, bind_apply]
      cases processQueuedAction E s₁ with
      | error e s₂ => rfl
      | ok effects s₂ => rfl
    · simp only [hunblock]
      rfl

theorem coinPuzzleAndSolution_walks (coin : CoinString) (spend : Option (ChainPuzzle × Clvm))
    (p : OnChainPhase) :
    Walks (E := E) (do pure (← coinPuzzleAndSolution E coin spend).1) p := by
  cases spend with
  | some spend =>
    obtain ⟨puzzle, solution⟩ := spend
    exact @observed_walks _ _ (.observed coin puzzle solution) rfl _ (effects_unblocked _ _) p
  | none =>
    exact @observed_walks _ _ (.unseen coin) rfl _ (effects_unblocked _ fun _ => none) p

end OnChainPhase

end ChiaGaming
