import ChiaGaming.Lib.Hash

namespace ChiaGaming

/-- CLVM evaluation of a program on an environment; `none` is a raise. -/
abbrev Run := Clvm → Clvm → Option Clvm

def condAggSigUnsafe : Clvm := .nat 49
def condAggSigMe : Clvm := .nat 50
def condCreateCoin : Clvm := .nat 51
def condAssertHeightRelative : Clvm := .nat 82
def condAssertBeforeHeightRelative : Clvm := .nat 86

/-- The curried arguments of a referee coin. -/
structure RefereeArgs where
  moverPubkey : Bytes
  waiterPubkey : Bytes
  timeout : Bytes
  amount : Bytes
  modHash : Bytes
  nonce : Bytes
  move : Bytes
  maxMoveSize : Bytes
  infohashB : Bytes
  moverShare : Bytes
  infohashA : Bytes
  deriving DecidableEq, Repr

def RefereeArgs.toClvm (a : RefereeArgs) : Clvm :=
  .list [.atom a.moverPubkey, .atom a.waiterPubkey, .atom a.timeout, .atom a.amount,
    .atom a.modHash, .atom a.nonce, .atom a.move, .atom a.maxMoveSize, .atom a.infohashB,
    .atom a.moverShare, .atom a.infohashA]

/-- The four fields a mover chooses. -/
structure MoveSolution where
  newMove : Bytes
  infohashC : Bytes
  newMoverShare : Bytes
  newMaxMoveSize : Bytes
  deriving DecidableEq, Repr

def MoveSolution.toClvm (m : MoveSolution) : Clvm :=
  .list [.atom m.newMove, .atom m.infohashC, .atom m.newMoverShare, .atom m.newMaxMoveSize]

/-- The coin a move creates: the players trade places and the commitments shift by one. -/
def RefereeArgs.afterMove (a : RefereeArgs) (m : MoveSolution) : RefereeArgs where
  moverPubkey := a.waiterPubkey
  waiterPubkey := a.moverPubkey
  timeout := a.timeout
  amount := a.amount
  modHash := a.modHash
  nonce := a.nonce
  move := m.newMove
  maxMoveSize := m.newMaxMoveSize
  infohashB := m.infohashC
  moverShare := m.newMoverShare
  infohashA := a.infohashB

/-- What a validation program is given: `(mod_hash curried_args . solution)`. -/
def validatorEnv (modHash : Bytes) (a : RefereeArgs) (solution : Clvm) : Clvm :=
  .pair (.atom modHash) (.pair a.toClvm solution)

def slashSolution (state program evidence : Clvm) (moverPayoutPh : Bytes) : Clvm :=
  .list [state, program, evidence, .atom moverPayoutPh]

/-- Evaluating `program` is running `validator`, which looks at the coin, the state and the
evidence only. -/
def Runs (run : Run) (program : Clvm) (validator : RefereeArgs → Clvm → Clvm → Option Clvm) :
    Prop :=
  ∀ modHash a state program' evidence tail,
    run program (validatorEnv modHash a (.pair state (.pair program' (.pair evidence tail)))) =
      validator a state evidence

def RefereeArgs.ofClvm (v : Clvm) : Option RefereeArgs := do
  let field (i : ℕ) : Option Bytes := (v.nth i).bind Clvm.bytes
  some ⟨← field 0, ← field 1, ← field 2, ← field 3, ← field 4, ← field 5, ← field 6, ← field 7,
    ← field 8, ← field 9, ← field 10⟩

/-- An evaluator under which every program is `validator`. -/
def interpret (validator : RefereeArgs → Clvm → Clvm → Option Clvm) : Run := fun _ env => do
  validator (← RefereeArgs.ofClvm (← env.nth 1)) (← env.nth 2) (← env.nth 4)

theorem runs_interpret (validator : RefereeArgs → Clvm → Clvm → Option Clvm) (program : Clvm) :
    Runs (interpret validator) program validator := by
  intro modHash a state program' evidence tail
  have h : RefereeArgs.ofClvm a.toClvm = some a := rfl
  simp [interpret, validatorEnv, Clvm.nth, h]

section Branches

variable (sha256 : Bytes → Bytes)

/-! The tree hash of `(a (q . mod) (c (q . arg) 1))`, built from the hashes of its parts. -/

def hashExpressionF (a1 a2 : Bytes) : Bytes :=
  sha256 (2 :: (sha256 (2 :: (sha256 [1, 1] ++ a1)) ++ sha256 (2 :: (a2 ++ sha256 [1]))))

def updateHashForParameterHash (parameterHash environmentHash : Bytes) : Bytes :=
  sha256 (2 :: (sha256 [1, 4] ++ hashExpressionF sha256 parameterHash environmentHash))

def treeHashOfApply (modHash environmentHash : Bytes) : Bytes :=
  sha256 (2 :: (sha256 [1, 2] ++ hashExpressionF sha256 modHash environmentHash))

def calculateHashOfCurriedParameters : List Bytes → Bytes
  | [] => sha256 [1, 1]
  | h :: hs => updateHashForParameterHash sha256 h (calculateHashOfCurriedParameters hs)

def curryHashes (modHash : Bytes) (parameterHashes : List Bytes) : Bytes :=
  treeHashOfApply sha256 modHash (calculateHashOfCurriedParameters sha256 parameterHashes)

/-- The puzzle hash of a referee coin. -/
def RefereeArgs.puzzleHash (a : RefereeArgs) : Bytes :=
  curryHashes sha256 a.modHash [shatree sha256 a.toClvm]

/-- `sha256(validation_program_hash, shatree(state))`. -/
def infohash (programHash : Bytes) (state : Clvm) : Bytes :=
  sha256 (programHash ++ shatree sha256 state)

def timeoutBranch (a : RefereeArgs) (args : Clvm) : Option Clvm := do
  let moverPayoutPh ← (← args.nth 0).bytes
  let waiterPayoutPh ← args.nth 1
  let moverCoin ←
    if a.moverShare ≠ [] then
      some (Clvm.list [condCreateCoin, .atom moverPayoutPh, .atom a.moverShare])
    else if moverPayoutPh = [] then some (Clvm.list [.nat 1])
    else none
  -- `i` is an operator, so both of its branches are evaluated
  let moverSig :=
    if a.moverShare ≠ [] then
      Clvm.list [condAggSigUnsafe, .atom a.moverPubkey, .atom (0x78 :: moverPayoutPh)]
    else Clvm.list [.nat 1]
  let waiterShare := intOfBytes a.amount - intOfBytes a.moverShare
  let waiter ←
    if waiterShare ≠ 0 then do
      let ph ← waiterPayoutPh.bytes
      some (Clvm.list [Clvm.list [condCreateCoin, .atom ph, .int waiterShare],
        Clvm.list [condAggSigUnsafe, .atom a.waiterPubkey, .atom (0x78 :: ph)]])
    else if waiterPayoutPh = .nil then some .nil
    else none
  some (.pair (Clvm.list [condAssertHeightRelative, .atom a.timeout])
    (.pair moverCoin (.pair moverSig waiter)))

def payoutConditions (a : RefereeArgs) (moverPayoutPh : Bytes) : List Clvm :=
  [Clvm.list [condCreateCoin, .atom moverPayoutPh, .atom a.amount],
    Clvm.list [condAggSigUnsafe, .atom a.moverPubkey, .atom (0x78 :: moverPayoutPh)]]

/-- The infohash that the validator's answer stands for; a game that is over has none. -/
def resultInfohash (nextValidatorHash : Bytes) (newState : Clvm) : Bytes :=
  if nextValidatorHash = [] then [] else infohash sha256 nextValidatorHash newState

/-- What the slash branch makes of the validator's answer. -/
def slashConditions (a : RefereeArgs) (result : Clvm) (moverPayoutPh : Bytes) : Option Clvm :=
  if result = .nil then some (.list (payoutConditions a moverPayoutPh))
  else do
    let nextValidatorHash ← (← result.nth 0).bytes
    let newState ← result.nth 1
    let maxMoveSize ← (← result.nth 2).bytes
    let extraConditions ← (← (← result.rest).rest).rest
    if resultInfohash sha256 nextValidatorHash newState = a.infohashB ∧
        maxMoveSize = a.maxMoveSize then
      if extraConditions = .nil then none
      else extraConditions.append (.list (payoutConditions a moverPayoutPh))
    else some (.list (payoutConditions a moverPayoutPh))

def slashBranch (run : Run) (a : RefereeArgs) (args : Clvm) : Option Clvm := do
  let previousState ← args.nth 0
  let program ← args.nth 1
  let moverPayoutPh ← (← args.nth 3).bytes
  let programHash := shatree sha256 program
  if a.infohashA = infohash sha256 programHash previousState then
    let result ← run program (validatorEnv programHash a args)
    slashConditions sha256 a result moverPayoutPh
  else none

/-- The checks of the move branch. -/
def RefereeArgs.AcceptsMove (a : RefereeArgs) (m : MoveSolution) : Prop :=
  a.infohashB ≠ [] ∧
  (m.newMove.length : ℤ) ≤ intOfBytes a.maxMoveSize ∧
  m.newMaxMoveSize.length ≤ 2 ∧
  intOfBytes m.newMoverShare ≤ intOfBytes a.amount ∧
  0 ≤ intOfBytes m.newMoverShare ∧
  (m.infohashC = [] ∨ m.infohashC.length = 32)

instance (a : RefereeArgs) (m : MoveSolution) : Decidable (a.AcceptsMove m) :=
  inferInstanceAs (Decidable (_ ≠ _ ∧ _ ≤ _ ∧ _ ≤ _ ∧ _ ≤ _ ∧ _ ≤ _ ∧ (_ = _ ∨ _ = _)))

def moveBranch (a : RefereeArgs) (args : Clvm) : Option Clvm := do
  let newMove ← (← args.nth 0).bytes
  let infohashC ← (← args.nth 1).bytes
  let newMoverShare ← (← args.nth 2).bytes
  let newMaxMoveSize ← (← args.nth 3).bytes
  let tail ← (← (← (← args.rest).rest).rest).rest
  let m : MoveSolution := ⟨newMove, infohashC, newMoverShare, newMaxMoveSize⟩
  if tail = .nil ∧ a.AcceptsMove m then
    some (.list [Clvm.list [condAssertBeforeHeightRelative, .atom a.timeout],
      Clvm.list [condCreateCoin, .atom ((a.afterMove m).puzzleHash sha256), .atom a.amount],
      Clvm.list [condAggSigMe, .atom a.moverPubkey, .atom (shatree sha256 args)]])
  else none

/-- The number of arguments and the shape of the second one choose the branch. -/
def refereePuzzle (run : Run) (a : RefereeArgs) (args : Clvm) : Option Clvm := do
  let second ← args.nth 1
  let others ← (← args.rest).rest
  if others = .nil then timeoutBranch a args
  else if second.isPair then slashBranch sha256 run a args
  else moveBranch sha256 a args

/-- The amount a condition pays to a puzzle hash. -/
def createCoinAmount (ph : Bytes) (cond : Clvm) : ℤ :=
  match cond.properList with
  | some [code, .atom p, .atom amount] =>
    if code = condCreateCoin ∧ p = ph then intOfBytes amount else 0
  | _ => 0

def paidTo (ph : Bytes) (conds : Clvm) : ℤ :=
  ((conds.properList.getD []).map (createCoinAmount ph)).sum

/-- The timeout solution that pays the mover at `moverPh` and the waiter at `waiterPh`; a player
without a share is named by nil. -/
def timeoutSolution (a : RefereeArgs) (moverPh waiterPh : Bytes) : Clvm :=
  .list [if a.moverShare = [] then .nil else .atom moverPh,
    if intOfBytes a.amount - intOfBytes a.moverShare = 0 then .nil else .atom waiterPh]

end Branches

section Lemmas

variable {sha256 : Bytes → Bytes} {run : Run} {a : RefereeArgs}

@[simp] theorem afterMove_move (m : MoveSolution) : (a.afterMove m).move = m.newMove := rfl
@[simp] theorem afterMove_moverShare (m : MoveSolution) :
    (a.afterMove m).moverShare = m.newMoverShare := rfl
@[simp] theorem afterMove_amount (m : MoveSolution) : (a.afterMove m).amount = a.amount := rfl
@[simp] theorem afterMove_infohashA (m : MoveSolution) :
    (a.afterMove m).infohashA = a.infohashB := rfl
@[simp] theorem afterMove_infohashB (m : MoveSolution) :
    (a.afterMove m).infohashB = m.infohashC := rfl
@[simp] theorem afterMove_maxMoveSize (m : MoveSolution) :
    (a.afterMove m).maxMoveSize = m.newMaxMoveSize := rfl

/-- A commitment determines the program and the state. -/
theorem hashExpressionF_injective (hh : CollisionFree sha256) {a1 a2 b1 b2 : Bytes}
    (h : hashExpressionF sha256 a1 a2 = hashExpressionF sha256 b1 b2) : a1 = b1 ∧ a2 = b2 := by
  obtain ⟨hquoted, hrest⟩ := hh.split _ _ _ _ (List.cons.inj (hh.injective h)).2
  have ha1 := List.append_cancel_left (List.cons.inj hquoted).2
  have ha2 := List.append_cancel_right (List.cons.inj (hh.injective hrest)).2
  exact ⟨ha1, ha2⟩

theorem calculateHashOfCurriedParameters_injective (hh : CollisionFree sha256) :
    Function.Injective (calculateHashOfCurriedParameters sha256) := by
  intro ps
  induction ps with
  | nil =>
    intro qs h
    cases qs with
    | nil => rfl
    | cons q qs =>
      have := hh.injective h
      simp at this
  | cons p ps ih =>
    intro qs h
    cases qs with
    | nil =>
      have := hh.injective h
      simp at this
    | cons q qs =>
      have hexpr := List.append_cancel_left (List.cons.inj (hh.injective h)).2
      obtain ⟨rfl, henv⟩ := hashExpressionF_injective hh hexpr
      rw [ih henv]

/-- A curried puzzle's hash determines the program and its arguments. -/
theorem curryHashes_injective (hh : CollisionFree sha256) {m m' : Bytes} {ps ps' : List Bytes}
    (h : curryHashes sha256 m ps = curryHashes sha256 m' ps') : m = m' ∧ ps = ps' := by
  have hexpr := List.append_cancel_left (List.cons.inj (hh.injective h)).2
  obtain ⟨rfl, henv⟩ := hashExpressionF_injective hh hexpr
  exact ⟨rfl, calculateHashOfCurriedParameters_injective hh henv⟩

theorem infohash_injective (hh : CollisionFree sha256) {p p' s s' : Clvm}
    (h : infohash sha256 (shatree sha256 p) s = infohash sha256 (shatree sha256 p') s') :
    p = p' ∧ s = s' := by
  obtain ⟨hp, hs⟩ := hh.shatree_append (hh.injective h)
  exact ⟨hh.shatree_injective hp, hh.shatree_injective hs⟩

theorem infohash_ne_nil (hh : CollisionFree sha256) (programHash : Bytes) (state : Clvm) :
    infohash sha256 programHash state ≠ [] := hh.ne_nil _

theorem refereePuzzle_move (m : MoveSolution) :
    refereePuzzle sha256 run a m.toClvm = moveBranch sha256 a m.toClvm := rfl

theorem moveBranch_isSome_iff (m : MoveSolution) :
    (moveBranch sha256 a m.toClvm).isSome ↔ a.AcceptsMove m := by
  simp only [moveBranch, MoveSolution.toClvm, Clvm.nth, Clvm.list_cons, Clvm.list_nil,
    Clvm.first_pair, Clvm.rest_pair, Clvm.bytes_atom, Option.bind_eq_bind, Option.bind_some,
    true_and]
  split <;> simp_all

theorem createCoinAmount_createCoin (ph p amount : Bytes) :
    createCoinAmount ph (.list [condCreateCoin, .atom p, .atom amount]) =
      if p = ph then intOfBytes amount else 0 := by
  simp [createCoinAmount, Clvm.properList]

theorem createCoinAmount_aggSigUnsafe (ph pk msg : Bytes) :
    createCoinAmount ph (.list [condAggSigUnsafe, .atom pk, .atom msg]) = 0 := by
  have h : condAggSigUnsafe ≠ condCreateCoin := by decide
  simp [createCoinAmount, Clvm.properList, h]

theorem paidTo_list (ph : Bytes) (conds : List Clvm) :
    paidTo ph (.list conds) = (conds.map (createCoinAmount ph)).sum := by
  rw [paidTo, Clvm.properList_list, Option.getD_some]

/-- What a timeout emits; `(1)` is a remark. -/
def timeoutConditions (a : RefereeArgs) (moverPh waiterPh : Bytes) : List Clvm :=
  [Clvm.list [condAssertHeightRelative, .atom a.timeout],
    if a.moverShare = [] then Clvm.list [.nat 1]
    else Clvm.list [condCreateCoin, .atom moverPh, .atom a.moverShare],
    if a.moverShare = [] then Clvm.list [.nat 1]
    else Clvm.list [condAggSigUnsafe, .atom a.moverPubkey, .atom (0x78 :: moverPh)]] ++
  if intOfBytes a.amount - intOfBytes a.moverShare = 0 then []
  else [Clvm.list [condCreateCoin, .atom waiterPh,
      .int (intOfBytes a.amount - intOfBytes a.moverShare)],
    Clvm.list [condAggSigUnsafe, .atom a.waiterPubkey, .atom (0x78 :: waiterPh)]]

theorem refereePuzzle_timeout (moverPh waiterPh : Bytes) :
    refereePuzzle sha256 run a (timeoutSolution a moverPh waiterPh) =
      some (.list (timeoutConditions a moverPh waiterPh)) := by
  have hb : refereePuzzle sha256 run a (timeoutSolution a moverPh waiterPh) =
      timeoutBranch a (timeoutSolution a moverPh waiterPh) := rfl
  rw [hb, timeoutBranch, timeoutSolution, timeoutConditions]
  by_cases hs : a.moverShare = []
  · by_cases hd : intOfBytes a.amount - intOfBytes a.moverShare = 0
    · simp [Clvm.nth, hs, show intOfBytes a.amount - intOfBytes [] = 0 from hs ▸ hd]
    · simp [Clvm.nth, hs, show ¬ intOfBytes a.amount - intOfBytes [] = 0 from hs ▸ hd]
  · by_cases hd : intOfBytes a.amount - intOfBytes a.moverShare = 0
    · simp [Clvm.nth, hs, hd]
    · simp [Clvm.nth, hs, hd]

theorem paidTo_timeoutConditions (ph moverPh waiterPh : Bytes) :
    paidTo ph (.list (timeoutConditions a moverPh waiterPh)) =
      (if moverPh = ph then intOfBytes a.moverShare else 0) +
        (if waiterPh = ph then intOfBytes a.amount - intOfBytes a.moverShare else 0) := by
  have hremark : createCoinAmount ph (.list [.nat 1]) = 0 := rfl
  have hassert : createCoinAmount ph (.list [condAssertHeightRelative, .atom a.timeout]) = 0 := rfl
  have hmover : createCoinAmount ph (if a.moverShare = [] then Clvm.list [.nat 1]
      else Clvm.list [condCreateCoin, .atom moverPh, .atom a.moverShare]) =
      if moverPh = ph then intOfBytes a.moverShare else 0 := by
    by_cases hs : a.moverShare = []
    · rw [if_pos hs, hremark, hs]
      simp [intOfBytes]
    · rw [if_neg hs, createCoinAmount_createCoin]
  have hsig : createCoinAmount ph (if a.moverShare = [] then Clvm.list [.nat 1]
      else Clvm.list [condAggSigUnsafe, .atom a.moverPubkey, .atom (0x78 :: moverPh)]) = 0 := by
    by_cases hs : a.moverShare = []
    · rw [if_pos hs, hremark]
    · rw [if_neg hs, createCoinAmount_aggSigUnsafe]
  rw [paidTo_list, timeoutConditions, List.map_append, List.sum_append]
  simp only [List.map_cons, List.map_nil, List.sum_cons, List.sum_nil, hassert, hmover, hsig,
    zero_add, add_zero]
  congr 1
  by_cases hd : intOfBytes a.amount - intOfBytes a.moverShare = 0
  · simp [hd]
  · simp only [hd, if_false, List.map_cons, List.map_nil, List.sum_cons, List.sum_nil, Clvm.int,
      createCoinAmount_createCoin, createCoinAmount_aggSigUnsafe, intOfBytes_bytesOfInt, add_zero]

/-- A timeout pays MOVER_SHARE to the mover and the rest to the waiter. -/
theorem timeout_pays {moverPh waiterPh : Bytes} (hne : moverPh ≠ waiterPh) :
    ∃ conds, refereePuzzle sha256 run a (timeoutSolution a moverPh waiterPh) = some conds ∧
      paidTo moverPh conds = intOfBytes a.moverShare ∧
      paidTo waiterPh conds = intOfBytes a.amount - intOfBytes a.moverShare := by
  refine ⟨_, refereePuzzle_timeout moverPh waiterPh, ?_, ?_⟩
  · rw [paidTo_timeoutConditions, if_pos rfl, if_neg hne.symm, add_zero]
  · rw [paidTo_timeoutConditions, if_neg hne, if_pos rfl, zero_add]

/-- A program that is a pair sends a slash solution to the slash branch. -/
theorem refereePuzzle_slash {program : Clvm} (hp : program.isPair) (state evidence : Clvm)
    (ph : Bytes) :
    refereePuzzle sha256 run a (slashSolution state program evidence ph) =
      slashBranch sha256 run a (slashSolution state program evidence ph) := by
  simp [refereePuzzle, slashSolution, Clvm.nth, hp]

theorem slashBranch_slashSolution (state program evidence : Clvm) (ph : Bytes) :
    slashBranch sha256 run a (slashSolution state program evidence ph) =
      if a.infohashA = infohash sha256 (shatree sha256 program) state then
        (run program (validatorEnv (shatree sha256 program) a
          (slashSolution state program evidence ph))).bind
          fun result => slashConditions sha256 a result ph
      else none := rfl

/-- The coin's slash branch pays for a reveal of this state and program with this evidence. -/
def SlashPays (sha256 : Bytes → Bytes) (run : Run) (a : RefereeArgs)
    (state program evidence : Clvm) : Prop :=
  ∃ ph conds, refereePuzzle sha256 run a (slashSolution state program evidence ph) = some conds

/-- A committed program pays for the evidence exactly if its answer does. -/
theorem slashPays_iff {validator : RefereeArgs → Clvm → Clvm → Option Clvm} {state program : Clvm}
    (hp : program.isPair) (hrun : Runs run program validator)
    (hcommit : a.infohashA = infohash sha256 (shatree sha256 program) state) (evidence : Clvm) :
    SlashPays sha256 run a state program evidence ↔
      ∃ result, validator a state evidence = some result ∧
        ∃ ph conds, slashConditions sha256 a result ph = some conds := by
  have h : ∀ ph, refereePuzzle sha256 run a (slashSolution state program evidence ph) =
      (validator a state evidence).bind fun result => slashConditions sha256 a result ph := by
    intro ph
    rw [refereePuzzle_slash hp, slashBranch_slashSolution, if_pos hcommit, slashSolution,
      Clvm.list_cons, Clvm.list_cons, Clvm.list_cons, hrun]
  simp only [SlashPays, h, Option.bind_eq_some_iff]
  constructor
  · rintro ⟨ph, conds, result, hr, hc⟩
    exact ⟨result, hr, ph, conds, hc⟩
  · rintro ⟨result, hr, ph, conds, hc⟩
    exact ⟨ph, conds, result, hr, hc⟩

/-- An answer of the form `(next_validator_hash new_state max_move_size . extra)`. -/
def answer (nextValidatorHash : Bytes) (newState : Clvm) (maxMoveSize : Bytes) (extra : Clvm) :
    Clvm :=
  .pair (.atom nextValidatorHash) (.pair newState (.pair (.atom maxMoveSize) extra))

/-- The answer agrees with what the coin commits to. -/
def Aligned (sha256 : Bytes → Bytes) (a : RefereeArgs) (nextValidatorHash : Bytes)
    (newState : Clvm) (maxMoveSize : Bytes) : Prop :=
  resultInfohash sha256 nextValidatorHash newState = a.infohashB ∧ maxMoveSize = a.maxMoveSize

instance (nextValidatorHash : Bytes) (newState : Clvm) (maxMoveSize : Bytes) :
    Decidable (Aligned sha256 a nextValidatorHash newState maxMoveSize) :=
  inferInstanceAs (Decidable (_ = _ ∧ _ = _))

@[simp] theorem slashConditions_nil (ph : Bytes) :
    slashConditions sha256 a .nil ph = some (.list (payoutConditions a ph)) := rfl

/-- A one-element answer makes the branch abort: the referee looks for three fields in it. -/
theorem slashConditions_single (ph : Bytes) :
    slashConditions sha256 a (.list [.nil]) ph = none := rfl

theorem slashConditions_answer (nvh : Bytes) (ns : Clvm) (mms : Bytes) (extra : Clvm) (ph : Bytes) :
    slashConditions sha256 a (answer nvh ns mms extra) ph =
      if Aligned sha256 a nvh ns mms then
        if extra = .nil then none else extra.append (.list (payoutConditions a ph))
      else some (.list (payoutConditions a ph)) := rfl

/-- An answer that is neither nil nor a list of three makes the branch abort. -/
theorem slashConditions_eq_some {result : Clvm} {ph : Bytes} {conds : Clvm}
    (h : slashConditions sha256 a result ph = some conds) :
    result = .nil ∨ ∃ nvh ns mms extra, result = answer nvh ns mms extra := by
  rw [slashConditions] at h
  split at h
  · exact .inl ‹_›
  · right
    rcases result with b | ⟨f, r⟩
    · simp [Clvm.nth] at h
    rcases f with nvh | ⟨_, _⟩
    · rcases r with b | ⟨ns, r⟩
      · simp [Clvm.nth] at h
      rcases r with b | ⟨f, extra⟩
      · simp [Clvm.nth] at h
      rcases f with mms | ⟨_, _⟩
      · exact ⟨nvh, ns, mms, extra, rfl⟩
      · simp [Clvm.nth] at h
    · simp [Clvm.nth] at h

end Lemmas

end ChiaGaming
