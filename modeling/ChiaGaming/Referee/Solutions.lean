import ChiaGaming.Referee.Chain

namespace ChiaGaming

/-! Reading the solution that a referee coin was spent with. -/

/-- The ways in which the referee puzzle can be spent. -/
inductive RefereeBranch where
  | timeout
  | slash
  | move
  deriving DecidableEq, Repr

/-- The puzzle looks for two arguments; a third one or a longer tail asks for a program in the
second place. -/
def refereeBranch (args : Clvm) : Option RefereeBranch := do
  let second ← args.nth 1
  let others ← (← args.rest).rest
  some (if others = .nil then .timeout else if second.isPair then .slash else .move)

/-- What a move emits. -/
def moveConditions (sha256 : Bytes → Bytes) (a : RefereeArgs) (m : MoveSolution) : List Clvm :=
  [Clvm.list [condAssertBeforeHeightRelative, .atom a.timeout],
    Clvm.list [condCreateCoin, .atom ((a.afterMove m).puzzleHash sha256), .atom a.amount],
    Clvm.list [condAggSigMe, .atom a.moverPubkey, .atom (shatree sha256 m.toClvm)]]

/-- The reading names the branch that the puzzle takes, and a move is read as the four atoms of
the coin that it creates. -/
def ParsedRefereeSolution.Agrees (sha256 : Bytes → Bytes) (a : RefereeArgs)
    (solution conds : Clvm) : ParsedRefereeSolution → Prop
  | timeout => refereeBranch solution = some .timeout
  | slash => refereeBranch solution = some .slash
  | move m => refereeBranch solution = some .move ∧ solution = m.toClvm ∧
      conds = .list (moveConditions sha256 a m)

section Reading

variable {sha256 : Bytes → Bytes} {run : Run} {a : RefereeArgs} {solution conds : Clvm}

theorem refereePuzzle_eq_some (h : refereePuzzle sha256 run a solution = some conds) :
    refereeBranch solution = some .timeout ∧ timeoutBranch a solution = some conds ∨
      refereeBranch solution = some .slash ∧ slashBranch sha256 run a solution = some conds ∨
      refereeBranch solution = some .move ∧ moveBranch sha256 a solution = some conds := by
  rw [refereePuzzle] at h
  simp only [Option.bind_eq_bind, Option.bind_eq_some_iff] at h
  obtain ⟨second, hsecond, tail, htail, others, hothers, h⟩ := h
  have hbranch : refereeBranch solution =
      some (if others = .nil then .timeout else if second.isPair then .slash else .move) := by
    simp only [refereeBranch, hsecond, htail, hothers, Option.bind_eq_bind, Option.bind_some]
  rw [hbranch]
  split at h
  · rename_i hnil
    exact .inl ⟨by rw [if_pos hnil], h⟩
  · rename_i hnil
    split at h
    · rename_i hpair
      exact .inr (.inl ⟨by rw [if_neg hnil, if_pos hpair], h⟩)
    · rename_i hpair
      exact .inr (.inr ⟨by rw [if_neg hnil, if_neg hpair], h⟩)

/-- The move branch takes four atoms and nothing else. -/
theorem moveBranch_eq_some (h : moveBranch sha256 a solution = some conds) :
    ∃ m : MoveSolution, solution = m.toClvm ∧ a.AcceptsMove m ∧
      conds = .list (moveConditions sha256 a m) := by
  rw [moveBranch] at h
  rcases solution with b | ⟨x, solution⟩
  · simp [Clvm.nth] at h
  rcases solution with b | ⟨y, solution⟩
  · cases x <;> simp [Clvm.nth] at h
  rcases solution with b | ⟨z, solution⟩
  · cases x <;> cases y <;> simp [Clvm.nth] at h
  rcases solution with b | ⟨w, tail⟩
  · cases x <;> cases y <;> cases z <;> simp [Clvm.nth] at h
  cases x with
  | pair f r => simp [Clvm.nth] at h
  | atom newMove =>
  cases y with
  | pair f r => simp [Clvm.nth] at h
  | atom infohashC =>
  cases z with
  | pair f r => simp [Clvm.nth] at h
  | atom newMoverShare =>
  cases w with
  | pair f r => simp [Clvm.nth] at h
  | atom newMaxMoveSize =>
    simp only [Clvm.nth, Clvm.first_pair, Clvm.rest_pair, Clvm.bytes_atom, Option.bind_eq_bind,
      Option.bind_some] at h
    split at h
    · rename_i hc
      obtain ⟨rfl, haccept⟩ := hc
      exact ⟨⟨newMove, infohashC, newMoverShare, newMaxMoveSize⟩, rfl, haccept,
        (Option.some.inj h).symm⟩
    · cases h

theorem refereePuzzle_of_acceptsMove {m : MoveSolution} (h : a.AcceptsMove m) :
    refereePuzzle sha256 run a m.toClvm = some (.list (moveConditions sha256 a m)) := by
  rw [refereePuzzle_move]
  simp only [moveBranch, MoveSolution.toClvm, Clvm.nth, Clvm.list_cons, Clvm.list_nil,
    Clvm.first_pair, Clvm.rest_pair, Clvm.bytes_atom, Option.bind_eq_bind, Option.bind_some,
    true_and]
  exact if_pos h

/-- The slash branch takes four arguments and does not look behind them. -/
theorem slashBranch_eq_some (h : slashBranch sha256 run a solution = some conds) :
    ∃ state program evidence ph tail,
      solution = .pair state (.pair program (.pair evidence (.pair (.atom ph) tail))) := by
  rw [slashBranch] at h
  rcases solution with b | ⟨state, solution⟩
  · simp [Clvm.nth] at h
  rcases solution with b | ⟨program, solution⟩
  · simp [Clvm.nth] at h
  rcases solution with b | ⟨evidence, solution⟩
  · simp [Clvm.nth] at h
  rcases solution with b | ⟨ph, tail⟩
  · simp [Clvm.nth] at h
  cases ph with
  | pair f r => simp [Clvm.nth] at h
  | atom ph => exact ⟨state, program, evidence, ph, tail, rfl⟩

theorem refereeBranch_eq_timeout (h : refereeBranch solution = some .timeout) :
    ∃ x y, solution = .list [x, y] := by
  rcases solution with b | ⟨x, solution⟩
  · cases h
  rcases solution with b | ⟨y, tail⟩
  · cases h
  have htail : tail = .nil := by
    by_contra hne
    cases hpair : y.isPair <;> simp [refereeBranch, Clvm.nth, hne, hpair] at h
  exact ⟨x, y, by rw [htail]; rfl⟩

theorem refereeBranch_eq_slash {state program tail : Clvm}
    (h : refereeBranch (.pair state (.pair program tail)) = some .slash) :
    ∃ f r, program = .pair f r := by
  cases program with
  | pair f r => exact ⟨f, r, rfl⟩
  | atom b =>
    by_cases hnil : tail = .nil <;> simp [refereeBranch, Clvm.nth, Clvm.isPair, hnil] at h

theorem parse_of_properList {elements : List Clvm} :
    ParsedRefereeSolution.parse (.list elements) =
      match elements with
      | [_, _] => .ok .timeout
      | newMove :: .atom infohashC :: newMoverShare :: newMaxMoveSize :: _ => do
        .ok (.move {
          newMove := ← orError newMove.bytes .panic
          infohashC
          newMoverShare := ← orError newMoverShare.bytes .panic
          newMaxMoveSize := ← orError newMaxMoveSize.bytes .panic })
      | _ :: .pair _ _ :: _ :: _ :: _ => .ok .slash
      | _ => .error (.strErr "referee solution has unexpected length" [.nat elements.length]) := by
  rw [ParsedRefereeSolution.parse, Clvm.properList_list]
  rfl

/-- A spend of a referee coin is read as the puzzle takes it, unless its solution does not end in
nil: the puzzle does not look behind the arguments of a slash, the reader does. -/
theorem parse_agrees_iff (h : refereePuzzle sha256 run a solution = some conds) :
    (∃ parsed, ParsedRefereeSolution.parse solution = .ok parsed ∧
        parsed.Agrees sha256 a solution conds) ↔
      ∃ elements, solution = .list elements := by
  constructor
  · rintro ⟨parsed, hparse, -⟩
    obtain ⟨elements, helements, -⟩ := bind_eq_ok.mp hparse
    cases hlist : solution.properList with
    | none =>
      rw [hlist] at helements
      cases helements
    | some elements => exact ⟨elements, (Clvm.properList_eq_some_iff _ _).mp hlist⟩
  · rintro ⟨elements, hlist⟩
    rcases refereePuzzle_eq_some h with ⟨hbranch, -⟩ | ⟨hbranch, hslash⟩ | ⟨hbranch, hmove⟩
    · obtain ⟨x, y, rfl⟩ := refereeBranch_eq_timeout hbranch
      exact ⟨.timeout, rfl, hbranch⟩
    · obtain ⟨state, program, evidence, ph, tail, rfl⟩ := slashBranch_eq_some hslash
      obtain ⟨f, r, rfl⟩ := refereeBranch_eq_slash hbranch
      have hparse : ParsedRefereeSolution.parse (.list elements) = .ok .slash := by
        have hproper := congrArg Clvm.properList hlist
        rw [Clvm.properList_list] at hproper
        simp only [Clvm.properList, Option.map_map, Option.map_eq_some_iff] at hproper
        obtain ⟨others, -, rfl⟩ := hproper
        rw [parse_of_properList]
        rfl
      exact ⟨.slash, hlist ▸ hparse, hbranch⟩
    · obtain ⟨m, rfl, -, rfl⟩ := moveBranch_eq_some hmove
      exact ⟨.move m, rfl, hbranch, rfl, rfl⟩

end Reading

/-! A coin whose validator finds fault with everything, and two spends of it. -/

namespace Faulty

def program : Clvm := .pair .nil .nil

def coin : RefereeArgs where
  moverPubkey := [1]
  waiterPubkey := [2]
  timeout := [15]
  amount := [2]
  modHash := []
  nonce := []
  move := []
  maxMoveSize := [4]
  infohashB := frame []
  moverShare := [1]
  infohashA := infohash frame (shatree frame program) .nil

def run : Run := interpret fun _ _ _ => some .nil

/-- A slash whose last argument is followed by an atom. -/
def improperSlash : Clvm :=
  .pair .nil (.pair program (.pair .nil (.pair (.atom [3]) (.atom [1]))))

end Faulty

theorem parse_agrees_iff_faulty :
    ∃ conds, refereePuzzle frame Faulty.run Faulty.coin
        (slashSolution .nil Faulty.program .nil [3]) = some conds ∧
      ∃ parsed, ParsedRefereeSolution.parse (slashSolution .nil Faulty.program .nil [3]) =
          .ok parsed ∧
        parsed.Agrees frame Faulty.coin (slashSolution .nil Faulty.program .nil [3]) conds := by
  have hslash : refereePuzzle frame Faulty.run Faulty.coin
      (slashSolution .nil Faulty.program .nil [3]) =
        some (.list (payoutConditions Faulty.coin [3])) := by decide +kernel
  exact ⟨_, hslash, (parse_agrees_iff hslash).mpr ⟨_, rfl⟩⟩

/-- The puzzle pays for the slash; the reader takes its solution for no solution at all. -/
theorem improperSlash_not_read :
    refereePuzzle frame Faulty.run Faulty.coin Faulty.improperSlash =
        some (.list (payoutConditions Faulty.coin [3])) ∧
      ParsedRefereeSolution.parse Faulty.improperSlash =
        .error (.strErr "referee solution is not a proper list" []) := by
  constructor
  · decide +kernel
  · rfl

end ChiaGaming
