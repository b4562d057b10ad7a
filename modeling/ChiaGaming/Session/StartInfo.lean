import ChiaGaming.Session.Types
import ChiaGaming.Lib.Result
import ChiaGaming.Lib.Serialize

namespace ChiaGaming

/-! The reading of a game's start from a CLVM list, with a length guard that is written apart from the
positions. -/

/-- An element of a vector; an index out of range panics. -/
def elementAt (fields : List Clvm) (i : ℕ) : Except Error Clvm := orError fields[i]? .panic

def usizeFromAtom (usizeBits : ℕ) (b : Bytes) : Option ℕ :=
  if natOfBytes b < 2 ^ usizeBits then some (natOfBytes b) else none

def hashFromNodeptr (v : Clvm) : Except Error Hash :=
  match v.bytes with
  | some b => hashFromSlice b
  | none => .error (.strErr "can't convert node to hash" [])

def gameIdFromClvm (v : Clvm) : Except Error GameID :=
  match v.bytes with
  | some b => orError (u64FromAtom b) (.strErr "game id atom too large for u64" [])
  | none => .error (.strErr "bad game id" [])

def timeoutFromClvm (v : Clvm) : Except Error ℕ :=
  orError (v.bytes.bind u64FromAtom) (.strErr "bad timeout" [])

/-- A field of the list, read as what it stands for. -/
def readField {α : Type} (fields : List Clvm) (i : ℕ) (decode : Clvm → Except Error α) : Except Error α := do
  decode (← elementAt fields i)

theorem readField_eq_ok {α : Type} {fields : List Clvm} {i : ℕ} {decode : Clvm → Except Error α} {a : α} :
    readField fields i decode = .ok a ↔ ∃ v, fields[i]? = some v ∧ decode v = .ok a := by
  rw [readField, bind_eq_ok]
  simp only [elementAt, orError_eq_ok]

/-- A field that is there is read without a panic if its reader never panics. -/
theorem readField_ne_panic {α : Type} {fields : List Clvm} {i : ℕ} {decode : Clvm → Except Error α}
    (hi : i < fields.length) (hdecode : ∀ v, decode v ≠ .error .panic) :
    readField fields i decode ≠ .error .panic := by
  rw [readField, elementAt, List.getElem?_eq_getElem hi]
  exact hdecode _

theorem orError_ne_panic {α : Type} {o : Option α} {text : String} {values : List Clvm} :
    orError o (.strErr text values) ≠ .error .panic := by
  cases o <;> simp [orError]

theorem hashFromNodeptr_ne_panic (v : Clvm) : hashFromNodeptr v ≠ .error .panic := by
  rw [hashFromNodeptr]
  cases v.bytes with
  | none => simp
  | some b =>
    dsimp only
    rw [hashFromSlice]
    split_ifs <;> simp

theorem gameIdFromClvm_ne_panic (v : Clvm) : gameIdFromClvm v ≠ .error .panic := by
  rw [gameIdFromClvm]
  cases v.bytes with
  | none => simp
  | some b => exact orError_ne_panic

namespace GameStartInfo

-- the width of a size on the machine
variable (usizeBits : ℕ)

/-- A program is kept as its serialisation. -/
def programFromNodeptr (v : Clvm) : Except Error Clvm := do
  let _ ← orError (nodeToBytes v) .clvmErr
  .ok v

def myTurnFromClvm (v : Clvm) : Except Error Bool := do
  let a ← orError (v.bytes.bind (usizeFromAtom usizeBits))
    (.strErr "bad my_turn in game start info" [])
  .ok (a ≠ 0)

def initialMoveFromClvm (v : Clvm) : Except Error Bytes :=
  orError v.bytes (.strErr "initial move wasn't an atom" [])

def initialMaxMoveSizeFromClvm (v : Clvm) : Except Error ℕ :=
  orError (v.bytes.bind (usizeFromAtom usizeBits)) (.strErr "bad initial max move size" [])

def requiredLength : ℕ := 11

def fromFields (lst : List Clvm) : Except Error GameStartInfo := do
  if lst.length < requiredLength then
    .error (.strErr "game start info clvm needs at least 11 items" [])
  else
    let returnedAmount ← readField lst 0 amountFromClvm
    let myTurn ← readField lst 1 (myTurnFromClvm usizeBits)
    let handler ← readField lst 2 programFromNodeptr
    let returnedMyContribution ← readField lst 3 amountFromClvm
    let returnedTheirContribution ← readField lst 4 amountFromClvm
    let validationProg ← readField lst 5 programFromNodeptr
    let validationProgramHash ← readField lst 6 hashFromNodeptr
    let initialState ← readField lst 7 programFromNodeptr
    let initialMove ← readField lst 8 initialMoveFromClvm
    let initialMaxMoveSize ← readField lst 9 (initialMaxMoveSizeFromClvm usizeBits)
    let initialMoverShare ← readField lst 10 amountFromClvm
    if lst.length ≤ requiredLength + 1 then
      .error (.strErr "game_start_info missing required game_id field" [])
    else
      let returnedGameId ← readField lst requiredLength gameIdFromClvm
      -- the timeout is the element after the identifier, and one more is asked for
      if lst.length ≤ requiredLength + 2 then
        .error (.strErr "game_start_info missing required timeout field" [])
      else
        let returnedTimeout ← readField lst (requiredLength + 1) timeoutFromClvm
        .ok {
          amount := returnedAmount
          gameHandler := if myTurn then .myTurnHandler handler else .theirTurnHandler handler
          myContributionThisGame := returnedMyContribution
          theirContributionThisGame := returnedTheirContribution
          initialValidationProgram := ⟨validationProg, validationProgramHash⟩
          initialState
          initialMove
          initialMaxMoveSize
          initialMoverShare
          gameId := returnedGameId
          timeout := returnedTimeout }

def fromClvm (v : Clvm) : Except Error GameStartInfo :=
  match v.properList with
  | none => .error (.strErr "game start info clvm wasn't a full list" [])
  | some lst => fromFields usizeBits lst

/-- The first elements of the list are the fields of the game, each of the kind that is asked for. -/
structure Encodes (lst : List Clvm) (info : GameStartInfo) : Prop where
  amount : readField lst 0 amountFromClvm = .ok info.amount
  gameHandler : ∃ myTurn handler, readField lst 1 (myTurnFromClvm usizeBits) = .ok myTurn ∧
    readField lst 2 programFromNodeptr = .ok handler ∧
    info.gameHandler = if myTurn then .myTurnHandler handler else .theirTurnHandler handler
  myContributionThisGame : readField lst 3 amountFromClvm = .ok info.myContributionThisGame
  theirContributionThisGame : readField lst 4 amountFromClvm = .ok info.theirContributionThisGame
  validationProgram :
    readField lst 5 programFromNodeptr = .ok info.initialValidationProgram.program
  validationProgramHash : readField lst 6 hashFromNodeptr = .ok info.initialValidationProgram.hash
  initialState : readField lst 7 programFromNodeptr = .ok info.initialState
  initialMove : readField lst 8 initialMoveFromClvm = .ok info.initialMove
  initialMaxMoveSize :
    readField lst 9 (initialMaxMoveSizeFromClvm usizeBits) = .ok info.initialMaxMoveSize
  initialMoverShare : readField lst 10 amountFromClvm = .ok info.initialMoverShare
  gameId : readField lst 11 gameIdFromClvm = .ok info.gameId
  timeout : readField lst 12 timeoutFromClvm = .ok info.timeout

variable {usizeBits} {lst : List Clvm} {info : GameStartInfo}

theorem Encodes.length_le (h : Encodes usizeBits lst info) : 13 ≤ lst.length := by
  obtain ⟨v, hv, -⟩ := readField_eq_ok.mp h.timeout
  obtain ⟨hlt, -⟩ := List.getElem?_eq_some_iff.mp hv
  exact hlt

/-- The reading succeeds on the fields of a game when something follows them. -/
theorem fromFields_eq_ok : fromFields usizeBits lst = .ok info ↔
    Encodes usizeBits lst info ∧ lst.length ≠ 13 := by
  rw [fromFields]
  constructor
  · intro h
    by_cases hshort : lst.length < requiredLength
    · rw [if_pos hshort] at h
      cases h
    rw [if_neg hshort] at h
    obtain ⟨amount, hamount, h⟩ := bind_eq_ok.mp h
    obtain ⟨turn, hturn, h⟩ := bind_eq_ok.mp h
    obtain ⟨handler, hhandler, h⟩ := bind_eq_ok.mp h
    obtain ⟨mine, hmine, h⟩ := bind_eq_ok.mp h
    obtain ⟨theirs, htheirs, h⟩ := bind_eq_ok.mp h
    obtain ⟨program, hprogram, h⟩ := bind_eq_ok.mp h
    obtain ⟨hash, hhash, h⟩ := bind_eq_ok.mp h
    obtain ⟨state, hstate, h⟩ := bind_eq_ok.mp h
    obtain ⟨move, hmove, h⟩ := bind_eq_ok.mp h
    obtain ⟨size, hsize, h⟩ := bind_eq_ok.mp h
    obtain ⟨share, hshare, h⟩ := bind_eq_ok.mp h
    by_cases hid : lst.length ≤ requiredLength + 1
    · rw [if_pos hid] at h
      cases h
    rw [if_neg hid] at h
    obtain ⟨gameId, hgameId, h⟩ := bind_eq_ok.mp h
    by_cases htime : lst.length ≤ requiredLength + 2
    · rw [if_pos htime] at h
      cases h
    rw [if_neg htime] at h
    obtain ⟨timeout, htimeout, h⟩ := bind_eq_ok.mp h
    cases h
    refine ⟨⟨hamount, ⟨turn, handler, hturn, hhandler, rfl⟩, hmine, htheirs, hprogram, hhash, hstate,
      hmove, hsize, hshare, hgameId, htimeout⟩, fun hlength => htime ?_⟩
    exact Nat.le_of_eq hlength
  · rintro ⟨h, hlength⟩
    have hlong := h.length_le
    obtain ⟨turn, handler, hturn, hhandler, hinfo⟩ := h.gameHandler
    have hshort : ¬ lst.length < requiredLength := by
      rw [requiredLength]
      omega
    have hid : ¬ lst.length ≤ requiredLength + 1 := by
      rw [requiredLength]
      omega
    have htime : ¬ lst.length ≤ requiredLength + 2 := by
      rw [requiredLength]
      omega
    have hgameId : readField lst requiredLength gameIdFromClvm = .ok info.gameId := h.gameId
    have htimeout : readField lst (requiredLength + 1) timeoutFromClvm = .ok info.timeout := h.timeout
    rw [if_neg hshort, h.amount, ok_bind, hturn, ok_bind, hhandler, ok_bind,
      h.myContributionThisGame, ok_bind, h.theirContributionThisGame, ok_bind, h.validationProgram,
      ok_bind, h.validationProgramHash, ok_bind, h.initialState, ok_bind, h.initialMove, ok_bind,
      h.initialMaxMoveSize, ok_bind, h.initialMoverShare, ok_bind, if_neg hid, hgameId, ok_bind,
      if_neg htime, htimeout, ok_bind, ← hinfo]

theorem bind_ne_panic {α β : Type} {x : Except Error α} {f : α → Except Error β}
    (hx : x ≠ .error .panic) (hf : ∀ a, f a ≠ .error .panic) : (x >>= f) ≠ .error .panic := by
  intro h
  rcases bind_eq_error.mp h with h | ⟨a, -, h⟩
  · exact hx h
  · exact hf a h

theorem programFromNodeptr_ne_panic (v : Clvm) :
    programFromNodeptr v ≠ .error .panic := by
  rw [programFromNodeptr]
  cases nodeToBytes v <;> simp [orError]

theorem myTurnFromClvm_ne_panic (v : Clvm) : myTurnFromClvm usizeBits v ≠ .error .panic :=
  bind_ne_panic orError_ne_panic fun _ => by simp

/-- The positions that are read lie within what the guards let through. -/
theorem fromFields_ne_panic : fromFields usizeBits lst ≠ .error .panic := by
  rw [fromFields]
  by_cases hshort : lst.length < requiredLength
  · rw [if_pos hshort]
    simp
  rw [if_neg hshort]
  rw [requiredLength, Nat.not_lt] at hshort
  have hin : ∀ {i}, i < 11 → i < lst.length := fun hi => Nat.lt_of_lt_of_le hi hshort
  have hamount : ∀ v, amountFromClvm v ≠ .error .panic := fun _ => orError_ne_panic
  refine bind_ne_panic (readField_ne_panic (hin (by decide)) hamount) fun _ => ?_
  refine bind_ne_panic (readField_ne_panic (hin (by decide)) myTurnFromClvm_ne_panic) fun _ => ?_
  refine bind_ne_panic (readField_ne_panic (hin (by decide)) programFromNodeptr_ne_panic) fun _ => ?_
  refine bind_ne_panic (readField_ne_panic (hin (by decide)) hamount) fun _ => ?_
  refine bind_ne_panic (readField_ne_panic (hin (by decide)) hamount) fun _ => ?_
  refine bind_ne_panic (readField_ne_panic (hin (by decide)) programFromNodeptr_ne_panic) fun _ => ?_
  refine bind_ne_panic (readField_ne_panic (hin (by decide)) hashFromNodeptr_ne_panic) fun _ => ?_
  refine bind_ne_panic (readField_ne_panic (hin (by decide)) programFromNodeptr_ne_panic) fun _ => ?_
  refine bind_ne_panic (readField_ne_panic (hin (by decide)) fun _ => orError_ne_panic) fun _ => ?_
  refine bind_ne_panic (readField_ne_panic (hin (by decide)) fun _ => orError_ne_panic) fun _ => ?_
  refine bind_ne_panic (readField_ne_panic (hin (by decide)) hamount) fun _ => ?_
  by_cases hid : lst.length ≤ requiredLength + 1
  · rw [if_pos hid]
    simp
  rw [if_neg hid]
  rw [Nat.not_le] at hid
  refine bind_ne_panic (readField_ne_panic (Nat.lt_of_succ_lt hid) gameIdFromClvm_ne_panic) fun _ => ?_
  by_cases htime : lst.length ≤ requiredLength + 2
  · rw [if_pos htime]
    simp
  rw [if_neg htime]
  refine bind_ne_panic (readField_ne_panic hid fun _ => orError_ne_panic) fun _ => ?_
  simp

/-- What is accepted is what is read: a list that begins with the fields of a game gives that game,
nothing else gives one, and no index is out of range. -/
structure ReadsExactly (usizeBits : ℕ) (v : Clvm) : Prop where
  accepts : ∀ info, fromClvm usizeBits v = .ok info ↔
    ∃ lst, v.properList = some lst ∧ Encodes usizeBits lst info
  inRange : fromClvm usizeBits v ≠ .error .panic

/-- The game is read from every list but the one that has its thirteen fields and no more. -/
theorem readsExactly_iff (v : Clvm) : ReadsExactly usizeBits v ↔
    ¬ ∃ lst info, v.properList = some lst ∧ lst.length = 13 ∧
      Encodes usizeBits lst info := by
  have hok : ∀ info, fromClvm usizeBits v = .ok info ↔
      ∃ lst, v.properList = some lst ∧ Encodes usizeBits lst info ∧ lst.length ≠ 13 := by
    intro info
    rw [fromClvm]
    cases hv : v.properList with
    | none => simp
    | some lst => simp only [fromFields_eq_ok, Option.some.injEq, exists_eq_left']
  constructor
  · rintro h ⟨lst, info, hv, hlength, hencodes⟩
    obtain ⟨lst', hv', -, hlength'⟩ := (hok info).mp ((h.accepts info).mpr ⟨lst, hv, hencodes⟩)
    rw [hv] at hv'
    cases hv'
    exact hlength' hlength
  · intro h
    refine ⟨fun info => (hok info).trans ⟨?_, ?_⟩, ?_⟩
    · rintro ⟨lst, hv, hencodes, -⟩
      exact ⟨lst, hv, hencodes⟩
    · rintro ⟨lst, hv, hencodes⟩
      exact ⟨lst, hv, hencodes, fun hlength => h ⟨lst, info, hv, hlength, hencodes⟩⟩
    · rw [fromClvm]
      cases v.properList with
      | none => simp
      | some lst => exact fromFields_ne_panic

/-- The thirteen fields of a game, one byte or none each. -/
def thirteen : List Clvm :=
  [.nat 2, .nat 1, .nil, .nat 1, .nat 1, .nil, .nil, .nil, .nil, .nat 5, .nil, .nat 1, .nat 15]

theorem thirteen_refused : ¬ ReadsExactly 64 (.list thirteen) := by
  intro h
  have hread : ∃ lst, (Clvm.list thirteen).properList = some lst ∧
      Encodes 64 lst {
        amount := 2
        gameHandler := .myTurnHandler .nil
        myContributionThisGame := 1
        theirContributionThisGame := 1
        initialValidationProgram := ⟨.nil, List.replicate 32 0⟩
        initialState := .nil
        initialMove := []
        initialMaxMoveSize := 5
        initialMoverShare := 0
        gameId := 1
        timeout := 15 } :=
    ⟨thirteen, Clvm.properList_list _, rfl, ⟨true, .nil, rfl, rfl, rfl⟩, rfl, rfl, rfl, rfl, rfl, rfl,
      rfl, rfl, rfl, rfl⟩
  have hrefused := (h.accepts _).mpr hread
  rw [fromClvm, Clvm.properList_list] at hrefused
  cases hrefused

end GameStartInfo

end ChiaGaming
