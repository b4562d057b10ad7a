import ChiaGaming.Lib.Utf8
import ChiaGaming.Referee.Types

namespace ChiaGaming

/-! Game handlers are CLVM programs.  A my-turn handler turns a local move into a move on the wire
and declares the validators around it; a their-turn handler reads a received move. -/

inductive GameHandler where
  | myTurnHandler (p : Clvm)
  | theirTurnHandler (p : Clvm)
  deriving DecidableEq, Repr

def GameHandler.isMyTurn : GameHandler → Bool
  | myTurnHandler _ => true
  | theirTurnHandler _ => false

structure MyTurnInputs where
  readableNewMove : Clvm
  entropy : Hash
  amount : ℕ
  lastMoverShare : ℕ
  state : Clvm

structure MyTurnResult where
  name : Bytes
  moveBytes : Bytes
  outgoingMoveStateUpdateProgram : StateUpdateProgram
  outgoingMoveStateUpdateProgramHash : Hash
  incomingMoveStateUpdateProgram : StateUpdateProgram
  incomingMoveStateUpdateProgramHash : Hash
  maxMoveSize : ℕ
  moverShare : ℕ
  waitingHandler : Option GameHandler
  messageParser : Option Clvm
  deriving DecidableEq

structure TheirTurnInputs where
  amount : ℕ
  preState : Clvm
  state : Clvm
  newMove : GameMoveDetails

structure TheirTurnResult where
  readableMove : Clvm
  slashEvidence : List Clvm
  moverShare : ℕ
  nextHandler : Option GameHandler
  message : Bytes

def orError {α : Type} (o : Option α) (e : Error) : Except Error α :=
  match o with
  | some a => .ok a
  | none => .error e

theorem orError_eq_ok {α : Type} {x : Option α} {e : Error} {a : α} :
    orError x e = .ok a ↔ x = some a := by
  cases x with
  | none => simp [orError]
  | some b => simp [orError]

section Calls

variable (E : Env)

/-- A program read from a handler's result is hashed, not believed. -/
def StateUpdateProgram.new (program : Clvm) : StateUpdateProgram :=
  ⟨program, shatree E.sha256 program⟩

/-- The result is
`(label move outgoing outgoing_hash incoming incoming_hash max_move_size mover_share handler parser)`;
two elements reject the local move. -/
def parseMyTurnResult (result : Clvm) : Except Error MyTurnResult := do
  let pl ← orError result.properList (.strErr "bad result from game handler: not a list" [])
  match pl with
  | [tag, message] =>
    .error (.gameMoveRejected (← orError tag.bytes .panic) (← orError message.bytes .panic))
  | name :: move :: outgoing :: outgoingHash :: incoming :: incomingHash :: maxMoveSize ::
      moverShare :: waiting :: more =>
    let name ← orError name.bytes (.strErr "game handler name was not an atom" [])
    if !validUtf8 name then .error (.strErr "game handler name is not valid UTF-8" [.atom name])
    else
      let maxMoveSize ← orError (maxMoveSize.bytes.bind u64FromAtom)
        (.strErr "bad max move size" [])
      let moverShare ← orError (moverShare.bytes.bind u64FromAtom) (.strErr "bad share" [moverShare])
      let outgoingHash ← hashFromSlice (← orError outgoingHash.bytes (.strErr "bad hash" []))
      let incomingHash ← hashFromSlice (← orError incomingHash.bytes (.strErr "bad hash" []))
      let moveBytes ← orError move.bytes
        (.strErr "bad move in my turn handler result" [result])
      .ok {
        name
        moveBytes
        outgoingMoveStateUpdateProgram := StateUpdateProgram.new E outgoing
        outgoingMoveStateUpdateProgramHash := outgoingHash
        incomingMoveStateUpdateProgram := StateUpdateProgram.new E incoming
        incomingMoveStateUpdateProgramHash := incomingHash
        maxMoveSize
        moverShare
        waitingHandler := if waiting = .nil then none else some (.theirTurnHandler waiting)
        messageParser := more.head?.filter (· ≠ .nil) }
  | _ => .error (.strErr "bad result from game handler" [result])

def GameHandler.callMyTurnHandler (handler : GameHandler) (inputs : MyTurnInputs) :
    Except Error MyTurnResult :=
  match handler with
  | theirTurnHandler _ => .error (.strErr "my turn called on a their turn handler" [])
  | myTurnHandler p => do
    let result ← orError (E.run p (.list [inputs.readableNewMove, .nat inputs.amount, inputs.state,
      .nat inputs.lastMoverShare, .atom inputs.entropy])) .clvmErr
    parseMyTurnResult E result

/-- The result is `(readable_move evidence_list next_handler message)`; the last two may be
missing. -/
def parseTheirTurnResult (moverShare : ℕ) (result : Clvm) : Except Error TheirTurnResult := do
  let pl ← orError result.properList (.strErr "bad result from game handler: not a list" [result])
  match pl with
  | readableMove :: evidence :: more =>
    let slashEvidence ← orError evidence.properList (.strErr "slash evidence was not a list" [])
    let message ← match more[1]? with
      | some m => orError m.bytes .panic
      | none => .ok []
    .ok {
      readableMove
      slashEvidence
      moverShare
      nextHandler := (more.head?.filter (· ≠ .nil)).map .myTurnHandler
      message }
  | _ => .error (.strErr "bad length for move result" [result])

def GameHandler.callTheirTurnHandler (handler : GameHandler) (inputs : TheirTurnInputs) :
    Except Error TheirTurnResult :=
  match handler with
  | myTurnHandler _ => .error (.strErr "their turn called on a my turn handler" [])
  | theirTurnHandler p => do
    let result ← orError (E.run p (.list [.nat inputs.amount, inputs.preState, inputs.state,
      .atom inputs.newMove.basic.moveMade,
      .atom (inputs.newMove.validationProgramHash.getD []),
      .nat inputs.newMove.basic.moverShare]))
      (.strErr "their turn handler failed" [.atom inputs.newMove.basic.moveMade, inputs.preState,
        inputs.state])
    parseTheirTurnResult inputs.newMove.basic.moverShare result

end Calls

end ChiaGaming
