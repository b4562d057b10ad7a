import ChiaGaming.Lib.Sig
import ChiaGaming.Puzzle.Referee

namespace ChiaGaming

/-- What the programs are run with: the hash function, the CLVM evaluator and the rendering of
public keys as atoms. -/
structure Env where
  sha256 : Bytes → Bytes
  run : Run
  keyBytes : PublicKey → Bytes

abbrev Hash := Bytes

/-- Errors carry their text and the values printed with it. -/
inductive Error where
  | strErr (text : String) (values : List Clvm)
  | channel (text : String)
  | gameMoveRejected (tag message : Bytes)
  | clvmErr
  | panic
  deriving DecidableEq, Repr

def u64FromAtom (b : Bytes) : Option ℕ := if natOfBytes b < 2 ^ 64 then some (natOfBytes b) else none

/-- The empty atom stands for the hash of zeros. -/
def hashFromSlice (b : Bytes) : Except Error Hash :=
  if b = [] then .ok (List.replicate 32 0)
  else if b.length ≠ 32 then .error (.strErr "hash must be 32 bytes, got" [.nat b.length])
  else .ok b

def amountCheckedSub (a b : ℕ) : Except Error ℕ :=
  if b ≤ a then .ok (a - b) else .error (.strErr "Amount underflow" [.nat a, .nat b])

/-- The canonical signed encoding of a size. -/
def canonicalAtomFromUsize (v : ℕ) : Bytes := bytesOfNat v

structure GameMoveStateInfo where
  moveMade : Bytes
  moverShare : ℕ
  maxMoveSize : ℕ
  -- the atom as it stands in the coin, which need not be canonical
  maxMoveSizeRaw : Bytes
  deriving DecidableEq, Repr

inductive ValidationInfoHash where
  | none
  | initial
  | hash (h : Hash)
  deriving DecidableEq, Repr

def ValidationInfoHash.isSome : ValidationInfoHash → Bool
  | none => false
  | _ => true

def ValidationInfoHash.toAtom : ValidationInfoHash → Bytes
  | none => []
  | initial => [0x78]
  | hash h => h

def ValidationInfoHash.ofRaw (raw : Bytes) : Except Error ValidationInfoHash :=
  if raw = [] then .ok none
  else if raw = [0x78] then .ok initial
  else (hashFromSlice raw).map hash

theorem ValidationInfoHash.ofRaw_eq_ok {raw : Bytes} (h : raw = [] ∨ raw.length = 32) :
    ∃ vih, ofRaw raw = .ok vih ∧ vih.toAtom = raw := by
  rcases h with rfl | h32
  · exact ⟨none, rfl, rfl⟩
  · have hne : raw ≠ [] := by
      apply List.ne_nil_of_length_pos
      omega
    have hne' : raw ≠ [0x78] := by
      rintro rfl
      simp at h32
    refine ⟨hash raw, ?_, rfl⟩
    rw [ofRaw, if_neg hne, if_neg hne', hashFromSlice, if_neg hne, if_neg (by omega)]
    rfl

structure GameMoveDetails where
  basic : GameMoveStateInfo
  validationInfoHash : ValidationInfoHash
  validationProgramHash : Option Hash
  deriving DecidableEq, Repr

/-- A validation program with the hash that was declared for it. -/
structure StateUpdateProgram where
  program : Clvm
  hash : Hash
  deriving DecidableEq, Repr

structure ChiaIdentity where
  privateKey : PrivateKey
  deriving DecidableEq, Repr

def ChiaIdentity.publicKey (i : ChiaIdentity) : PublicKey := ChiaGaming.publicKey i.privateKey

structure RefereeFixedContext where
  refereeCoinPuzzleHash : Hash
  myIdentity : ChiaIdentity
  rewardPuzzleHash : Hash
  theirRewardPuzzleHash : Hash
  theirRefereePubkey : PublicKey
  theirRewardPayoutSignature : Aggsig
  myRewardPayoutSignature : Aggsig
  timeout : ℕ
  amount : ℕ
  nonce : ℕ
  deriving DecidableEq

/-- The referee's arguments as the players keep them. -/
structure RefereePuzzleArgs where
  moverPubkey : PublicKey
  waiterPubkey : PublicKey
  timeout : ℕ
  amount : ℕ
  nonce : ℕ
  gameMove : GameMoveDetails
  validationProgram : StateUpdateProgram
  previousValidationInfoHash : ValidationInfoHash
  refereeCoinPuzzleHash : Hash
  deriving DecidableEq

namespace RefereePuzzleArgs

def new (fixed : RefereeFixedContext) (initialMove : GameMoveDetails)
    (previousValidationInfoHash : ValidationInfoHash) (validationProgram : StateUpdateProgram)
    (myTurn : Bool) : RefereePuzzleArgs where
  moverPubkey := if myTurn then fixed.myIdentity.publicKey else fixed.theirRefereePubkey
  waiterPubkey := if myTurn then fixed.theirRefereePubkey else fixed.myIdentity.publicKey
  timeout := fixed.timeout
  amount := fixed.amount
  nonce := fixed.nonce
  gameMove := initialMove
  validationProgram := validationProgram
  previousValidationInfoHash := previousValidationInfoHash
  refereeCoinPuzzleHash := fixed.refereeCoinPuzzleHash

def swap (args : RefereePuzzleArgs) : RefereePuzzleArgs :=
  { args with moverPubkey := args.waiterPubkey, waiterPubkey := args.moverPubkey }

/-- The curried arguments of the coin. -/
def coin (E : Env) (args : RefereePuzzleArgs) : RefereeArgs where
  moverPubkey := E.keyBytes args.moverPubkey
  waiterPubkey := E.keyBytes args.waiterPubkey
  timeout := bytesOfNat args.timeout
  amount := bytesOfNat args.amount
  modHash := args.refereeCoinPuzzleHash
  nonce := bytesOfNat args.nonce
  move := args.gameMove.basic.moveMade
  maxMoveSize := args.gameMove.basic.maxMoveSizeRaw
  infohashB := args.gameMove.validationInfoHash.toAtom
  moverShare := bytesOfNat args.gameMove.basic.moverShare
  infohashA := args.previousValidationInfoHash.toAtom

end RefereePuzzleArgs

/-- The same coin with the players' keys exchanged. -/
def RefereeArgs.swap (a : RefereeArgs) : RefereeArgs :=
  { a with moverPubkey := a.waiterPubkey, waiterPubkey := a.moverPubkey }

section Model

variable (E : Env)

/-- `ValidationInfo::new_state_update(..).hash()`. -/
def validationInfoHash (program : StateUpdateProgram) (state : Clvm) : Hash :=
  infohash E.sha256 program.hash state

def curryRefereePuzzleHash (refereeCoinPuzzleHash : Hash) (args : RefereePuzzleArgs) : Hash :=
  curryHashes E.sha256 refereeCoinPuzzleHash [shatree E.sha256 (args.coin E).toClvm]

/-- The new state of a legal move; `none` calls for a slash.  The other fields of the validator's
answer are dropped. -/
def parseValidatorResult (result : Clvm) : Except Error (Option Clvm) :=
  match result.properList with
  | none => .error (.strErr "non-list in validator result" [])
  | some [] => .ok none
  | some lst => .ok (some (lst[1]?.getD .nil))

/-- A validator's run off chain: the solution ends after the evidence. -/
def runInternalStateUpdate (validationProgram : StateUpdateProgram)
    (refereeArgs : RefereePuzzleArgs) (state evidence : Clvm) : Except Error (Option Clvm) :=
  if refereeArgs.validationProgram.hash ≠ validationProgram.hash then
    .error (.strErr "ValidationInfo::run: validation_program hash mismatch" [])
  else
    match E.run validationProgram.program (validatorEnv validationProgram.hash (refereeArgs.coin E)
        (.list [state, validationProgram.program, evidence])) with
    | none => .error .clvmErr
    | some result => parseValidatorResult result

/-- Both players run the validator on the coin with the keys exchanged. -/
theorem runInternalStateUpdate_swap (args : RefereePuzzleArgs) (state evidence : Clvm) :
    runInternalStateUpdate E args.validationProgram args.swap state evidence =
      match E.run args.validationProgram.program (validatorEnv args.validationProgram.hash
          (args.coin E).swap (.list [state, args.validationProgram.program, evidence])) with
      | none => .error .clvmErr
      | some result => parseValidatorResult result := by
  rw [runInternalStateUpdate, if_neg (by simp [RefereePuzzleArgs.swap])]
  rfl

theorem parseValidatorResult_answer (nextValidatorHash : Bytes) (newState : Clvm)
    (maxMoveSize : Bytes) :
    parseValidatorResult (answer nextValidatorHash newState maxMoveSize .nil) =
      .ok (some newState) := rfl

/-- What is needed to repeat a move on chain. -/
structure OnChainRefereeMoveData where
  state : Clvm
  validationProgram : StateUpdateProgram
  newMove : GameMoveDetails
  beforeArgs : RefereePuzzleArgs
  afterArgs : RefereePuzzleArgs
  deriving DecidableEq

/-- The solution that plays the move on chain. -/
def OnChainRefereeMoveData.solution (d : OnChainRefereeMoveData) : MoveSolution where
  newMove := d.newMove.basic.moveMade
  infohashC :=
    if d.newMove.validationInfoHash.isSome then validationInfoHash E d.validationProgram d.state
    else []
  newMoverShare := bytesOfNat d.newMove.basic.moverShare
  newMaxMoveSize := d.newMove.basic.maxMoveSizeRaw

end Model

inductive ParsedRefereeSolution where
  | timeout
  | move (m : MoveSolution)
  | slash

structure CoinString where
  parent : Hash
  puzzleHash : Hash
  amount : ℕ
  deriving DecidableEq, Repr

def CoinString.toCoinId (sha256 : Bytes → Bytes) (c : CoinString) : Hash :=
  sha256 (c.parent ++ c.puzzleHash ++ bytesOfNat c.amount)

/-- The condition that the referee's bookkeeping reads. -/
inductive CoinCondition where
  | createCoin (puzzleHash : Hash) (amount : ℕ)
  | other
  deriving DecidableEq, Repr

/-- The spend of a referee coin: its arguments stand for the curried puzzle. -/
structure RefereeSpend where
  coin : CoinString
  puzzle : RefereePuzzleArgs
  solution : Clvm
  signature : Aggsig

structure GameMoveWireData where
  puzzleHashForUnroll : Hash
  details : GameMoveDetails

structure TheirTurnMoveResult where
  puzzleHashForUnroll : Option Hash
  readableMove : Clvm
  moverShare : ℕ
  message : Bytes
  slash : Option Clvm

end ChiaGaming
