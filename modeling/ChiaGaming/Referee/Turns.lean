import ChiaGaming.Referee.Handler

namespace ChiaGaming

structure GameStartInfo where
  amount : ℕ
  gameHandler : GameHandler
  myContributionThisGame : ℕ
  theirContributionThisGame : ℕ
  initialValidationProgram : StateUpdateProgram
  initialState : Clvm
  initialMove : Bytes
  initialMaxMoveSize : ℕ
  initialMoverShare : ℕ
  gameId : ℕ
  timeout : ℕ
  deriving DecidableEq

inductive MyTurnRefereeGameState where
  | initial (initialState : Clvm) (initialPuzzleArgs : RefereePuzzleArgs) (gameHandler : GameHandler)
  | afterTheirTurn (gameHandler : Option GameHandler) (stateAfterTheirTurn : Clvm)
      (createThisCoin spendThisCoin : RefereePuzzleArgs) (moveSpend : Option OnChainRefereeMoveData)
  deriving DecidableEq

namespace MyTurnRefereeGameState

def argsForThisCoin : MyTurnRefereeGameState → RefereePuzzleArgs
  | initial _ args _ => args
  | afterTheirTurn _ _ create _ _ => create

def spendThisCoin : MyTurnRefereeGameState → RefereePuzzleArgs
  | initial _ args _ => args
  | afterTheirTurn _ _ _ spend _ => spend

def gameHandler : MyTurnRefereeGameState → Option GameHandler
  | initial _ _ h => some h
  | afterTheirTurn h _ _ _ _ => h

def stateToUpdate : MyTurnRefereeGameState → Clvm
  | initial s _ _ => s
  | afterTheirTurn _ s _ _ _ => s

def moveSpend : MyTurnRefereeGameState → Option OnChainRefereeMoveData
  | initial _ _ _ => none
  | afterTheirTurn _ _ _ _ m => m

end MyTurnRefereeGameState

structure MyTurnReferee where
  fixed : RefereeFixedContext
  finished : Bool
  enableCheating : Option (Bytes × ℕ)
  state : MyTurnRefereeGameState
  stateNumber : ℕ
  deriving DecidableEq

/-- The slash pair is what the tracked coin commits to; the move is judged by the other pair. -/
structure TheirTurnRefereeGameState where
  gameHandler : Option GameHandler
  slashValidationProgram : StateUpdateProgram
  slashState : Clvm
  theirTurnValidationProgram : StateUpdateProgram
  currentState : Clvm
  createThisCoin : RefereePuzzleArgs
  spendThisCoin : RefereePuzzleArgs
  moveSpend : Option OnChainRefereeMoveData
  deriving DecidableEq

structure TheirTurnReferee where
  fixed : RefereeFixedContext
  finished : Bool
  messageHandler : Option Clvm
  state : TheirTurnRefereeGameState
  stateNumber : ℕ
  deriving DecidableEq

inductive Referee where
  | myTurn (r : MyTurnReferee)
  | theirTurn (r : TheirTurnReferee)
  deriving DecidableEq

section Setup

variable (E : Env)

def rewardPayoutMessage (rewardPuzzleHash : Hash) : Bytes := 0x78 :: rewardPuzzleHash

structure RefereeInitialSetup where
  fixed : RefereeFixedContext
  refPuzzleArgs : RefereePuzzleArgs
  puzzleHash : Hash

/-- Everything but the game itself that a referee is set up with. -/
structure RefereeParties where
  refereeCoinPuzzleHash : Hash
  myIdentity : ChiaIdentity
  theirPubkey : PublicKey
  theirRewardPuzzleHash : Hash
  theirRewardPayoutSignature : Aggsig
  rewardPuzzleHash : Hash
  nonce : ℕ

def initialFixedContext (g : GameStartInfo) (p : RefereeParties) : RefereeFixedContext where
  refereeCoinPuzzleHash := p.refereeCoinPuzzleHash
  myIdentity := p.myIdentity
  rewardPuzzleHash := p.rewardPuzzleHash
  theirRewardPuzzleHash := p.theirRewardPuzzleHash
  theirRefereePubkey := p.theirPubkey
  theirRewardPayoutSignature := p.theirRewardPayoutSignature
  myRewardPayoutSignature := sign p.myIdentity.privateKey (rewardPayoutMessage p.rewardPuzzleHash)
  timeout := g.timeout
  amount := g.amount
  nonce := p.nonce

/-- The coin of a new game commits to the initial validator and state. -/
def initialMoveDetails (g : GameStartInfo) : GameMoveDetails where
  basic := {
    moveMade := g.initialMove
    moverShare := g.initialMoverShare
    maxMoveSize := g.initialMaxMoveSize
    maxMoveSizeRaw := canonicalAtomFromUsize g.initialMaxMoveSize }
  validationInfoHash := .hash (validationInfoHash E g.initialValidationProgram g.initialState)
  validationProgramHash := some g.initialValidationProgram.hash

def initialPuzzleArgs (g : GameStartInfo) (p : RefereeParties) : RefereePuzzleArgs :=
  RefereePuzzleArgs.new (initialFixedContext g p) (initialMoveDetails E g) .initial
    g.initialValidationProgram g.gameHandler.isMyTurn

def refereeInitialSetup (g : GameStartInfo) (p : RefereeParties) :
    Except Error RefereeInitialSetup :=
  let myTurn := g.gameHandler.isMyTurn
  let fixed := initialFixedContext g p
  let args := initialPuzzleArgs E g p
  if myTurn ∧ fixed.myIdentity.publicKey ≠ args.moverPubkey then
    .error (.strErr "referee_initial_setup: my_turn but mover_pubkey != my pubkey" [])
  else if ¬ myTurn ∧ fixed.theirRefereePubkey ≠ args.moverPubkey then
    .error (.strErr "referee_initial_setup: their_turn but mover_pubkey != their pubkey" [])
  else .ok ⟨fixed, args, curryRefereePuzzleHash E p.refereeCoinPuzzleHash args⟩

/-- The checks of the setup repeat what it has just done. -/
theorem refereeInitialSetup_eq_ok (g : GameStartInfo) (p : RefereeParties) :
    refereeInitialSetup E g p = .ok ⟨initialFixedContext g p, initialPuzzleArgs E g p,
      curryRefereePuzzleHash E p.refereeCoinPuzzleHash (initialPuzzleArgs E g p)⟩ := by
  rw [refereeInitialSetup]
  cases h : g.gameHandler.isMyTurn with
  | true => simp [initialPuzzleArgs, RefereePuzzleArgs.new, h]
  | false => simp [initialPuzzleArgs, RefereePuzzleArgs.new, h]

def MyTurnReferee.new (g : GameStartInfo) (p : RefereeParties) (stateNumber : ℕ) :
    Except Error (MyTurnReferee × Hash) := do
  let setup ← refereeInitialSetup E g p
  .ok ({
    fixed := setup.fixed
    finished := false
    enableCheating := none
    state := .initial g.initialState setup.refPuzzleArgs g.gameHandler
    stateNumber }, setup.puzzleHash)

def TheirTurnReferee.new (g : GameStartInfo) (p : RefereeParties) (stateNumber : ℕ) :
    Except Error (TheirTurnReferee × Hash) := do
  let setup ← refereeInitialSetup E g p
  .ok ({
    fixed := setup.fixed
    finished := false
    messageHandler := none
    state := {
      gameHandler := some g.gameHandler
      slashValidationProgram := g.initialValidationProgram
      slashState := g.initialState
      theirTurnValidationProgram := g.initialValidationProgram
      currentState := g.initialState
      createThisCoin := setup.refPuzzleArgs
      spendThisCoin := setup.refPuzzleArgs
      moveSpend := none }
    stateNumber }, setup.puzzleHash)

def Referee.new (g : GameStartInfo) (p : RefereeParties) (stateNumber : ℕ) :
    Except Error (Referee × Hash) :=
  if g.gameHandler.isMyTurn then do
    let (r, ph) ← MyTurnReferee.new E g p stateNumber
    .ok (.myTurn r, ph)
  else do
    let (r, ph) ← TheirTurnReferee.new E g p stateNumber
    .ok (.theirTurn r, ph)

end Setup

namespace MyTurnReferee

variable (E : Env) (r : MyTurnReferee)

def argsForThisCoin : RefereePuzzleArgs := r.state.argsForThisCoin
def spendThisCoin : RefereePuzzleArgs := r.state.spendThisCoin

def setCheating (makeMove : Bytes) (moverShare : ℕ) : MyTurnReferee :=
  { r with enableCheating := some (makeMove, moverShare) }

def runValidatorForMyMoveRaw (refereeArgs : RefereePuzzleArgs) (state evidence : Clvm) :
    Except Error (Option Clvm) :=
  runInternalStateUpdate E refereeArgs.validationProgram refereeArgs.swap state evidence

def runValidatorForMyMove (refereeArgs : RefereePuzzleArgs) (state evidence : Clvm) :
    Except Error Clvm :=
  match runValidatorForMyMoveRaw E refereeArgs state evidence with
  | .error e => if r.enableCheating.isSome then .ok state else .error e
  | .ok none =>
    if r.enableCheating.isSome then .ok state
    else .error (.strErr "pre-send validation rejected our move" [.nat refereeArgs.nonce,
      .nat refereeArgs.gameMove.basic.moveMade.length, .nat refereeArgs.gameMove.basic.moverShare,
      state])
  | .ok (some newState) => .ok newState

/-- What the handler, or the cheat in its place, makes of the local move. -/
def handlerResult (gameHandler : GameHandler) (readableMove : Clvm) (newEntropy : Hash) :
    Except Error MyTurnResult :=
  let args := r.spendThisCoin
  match r.enableCheating with
  | some (fakeMove, cheatShare) =>
    let hash := shatree E.sha256 args.validationProgram.program
    .ok {
      name := [0x63, 0x68, 0x65, 0x61, 0x74]
      moveBytes := fakeMove
      moverShare := cheatShare
      maxMoveSize := args.gameMove.basic.maxMoveSize
      outgoingMoveStateUpdateProgram := args.validationProgram
      outgoingMoveStateUpdateProgramHash := hash
      incomingMoveStateUpdateProgram := args.validationProgram
      incomingMoveStateUpdateProgramHash := hash
      waitingHandler := some gameHandler
      messageParser := none }
  | none =>
    gameHandler.callMyTurnHandler E {
      readableNewMove := readableMove
      amount := r.fixed.amount
      lastMoverShare := args.gameMove.basic.moverShare
      entropy := newEntropy
      state := r.state.stateToUpdate }

def acceptThisMove (gameHandler : Option GameHandler) (newState currentState : Clvm)
    (currentPuzzleArgs newPuzzleArgs : RefereePuzzleArgs) (myTurnResult : MyTurnResult)
    (messageHandler : Option Clvm) (stateNumber : ℕ) : TheirTurnReferee where
  fixed := r.fixed
  finished := r.finished
  messageHandler := messageHandler
  state := {
    gameHandler
    theirTurnValidationProgram := myTurnResult.incomingMoveStateUpdateProgram
    slashValidationProgram := myTurnResult.outgoingMoveStateUpdateProgram
    currentState := newState
    slashState := currentState
    createThisCoin := currentPuzzleArgs
    spendThisCoin := newPuzzleArgs
    moveSpend := some {
      validationProgram := myTurnResult.outgoingMoveStateUpdateProgram
      state := currentState
      newMove := newPuzzleArgs.gameMove
      beforeArgs := currentPuzzleArgs
      afterArgs := newPuzzleArgs } }
  stateNumber := stateNumber

/-- The details of the move that the handler's result describes. -/
def moveDetails (result : MyTurnResult) : GameMoveDetails where
  basic := {
    moveMade := result.moveBytes
    moverShare := result.moverShare
    maxMoveSizeRaw := canonicalAtomFromUsize result.maxMoveSize
    maxMoveSize := result.maxMoveSize }
  validationInfoHash :=
    if result.waitingHandler.isSome then
      .hash (validationInfoHash E result.outgoingMoveStateUpdateProgram r.state.stateToUpdate)
    else .none
  validationProgramHash :=
    if result.waitingHandler.isSome then
      some (shatree E.sha256 result.outgoingMoveStateUpdateProgram.program)
    else none

/-- The arguments of the coin that the move creates. -/
def moveArgs (result : MyTurnResult) : RefereePuzzleArgs :=
  { r.spendThisCoin with
    moverPubkey := r.fixed.theirRefereePubkey
    waiterPubkey := r.fixed.myIdentity.publicKey
    gameMove := r.moveDetails E result
    validationProgram := result.outgoingMoveStateUpdateProgram
    previousValidationInfoHash := r.spendThisCoin.gameMove.validationInfoHash }

/-- The state after our own move.  A terminal move is only stopped by a nil verdict. -/
def stateAfterMove (result : MyTurnResult) : Except Error Clvm :=
  let state := r.state.stateToUpdate
  if result.waitingHandler.isSome then
    r.runValidatorForMyMove E (r.moveArgs E result) state .nil
  else
    match runValidatorForMyMoveRaw E (r.moveArgs E result) state .nil with
    | .ok none =>
      if r.enableCheating.isNone then
        .error (.strErr "pre-send terminal validation rejected our move"
          [.nat r.spendThisCoin.nonce, .nat result.moveBytes.length, .nat result.moverShare, state])
      else .ok state
    | _ => .ok state

def myTurnMakeMove (readableMove : Clvm) (newEntropy : Hash) (stateNumber : ℕ) :
    Except Error (Referee × GameMoveWireData) :=
  match r.state.gameHandler with
  | none =>
    .error (.strErr ("my_turn_make_move: move attempted after a terminal move " ++
      "(nil validation program); the game is already over") [])
  | some gameHandler => do
    let args := r.spendThisCoin
    let result ← r.handlerResult E gameHandler readableMove newEntropy
    if r.enableCheating.isNone ∧ args.gameMove.basic.maxMoveSize < result.moveBytes.length then
      .error (.strErr "local move exceeds max_move_size" [.nat args.nonce,
        .nat result.moveBytes.length, .nat args.gameMove.basic.maxMoveSize])
    else
      let newState ← r.stateAfterMove E result
      let newSelf := r.acceptThisMove result.waitingHandler newState r.state.stateToUpdate args
        (r.moveArgs E result) result result.messageParser stateNumber
      .ok (.theirTurn newSelf, {
        puzzleHashForUnroll := curryRefereePuzzleHash E r.fixed.refereeCoinPuzzleHash args
        details := r.moveDetails E result })

end MyTurnReferee

namespace TheirTurnReferee

variable (E : Env) (r : TheirTurnReferee)

def argsForThisCoin : RefereePuzzleArgs := r.state.createThisCoin
def spendThisCoin : RefereePuzzleArgs := r.state.spendThisCoin

def runStateUpdate (puzzleArgs : RefereePuzzleArgs) (state evidence : Clvm) :
    Except Error (Option Clvm) :=
  runInternalStateUpdate E puzzleArgs.validationProgram puzzleArgs.swap state evidence

def acceptTheirMove (gameHandler : Option GameHandler) (newState : Clvm)
    (oldArgs refereeArgs : RefereePuzzleArgs) (stateNumber : ℕ) : MyTurnReferee where
  fixed := r.fixed
  finished := r.finished
  enableCheating := none
  state := .afterTheirTurn gameHandler newState oldArgs refereeArgs r.state.moveSpend
  stateNumber := stateNumber

/-- The arguments of the coin that their move creates. -/
def theirArgs (details : GameMoveDetails) : RefereePuzzleArgs :=
  { r.spendThisCoin with
    moverPubkey := r.fixed.myIdentity.publicKey
    waiterPubkey := r.fixed.theirRefereePubkey
    gameMove := details
    validationProgram := r.state.theirTurnValidationProgram
    previousValidationInfoHash := r.spendThisCoin.gameMove.validationInfoHash }

/-- The verdict on a received move for one piece of evidence. -/
def judge (details : GameMoveDetails) (evidence : Clvm) : Except Error (Option Clvm) :=
  runStateUpdate E (r.theirArgs details) r.state.currentState evidence

/-- The state after their move, or `none` for a slash without evidence.  A terminal move is only
stopped by a nil verdict; its state is nil. -/
def stateAfterTheirMove (details : GameMoveDetails) : Except Error (Option Clvm) :=
  if details.validationInfoHash = .none then
    match r.judge E details .nil with
    | .ok none => .ok none
    | _ => .ok (some .nil)
  else r.judge E details .nil

/-- The call of our handler on a received move. -/
def callHandler (handler : GameHandler) (details : GameMoveDetails) (newState : Clvm) :
    Except Error TheirTurnResult :=
  handler.callTheirTurnHandler E {
    amount := r.fixed.amount
    preState := r.state.currentState
    state := newState
    newMove := { details with
      validationProgramHash :=
        some (shatree E.sha256 r.state.theirTurnValidationProgram.program) } }

/-- The first piece of evidence with a nil verdict. -/
def findSlash (details : GameMoveDetails) (evidence : List Clvm) : Option Clvm :=
  evidence.find? fun e => r.judge E details e = .ok none

def finishTheirTurn (puzzleArgs : RefereePuzzleArgs) (result : TheirTurnResult) :
    TheirTurnMoveResult where
  puzzleHashForUnroll := some (curryRefereePuzzleHash E r.fixed.refereeCoinPuzzleHash puzzleArgs)
  readableMove := result.readableMove
  moverShare := result.moverShare
  message := result.message
  slash := none

def theirTurnMoveOffChain (details : GameMoveDetails) (stateNumber : ℕ) :
    Except Error (Option MyTurnReferee × TheirTurnMoveResult) :=
  match r.state.gameHandler with
  | none => .error (.strErr "received their move after our final move" [])
  | some handler => do
    match ← r.stateAfterTheirMove E details with
    | none =>
      .ok (none, {
        puzzleHashForUnroll := none
        readableMove := .nil
        moverShare := details.basic.moverShare
        message := []
        slash := some .nil })
    | some newState =>
      let result ← r.callHandler E handler details newState
      match r.findSlash E details result.slashEvidence with
      | some evidence =>
        .ok (none, {
          puzzleHashForUnroll := none
          readableMove := result.readableMove
          moverShare := result.moverShare
          message := result.message
          slash := some evidence })
      | none =>
        .ok (some (r.acceptTheirMove result.nextHandler newState r.spendThisCoin
          (r.theirArgs details) stateNumber), r.finishTheirTurn E r.spendThisCoin result)

/-- A Move solution seen on chain, as move details. -/
def detailsOfSolution (m : MoveSolution) : Except Error GameMoveDetails := do
  let validationInfoHash ← ValidationInfoHash.ofRaw m.infohashC
  let share ← orError (u64FromAtom m.newMoverShare)
    (.strErr "mover share wasn't a properly sized atom" [])
  if r.fixed.amount < share then
    .error (.strErr "on-chain mover_share exceeds game amount" [.nat share, .nat r.fixed.amount])
  else
    let maxMoveSize ← orError (u64FromAtom m.newMaxMoveSize)
      (.strErr "max move size wasn't a properly sized atom" [])
    .ok {
      basic := {
        moveMade := m.newMove
        moverShare := share
        maxMoveSizeRaw := m.newMaxMoveSize
        maxMoveSize }
      validationInfoHash
      validationProgramHash := none }

end TheirTurnReferee

inductive TheirTurnCoinSpentResult where
  | moved (newCoinString : CoinString) (stateNumber : ℕ) (readable : Clvm) (moverShare : ℕ)
  | slash (transaction : RefereeSpend) (myRewardCoinString : CoinString)
      (cheatingMoveMoverShare : ℕ)

namespace TheirTurnReferee

variable (E : Env) (r : TheirTurnReferee)

def makeSlashForTheirTurn (validationProgram : StateUpdateProgram) (state : Clvm)
    (coinString : CoinString) (puzzle : RefereePuzzleArgs) (evidence : Clvm)
    (cheatingMoveMoverShare : ℕ) : TheirTurnCoinSpentResult :=
  .slash {
      coin := coinString
      puzzle
      solution := slashSolution state validationProgram.program evidence r.fixed.rewardPuzzleHash
      signature := r.fixed.myRewardPayoutSignature }
    ⟨coinString.toCoinId E.sha256, r.fixed.rewardPuzzleHash, r.fixed.amount⟩
    cheatingMoveMoverShare

/-- The puzzle hash of the first coin that the conditions create. -/
def createdPuzzleHash : List CoinCondition → Option Hash
  | [] => none
  | .createCoin ph _ :: _ => some ph
  | .other :: conditions => createdPuzzleHash conditions

/-- The puzzle of the coin to slash, rebuilt from the details. -/
def slashArgs (details : GameMoveDetails) : RefereePuzzleArgs where
  moverPubkey := r.fixed.myIdentity.publicKey
  waiterPubkey := r.fixed.theirRefereePubkey
  gameMove := details
  timeout := r.fixed.timeout
  amount := r.fixed.amount
  nonce := r.fixed.nonce
  refereeCoinPuzzleHash := r.fixed.refereeCoinPuzzleHash
  validationProgram := r.state.slashValidationProgram
  previousValidationInfoHash := r.spendThisCoin.gameMove.validationInfoHash

/-- A referee after a move seen on chain: the coin the move created is the one on chain. -/
def adjust (r : MyTurnReferee) : MyTurnReferee :=
  match r.state with
  | .initial _ _ _ => r
  | .afterTheirTurn handler state _ spend moveSpend =>
    { r with state := .afterTheirTurn handler state spend spend moveSpend }

def theirTurnCoinSpent (refereeCoinString : CoinString) (conditions : List CoinCondition)
    (stateNumber : ℕ) (parsedSolution : ParsedRefereeSolution) :
    Except Error (Option Referee × TheirTurnCoinSpentResult) :=
  match parsedSolution with
  | .move m => do
    let details ← r.detailsOfSolution m
    let (newSelf, result) ← r.theirTurnMoveOffChain E details stateNumber
    match result.slash, newSelf with
    | some evidence, _ =>
      match createdPuzzleHash conditions with
      | none => .error (.strErr "slash: no CREATE_COIN condition found in referee spend" [])
      | some toSpendPh =>
        let coinStringToSpend : CoinString :=
          ⟨refereeCoinString.toCoinId E.sha256, toSpendPh, r.fixed.amount⟩
        let args := r.slashArgs details
        if curryRefereePuzzleHash E r.fixed.refereeCoinPuzzleHash args ≠ toSpendPh then
          .error (.strErr "their_turn_coin_spent: curried puzzle hash mismatch" [])
        else
          .ok (none, r.makeSlashForTheirTurn E r.state.slashValidationProgram r.state.slashState
            coinStringToSpend args evidence details.basic.moverShare)
    | none, none =>
      .error (.strErr "we didn't slash but also didn't return a new state" [])
    | none, some newSelf =>
      let args := newSelf.spendThisCoin
      .ok (some (.myTurn (adjust newSelf)), .moved
        ⟨refereeCoinString.toCoinId E.sha256,
          curryRefereePuzzleHash E r.fixed.refereeCoinPuzzleHash args, r.fixed.amount⟩
        stateNumber result.readableMove args.gameMove.basic.moverShare)
  | _ => .error (.strErr "their_turn_coin_spent called with non-Move solution" [])

end TheirTurnReferee

namespace Referee

variable (E : Env)

def spendThisCoin : Referee → RefereePuzzleArgs
  | myTurn r => r.spendThisCoin
  | theirTurn r => r.spendThisCoin

def argsForThisCoin : Referee → RefereePuzzleArgs
  | myTurn r => r.argsForThisCoin
  | theirTurn r => r.argsForThisCoin

def fixed : Referee → RefereeFixedContext
  | myTurn r => r.fixed
  | theirTurn r => r.fixed

def getMaxMoveSize (r : Referee) : ℕ := r.spendThisCoin.gameMove.basic.maxMoveSize

def isMyTurn : Referee → Bool
  | myTurn _ => true
  | theirTurn _ => false

def isGameOver : Referee → Bool
  | myTurn r => r.state.gameHandler.isNone
  | theirTurn r => r.state.gameHandler.isNone

def getOurCurrentShare (r : Referee) : Except Error ℕ :=
  if r.isMyTurn then .ok r.spendThisCoin.gameMove.basic.moverShare
  else amountCheckedSub r.fixed.amount r.spendThisCoin.gameMove.basic.moverShare

def setCheating (makeMove : Bytes) (moverShare : ℕ) : Referee → Option Referee
  | myTurn r => some (.myTurn (r.setCheating makeMove moverShare))
  | theirTurn _ => none

def myTurnMakeMove (readableMove : Clvm) (newEntropy : Hash) (stateNumber : ℕ) :
    Referee → Except Error (Referee × GameMoveWireData)
  | myTurn r => r.myTurnMakeMove E readableMove newEntropy stateNumber
  | theirTurn _ => .error (.channel "my_turn_make_move called on TheirTurn referee")

def theirTurnMoveOffChain (details : GameMoveDetails) (stateNumber : ℕ) :
    Referee → Except Error (Option Referee × TheirTurnMoveResult)
  | myTurn _ => .error (.channel "their_turn_move_off_chain called on MyTurn referee")
  | theirTurn r => do
    let (newSelf, result) ← r.theirTurnMoveOffChain E details stateNumber
    .ok (newSelf.map .myTurn, result)

def onChainRefereePuzzleHash (r : Referee) : Hash :=
  curryRefereePuzzleHash E r.fixed.refereeCoinPuzzleHash r.argsForThisCoin

def outcomeRefereePuzzleHash (r : Referee) : Hash :=
  curryRefereePuzzleHash E r.fixed.refereeCoinPuzzleHash r.spendThisCoin

end Referee

end ChiaGaming
