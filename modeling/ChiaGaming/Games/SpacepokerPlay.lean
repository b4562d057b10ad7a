import ChiaGaming.Games.Play
import ChiaGaming.Games.SpacepokerOpening
import ChiaGaming.Games.SpacepokerShowdown

namespace ChiaGaming.Spacepoker.Betting

/-! The betting: both players have the same handlers, but for the first street and the order in which
they name the players. -/

inductive Player where
  | alice
  | bob
  deriving DecidableEq

def Player.other : Player → Player
  | alice => bob
  | bob => alice

def Player.name : Player → String
  | alice => "alice"
  | bob => "bob"

inductive Validator where
  | commitA
  | commitB
  | beginRound
  | midRound
  | reveal
  deriving DecidableEq

/-- A curried handler is a constructor with its curried arguments. -/
inductive Handler where
  | aliceCommitA
  | aliceCommitB (chain : List Bytes)
  | bobCommitA
  | bobCommitB
  | beginRound (p : Player) (chain : List Bytes) (betUnit : Bytes)
  | beginRoundTheir (p : Player) (chain : List Bytes) (betUnit : Bytes)
  | midRound (p : Player) (chain : List Bytes) (betUnit : Bytes)
  | midRoundTheir (p : Player) (chain : List Bytes) (betUnit : Bytes)
  | reveal (p : Player) (chain : List Bytes)
  | revealTheir (p : Player) (chain : List Bytes)
  | parseDealMessage (chain : List Bytes)
  | parseOpenMessage (p : Player) (chain : List Bytes)
  deriving DecidableEq

abbrev Move := Play.Move Validator Handler
abbrev Reply := Play.Reply Handler
abbrev Table := Play.Table Validator Handler

/-- The coin toss: the comparison of the images flips when they trade places, their last bits do not. -/
def moverOpens (moverImage waiterImage : Bytes) : Bool :=
  decide (intOfBytes moverImage > intOfBytes waiterImage) ==
    decide (intOfBytes (logxor moverImage waiterImage) % 2 = 1)

section Validators

variable (sha256 : Bytes → Bytes) (hash : Validator → Bytes)

/-- `commitB.clsp`; the state is `(bet_unit alice_image_5)`. -/
def commitBValidator (a : RefereeArgs) (state _evidence : Clvm) : Option Clvm := do
  let betUnit ← (← state.nth 0).bytes
  let aliceImage5 ← state.nth 1
  if a.move.length = 32 ∧ a.moverShare = bytesOfInt (intOfBytes a.amount / 2 - intOfBytes betUnit) then
    some (.list [.atom (hash .beginRound), .list [.atom betUnit, .atom betUnit, aliceImage5, .atom a.move,
      .nat 4, .atom (hash .midRound)], .nat 42])
  else some .nil

/-- `begin_round.clsp`; the state is
`(bet_unit half_pot mover_image_Nplus1 waiter_image_N N mid_hash)`. -/
def beginRoundValidator (a : RefereeArgs) (state _evidence : Clvm) : Option Clvm := do
  let betUnit ← state.nth 0
  let halfPot ← (← state.nth 1).bytes
  let moverImageNplus1 ← (← state.nth 2).bytes
  let waiterImageN ← (← state.nth 3).bytes
  let n ← (← state.nth 4).bytes
  let midHash ← state.nth 5
  if ¬ a.move.length ≥ 32 then some .nil
  else
    let moverImageN ← substr a.move 0 32
    let raiseAmount ← substr a.move 32 a.move.length
    -- the toss is read before the shape of the move
    let opens := if n = bytesOfNat 4 then moverOpens moverImageN waiterImageN else true
    if a.moverShare = bytesOfInt (intOfBytes a.amount / 2 - intOfBytes halfPot) ∧
        moverImageNplus1 = sha256 moverImageN then
      if opens then
        if intOfBytes raiseAmount ≥ 0 ∧
            intOfBytes halfPot + intOfBytes raiseAmount ≤ intOfBytes a.amount / 2 then
          some (.list [midHash, .list [betUnit, .atom halfPot, .atom raiseAmount, .atom waiterImageN,
            .atom moverImageN, .atom n], .nat 42])
        else some .nil
      else if a.move.length = 32 then
        some (.list [.atom (hash .beginRound), .list [betUnit, .atom halfPot, .atom (sha256 waiterImageN),
          .atom moverImageN, .atom n, midHash], .nat 42])
      else some .nil
    else some .nil

/-- `mid_round.clsp`; the state is
`(bet_unit half_pot last_raise_amount mover_image_N waiter_image_N N)`. -/
def midRoundValidator (a : RefereeArgs) (state _evidence : Clvm) : Option Clvm := do
  let betUnit ← state.nth 0
  let halfPot ← (← state.nth 1).bytes
  let lastRaise ← (← state.nth 2).bytes
  let moverImageN ← (← state.nth 3).bytes
  let waiterImageN ← state.nth 4
  let n ← (← state.nth 5).bytes
  let pot := intOfBytes halfPot + intOfBytes lastRaise
  if a.move.length > 32 then
    let newRaise ← substr a.move 32 a.move.length
    if a.moverShare = bytesOfInt (intOfBytes a.amount / 2 - pot) ∧ intOfBytes newRaise ≥ 0 ∧
        pot + intOfBytes newRaise ≤ intOfBytes a.amount / 2 then
      some (.list [.atom (hash .midRound), .list [betUnit, .int pot, .atom newRaise, waiterImageN,
        .atom moverImageN, .atom n], .nat 42])
    else some .nil
  else if a.move.length = (if n = bytesOfNat 1 then 16 else 32) ∧ sha256 a.move = moverImageN ∧
      a.moverShare = bytesOfInt (intOfBytes a.amount / 2 - pot) then
    if n = bytesOfNat 1 then
      some (.list [.atom (hash .reveal), .list [.int pot, waiterImageN, .atom a.move], .nat 17])
    else
      some (.list [.atom (hash .beginRound), .list [betUnit, .int pot, waiterImageN, .atom a.move,
        .int (intOfBytes n - 1), .atom (hash .midRound)], .nat 42])
  else some .nil

def Validator.run : Validator → RefereeArgs → Clvm → Clvm → Option Clvm
  | .commitA => commitAValidator (hash .commitB)
  | .commitB => commitBValidator hash
  | .beginRound => beginRoundValidator sha256 hash
  | .midRound => midRoundValidator sha256 hash
  | .reveal => endValidator sha256

end Validators

section Handlers

variable (sha256 : Bytes → Bytes) (hash : Validator → Bytes) (amount : ℕ)

/-- The flop are three cards, turn and river one. -/
def communityCardsForPos (ownImage oppImage : Bytes) (pos : ℕ) : List ℕ :=
  if pos = 3 then makeCardsPair sha256 ownImage oppImage 3
  else (makeCardsPair sha256 ownImage oppImage 1).take 1

def text (s : String) : Clvm := .atom s.toUTF8.toList

/-! The opening. -/

def spacepokerAliceCommitA (entropy : Bytes) : Option Move := do
  let chain := buildImageChain sha256 (← substr entropy 0 16)
  some {
    label := "spacepoker_alice_commitA"
    move := ← chain[5]?
    outgoingValidator := .commitA
    outgoingValidatorHash := hash .commitA
    incomingValidator := some .commitB
    incomingValidatorHash := hash .commitB
    maxMoveSize := 32
    moverShare := bytesOfInt (amount / 2)
    theirTurnHandler := some (.aliceCommitB chain)
    messageParser := none }

/-- The readable shows Alice's hole cards and whether she opens; the message shows Bob his. -/
def spacepokerAliceHandlerCommitB (chain : List Bytes) (state : Clvm) : Option Reply := do
  let betUnit ← (← state.nth 0).bytes
  let bobI4 ← (← state.nth 3).bytes
  let alicePre ← chain[0]?
  let aliceI4 ← chain[4]?
  let hole := makeCardsPair sha256 alicePre bobI4 2
  let aliceOpens := moverOpens aliceI4 bobI4
  some {
    readable := .list [text "deal", .nat (← hole[0]?), .nat (← hole[1]?), .nat (boost sha256 alicePre bobI4),
      .nat aliceOpens.toNat]
    evidence := .nil
    myTurnHandler := some (.beginRound .alice chain betUnit)
    message := some aliceI4 }

def spacepokerBobHandlerCommitA : Reply := ⟨.nil, .nil, some .bobCommitB, none⟩

def spacepokerBobCommitB (state : Clvm) (entropy : Bytes) : Option Move := do
  let chain := buildImageChain sha256 (← substr entropy 0 16)
  let betUnit ← (← state.nth 0).bytes
  some {
    label := "spacepoker_bob_commitB"
    move := ← chain[4]?
    outgoingValidator := .commitB
    outgoingValidatorHash := hash .commitB
    incomingValidator := some .beginRound
    incomingValidatorHash := hash .beginRound
    maxMoveSize := 42
    moverShare := bytesOfInt (amount / 2 - intOfBytes betUnit)
    theirTurnHandler := some (.beginRoundTheir .bob chain betUnit)
    messageParser := some (.parseDealMessage chain) }

def spacepokerBobParseDealMessage (chain : List Bytes) (message : Bytes) (state : Clvm) : Option Clvm := do
  let aliceI5 ← (← state.nth 2).bytes
  if sha256 message = aliceI5 then
    let bobPre ← chain[0]?
    let bobI4 ← chain[4]?
    let hole := makeCardsPair sha256 bobPre message 2
    let bobOpens := !moverOpens message bobI4
    some (.list [text "deal", .nat (← hole[0]?), .nat (← hole[1]?), .nat (boost sha256 bobPre message),
      .nat bobOpens.toNat])
  else none

/-- `spacepoker_alice_parse_open_message` and `spacepoker_bob_parse_open_message`. -/
def parseOpenMessage (chain : List Bytes) (message : Bytes) (state : Clvm) : Option Clvm := do
  let moverImageNplus1 ← (← state.nth 2).bytes
  let n := natOfBytes (← (← state.nth 4).bytes)
  if message.length = 32 ∧ sha256 message = moverImageNplus1 then
    some (.pair (text "cards") (handToClvm (communityCardsForPos sha256 (← chain[n]?) message n)))
  else none

/-! A player's own turn. -/

def beginRoundMove (p : Player) (chain : List Bytes) (betUnit localMove : Bytes) (state : Clvm) :
    Option Move := do
  let halfPot ← (← state.nth 1).bytes
  let waiterImageN ← (← state.nth 3).bytes
  let n ← (← state.nth 4).bytes
  let imageN ← chain[natOfBytes n]?
  let moverShare := bytesOfInt (amount / 2 - intOfBytes halfPot)
  if (if n = bytesOfNat 4 then moverOpens imageN waiterImageN else true) then
    -- without a raise the local move is nil and adds nothing
    some {
      label := "spacepoker_" ++ p.name ++ "_begin_round"
      move := imageN ++ localMove
      outgoingValidator := .beginRound
      outgoingValidatorHash := hash .beginRound
      incomingValidator := some .midRound
      incomingValidatorHash := hash .midRound
      maxMoveSize := 42
      moverShare := moverShare
      theirTurnHandler := some (.midRoundTheir p chain betUnit)
      messageParser := none }
  else
    some {
      label := "spacepoker_" ++ p.name ++ "_begin_round pong"
      move := imageN
      outgoingValidator := .beginRound
      outgoingValidatorHash := hash .beginRound
      incomingValidator := some .beginRound
      incomingValidatorHash := hash .beginRound
      maxMoveSize := 42
      moverShare := moverShare
      theirTurnHandler := some (.beginRoundTheir p chain betUnit)
      messageParser := none }

/-- Alice's and Bob's handlers of a name. -/
def spacepokerAliceBeginRound := beginRoundMove hash amount .alice
def spacepokerBobBeginRound := beginRoundMove hash amount .bob

/-- Raise, or call with the next image of the chain. -/
def midRoundMove (p : Player) (chain : List Bytes) (betUnit localMove : Bytes) (state : Clvm)
    (entropy : Bytes) : Option Move := do
  let halfPot ← (← state.nth 1).bytes
  let lastRaise ← (← state.nth 2).bytes
  let n ← (← state.nth 5).bytes
  let moverShare := bytesOfInt (amount / 2 - (intOfBytes halfPot + intOfBytes lastRaise))
  if localMove ≠ [] then
    some {
      label := "spacepoker_" ++ p.name ++ "_mid_round raise"
      move := (← substr entropy 0 32) ++ localMove
      outgoingValidator := .midRound
      outgoingValidatorHash := hash .midRound
      incomingValidator := some .midRound
      incomingValidatorHash := hash .midRound
      maxMoveSize := 42
      moverShare := moverShare
      theirTurnHandler := some (.midRoundTheir p chain betUnit)
      messageParser := none }
  else if n = bytesOfNat 1 then
    some {
      label := "spacepoker_" ++ p.name ++ "_mid_round call"
      move := ← chain[natOfBytes n - 1]?
      outgoingValidator := .midRound
      outgoingValidatorHash := hash .midRound
      incomingValidator := some .reveal
      incomingValidatorHash := hash .reveal
      maxMoveSize := 17
      moverShare := moverShare
      theirTurnHandler := some (.revealTheir p chain)
      messageParser := none }
  else
    some {
      label := "spacepoker_" ++ p.name ++ "_mid_round call"
      move := ← chain[natOfBytes n - 1]?
      outgoingValidator := .midRound
      outgoingValidatorHash := hash .midRound
      incomingValidator := some .beginRound
      incomingValidatorHash := hash .beginRound
      maxMoveSize := 42
      moverShare := moverShare
      theirTurnHandler := some (.beginRoundTheir p chain betUnit)
      messageParser := some (.parseOpenMessage p chain) }

def spacepokerAliceMidRound := midRoundMove hash amount .alice
def spacepokerBobMidRound := midRoundMove hash amount .bob

/-! The other player's move. -/

/-- Alice puts her own image and preimage first when she is called, and so does Bob hers. -/
def communityCards (p : Player) (own opp : Bytes) (pos : ℕ) : List ℕ :=
  match p with
  | .alice => communityCardsForPos sha256 own opp pos
  | .bob => communityCardsForPos sha256 opp own pos

def swap (d : Deal) : Deal := ⟨d.waiterCards, d.moverCards, d.waiterBoost, d.moverBoost⟩

/-- The cards of both players, one's own first. -/
def ownDeal (p : Player) (ownPre oppPre : Bytes) : Deal :=
  match p with
  | .alice => deriveAllCards sha256 ownPre oppPre
  | .bob => swap (deriveAllCards sha256 oppPre ownPre)

/-- The readable of the last call. -/
def showdown (d : Deal) (newHalfPot n : Clvm) : Option Clvm := do
  let (hand, bits) ← spaceHandCalc d.moverCards d.moverBoost
  let (oppHand, oppBits) ← spaceHandCalc d.waiterCards d.waiterBoost
  some (.list [text "call", newHalfPot, n, handToClvm d.moverCards, .nat d.moverBoost,
    handToClvm d.waiterCards, .nat d.waiterBoost, handToClvm (pullFromBitfield d.moverCards bits),
    handToClvm hand, handToClvm (pullFromBitfield d.waiterCards oppBits), handToClvm oppHand,
    .int (deepCompare (handToClvm hand) (handToClvm oppHand))])

/-- A move of at most 32 bytes is a call, a longer one a raise. -/
def midRoundReply (p : Player) (chain : List Bytes) (betUnit : Bytes) (preState : Clvm) (move : Bytes) :
    Option Reply := do
  let halfPot ← (← preState.nth 1).bytes
  let lastRaise ← (← preState.nth 2).bytes
  let newHalfPot := Clvm.int (intOfBytes halfPot + intOfBytes lastRaise)
  if move.length ≤ 32 then
    let n ← (← preState.nth 5).bytes
    if n = bytesOfNat 1 then
      let readable ← showdown (ownDeal sha256 p (← chain[0]?) move) newHalfPot (.atom n)
      some ⟨readable, .nil, some (.reveal p chain), none⟩
    else
      let own ← chain[natOfBytes n - 1]?
      some {
        readable := .pair (text "call") (.pair newHalfPot (.pair (.atom n)
          (handToClvm (communityCards sha256 p own move (natOfBytes n - 1)))))
        evidence := .nil
        myTurnHandler := some (.beginRound p chain betUnit)
        message := some own }
  else
    let newRaise ← substr move 32 move.length
    some ⟨.list [text "raise", .atom newRaise, newHalfPot], .nil, some (.midRound p chain betUnit), none⟩

def spacepokerAliceHandlerMidRoundTheir := midRoundReply sha256 .alice
def spacepokerBobHandlerMidRoundTheir := midRoundReply sha256 .bob

/-- The readable of an open on a later street. -/
def opened (chain : List Bytes) (n : ℕ) (moverImageN raiseAmount : Bytes) (halfPot : Clvm) : Option Clvm := do
  some (.pair (text "open") (.pair (.atom raiseAmount) (.pair halfPot
    (handToClvm (communityCardsForPos sha256 (← chain[n]?) moverImageN n)))))

/-- Bob opens the first street after a pong only, so that there is no toss to look at. -/
def spacepokerAliceHandlerBeginRoundTheir (chain : List Bytes) (betUnit : Bytes) (preState : Clvm)
    (move : Bytes) : Option Reply := do
  let halfPot ← preState.nth 1
  let n ← (← preState.nth 4).bytes
  let moverImageN ← substr move 0 32
  let raiseAmount ← substr move 32 move.length
  let readable ←
    if n = bytesOfNat 4 then some (Clvm.list [text "open", .atom raiseAmount, halfPot])
    else opened sha256 chain (natOfBytes n) moverImageN raiseAmount halfPot
  some ⟨readable, .nil, some (.midRound .alice chain betUnit), none⟩

def spacepokerBobHandlerBeginRoundTheir (chain : List Bytes) (betUnit : Bytes) (preState : Clvm)
    (move : Bytes) : Option Reply := do
  let halfPot ← preState.nth 1
  let waiterImageN ← (← preState.nth 3).bytes
  let n ← (← preState.nth 4).bytes
  let moverImageN ← substr move 0 32
  let raiseAmount ← substr move 32 move.length
  let bobPre ← chain[0]?
  let hole := makeCardsPair sha256 bobPre moverImageN 2
  let bobBoost := boost sha256 bobPre moverImageN
  if (if n = bytesOfNat 4 then moverOpens moverImageN waiterImageN else true) then
    let readable ←
      if n = bytesOfNat 4 then do
        some (Clvm.list [text "open", .atom raiseAmount, halfPot, .nat (← hole[0]?), .nat (← hole[1]?),
          .nat bobBoost])
      else opened sha256 chain (natOfBytes n) moverImageN raiseAmount halfPot
    some ⟨readable, .nil, some (.midRound .bob chain betUnit), none⟩
  else
    some ⟨.list [text "pong", .nat (← hole[0]?), .nat (← hole[1]?), .nat bobBoost], .nil,
      some (.beginRound .bob chain betUnit), none⟩

/-- The last move, as the handlers for it answer. -/
def endMove (p : Player) (answer : Clvm) : Option Move := do
  let m ← moveOfHandler answer
  some {
    label := "spacepoker_" ++ p.name ++ "_end"
    move := m.newMove
    outgoingValidator := .reveal
    outgoingValidatorHash := hash .reveal
    incomingValidator := none
    incomingValidatorHash := []
    maxMoveSize := 0
    moverShare := m.newMoverShare
    theirTurnHandler := none
    messageParser := none }

def Handler.myTurn (localMove : Bytes) (state : Clvm) (entropy : Bytes) : Handler → Option Move
  | .aliceCommitA => spacepokerAliceCommitA sha256 hash amount entropy
  | .bobCommitB => spacepokerBobCommitB sha256 hash amount state entropy
  | .beginRound .alice chain betUnit => spacepokerAliceBeginRound hash amount chain betUnit localMove state
  | .beginRound .bob chain betUnit => spacepokerBobBeginRound hash amount chain betUnit localMove state
  | .midRound .alice chain betUnit =>
    spacepokerAliceMidRound hash amount chain betUnit localMove state entropy
  | .midRound .bob chain betUnit => spacepokerBobMidRound hash amount chain betUnit localMove state entropy
  | .reveal .alice chain => do
    endMove hash .alice (← spacepokerAliceHandlerEnd sha256 .nil (hash .reveal) chain amount state)
  | .reveal .bob chain => do
    endMove hash .bob (← spacepokerBobHandlerEnd sha256 .nil (hash .reveal) chain amount state)
  | .aliceCommitB _ | .bobCommitA | .beginRoundTheir .. | .midRoundTheir .. | .revealTheir ..
  | .parseDealMessage _ | .parseOpenMessage .. => none

def Handler.theirTurn (preState state : Clvm) (move : Bytes) : Handler → Option Reply
  | .aliceCommitB chain => spacepokerAliceHandlerCommitB sha256 chain state
  | .bobCommitA => some spacepokerBobHandlerCommitA
  | .beginRoundTheir .alice chain betUnit =>
    spacepokerAliceHandlerBeginRoundTheir sha256 chain betUnit preState move
  | .beginRoundTheir .bob chain betUnit =>
    spacepokerBobHandlerBeginRoundTheir sha256 chain betUnit preState move
  | .midRoundTheir .alice chain betUnit =>
    spacepokerAliceHandlerMidRoundTheir sha256 chain betUnit preState move
  | .midRoundTheir .bob chain betUnit =>
    spacepokerBobHandlerMidRoundTheir sha256 chain betUnit preState move
  | .revealTheir _ chain => do
    let answer ← handlerEndTheir sha256 chain move
    some ⟨← answer.nth 0, ← answer.nth 1, none, none⟩
  | .aliceCommitA | .bobCommitB | .beginRound .. | .midRound .. | .reveal .. | .parseDealMessage _
  | .parseOpenMessage .. => none

/-- What a player reads in a message that comes with the answer to its move. -/
def Handler.parse (message : Bytes) (state : Clvm) : Handler → Option Clvm
  | .parseDealMessage chain => spacepokerBobParseDealMessage sha256 chain message state
  | .parseOpenMessage _ chain => Betting.parseOpenMessage sha256 chain message state
  | .aliceCommitA | .aliceCommitB _ | .bobCommitA | .bobCommitB | .beginRound .. | .beginRoundTheir ..
  | .midRound .. | .midRoundTheir .. | .reveal .. | .revealTheir .. => none

def rules : Play.Rules Validator Handler Bytes where
  amount := amount
  validate := Validator.run sha256 hash
  myTurn handler localMove state entropy := handler.myTurn sha256 hash amount localMove state entropy
  theirTurn handler preState state move _ := handler.theirTurn sha256 preState state move

end Handlers

def start (betUnit : ℕ) : Table := ⟨.nat betUnit, .commitA, 32, .aliceCommitA, .bobCommitA⟩

end ChiaGaming.Spacepoker.Betting
