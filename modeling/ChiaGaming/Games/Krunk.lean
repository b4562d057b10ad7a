import ChiaGaming.Puzzle.Referee

namespace ChiaGaming.Krunk

/-! The clue for a guess: a base three number, first letter most significant, two for a letter
in its place and one for a letter of the word elsewhere. -/

def expandWord (word : Bytes) : Option Bytes :=
  if 5 ≤ word.length then some (word.take 5) else none

/-- The letters of word and guess that are not in place, and the places that are. -/
def makeGreen : Bytes → Bytes → Option (Bytes × Bytes × List Bool)
  | [], _ => some ([], [], [])
  | _ :: _, [] => none
  | w :: word, g :: guess => do
    let (innerWord, innerGuess, innerGreen) ← makeGreen word guess
    if w = g then some (innerWord, innerGuess, true :: innerGreen)
    else some (w :: innerWord, g :: innerGuess, false :: innerGreen)

def isYellow : Bytes → UInt8 → Bool
  | [], _ => false
  | w :: word, letter => if w = letter then true else isYellow word letter

def elideOne : Bytes → UInt8 → Option Bytes
  | [], _ => none
  | w :: word, letter => if w = letter then some word else (elideOne word letter).map (w :: ·)

def makeYellow : Bytes → Bytes → Option (List ℤ)
  | _, [] => some []
  | word, g :: guess =>
    if isYellow word g then do
      let rest ← makeYellow (← elideOne word g) guess
      some (1 :: rest)
    else do
      let rest ← makeYellow word guess
      some (0 :: rest)

def mergeColors : List Bool → List ℤ → ℤ → Option ℤ
  | [], _, val => some val
  | true :: green, yellow, val => mergeColors green yellow (2 + 3 * val)
  | false :: _, [], _ => none
  | false :: green, y :: yellow, val => mergeColors green yellow (y + 3 * val)

def makeClue (word guess : Bytes) : Option ℤ := do
  let (notGreenWord, notGreenGuess, green) ← makeGreen (← expandWord word) (← expandWord guess)
  let yellow ← makeYellow notGreenWord notGreenGuess
  let val ← mergeColors green yellow 0
  some (val - 128)

def krunkPayouts : Clvm := .list [.nat 100, .nat 100, .nat 20, .nat 5, .nat 1]

/-- The counter stops at the empty atom only, so `0x00` counts down past zero. -/
def drop (n : Bytes) : Clvm → Option Clvm
  | .atom b => if n = [] then some (.atom b) else none
  | .pair f r => if n = [] then some (.pair f r) else drop (bytesOfInt (intOfBytes n - 1)) r

def krunkPayoutShare (baseUnit : Bytes) (n : ℕ) : Option Bytes := do
  let payout ← (← (← drop (bytesOfInt (n - 1)) krunkPayouts).first).bytes
  some (bytesOfInt (intOfBytes baseUnit * intOfBytes payout))

section Validators

variable (sha256 : Bytes → Bytes) (guessHash clueHash : Bytes)

/-- Bob challenging Alice's commitment; the state is `(dict_pubkey base_unit)`. -/
def commit (a : RefereeArgs) (state _evidence : Clvm) : Option Clvm :=
  if a.move.length = 32 ∧ a.moverShare = [] then do
    let dictPubkey ← state.nth 0
    let baseUnit ← state.nth 1
    some (.list [.atom guessHash,
      .list [dictPubkey, baseUnit, .nil, .nil, .atom a.move, .atom clueHash], .nat 5])
  else some .nil

/-- The answer of `guess.clsp` to a guess it lets through. -/
def guessAnswer (a : RefereeArgs) (state : Clvm) (extra : List Clvm) : Option Clvm := do
  let clueHash ← state.nth 5
  let newState := Clvm.list [← state.nth 0, ← state.nth 1, .pair (.atom a.move) (← state.nth 2),
    ← state.nth 3, ← state.nth 4, clueHash]
  some (.list (clueHash :: newState :: .nat 21 :: extra))

/-- Alice challenging Bob's guess. -/
def guess (a : RefereeArgs) (state evidence : Clvm) : Option Clvm := do
  if evidence.truthy then
    let ev ← evidence.bytes
    if ev.length = 10 then
      let low ← substr ev 0 5
      let high ← substr ev 5 10
      if intOfBytes low ≤ intOfBytes a.move ∧ intOfBytes a.move ≤ intOfBytes high then
        guessAnswer a state [.list [condAggSigUnsafe, ← state.nth 0, evidence]]
      else none
    else none
  else if a.move.length = 5 ∧ a.moverShare = [] then guessAnswer a state []
  else some .nil

/-- A clue that continues the game. -/
def clueStep (a : RefereeArgs) (state : Clvm) : Option Clvm := do
  if a.moverShare ≠ [] then some .nil
  else
    let aliceClues ← state.nth 3
    if ¬ (← aliceClues.len) < 4 then some .nil
    else if ¬ intOfBytes [0x72] > intOfBytes a.move then some .nil
    else
      some (.list [.atom guessHash,
        .list [← state.nth 0, ← state.nth 1, ← state.nth 2, .pair (.atom a.move) aliceClues,
          ← state.nth 4, ← state.nth 5], .nat 5])

/-- The revealed word lies in a signed gap of the dictionary. -/
def revealGap (a : RefereeArgs) (state : Clvm) (ev : Bytes) : Option Clvm := do
  let word ← substr a.move 16 21
  let low ← substr ev 0 5
  let high ← substr ev 5 10
  if intOfBytes low ≤ intOfBytes word ∧ intOfBytes word ≤ intOfBytes high then
    some (.list [.nil, .nil, .nil, .list [condAggSigUnsafe, ← state.nth 0, .atom ev]])
  else none

/-- An earlier clue was wrong; the latest guess has no clue, so guesses are offset by one. -/
def revealWrongClue (a : RefereeArgs) (state : Clvm) (ev : Bytes) : Option Clvm := do
  let aliceClues ← state.nth 3
  if intOfBytes ev < (← aliceClues.len) then
    let word ← substr a.move 16 21
    let guess ← (← (← drop (bytesOfInt (intOfBytes ev + 1)) (← state.nth 2)).first).bytes
    let clue ← (← (← drop ev aliceClues).first).bytes
    if bytesOfInt (← makeClue word guess) ≠ clue then some .nil else none
  else none

/-- The share of a reveal; there is none before the game is over. -/
def revealShare (baseUnit bobGuesses : Clvm) (word : Bytes) : Option Bytes := do
  if (← (← bobGuesses.first).bytes) = word then
    krunkPayoutShare (← baseUnit.bytes) (← bobGuesses.len)
  else if (← bobGuesses.len) = 5 then some []
  else none

def reveal (a : RefereeArgs) (state : Clvm) : Option Clvm := do
  if a.move.length ≠ 21 then some .nil
  else
    let salt ← substr a.move 0 16
    let word ← substr a.move 16 21
    if (← (← state.nth 4).bytes) ≠ sha256 (salt ++ word) then some .nil
    else if a.moverShare ≠ (← revealShare (← state.nth 1) (← state.nth 2) word) then some .nil
    else some (.list [.nil, .nil, .nil])

/-- Bob challenging Alice's clue or reveal; the state is
`(dict_pubkey base_unit bob_guesses alice_clues alice_commit clue_hash)`. -/
def clue (a : RefereeArgs) (state evidence : Clvm) : Option Clvm :=
  if a.move.length = 1 then clueStep guessHash a state
  else do
    let ev ← evidence.bytes
    if ev.length = 10 then revealGap a state ev
    else if ev.length = 1 then revealWrongClue a state ev
    else reveal sha256 a state

end Validators

/-! The dictionary: a search tree whose leaves hold the signatures of the gaps. -/

def minWord : Bytes := [0x80, 0, 0, 0, 0]
def maxWord : Bytes := [0x7f, 0xff, 0xff, 0xff, 0xff]

def buildSignedDictTreeInner : ℕ → List Bytes → List Bytes → ℕ → Clvm
  | 0, _, sigs, gapOffset => .atom (sigs.getD gapOffset [])
  | fuel + 1, words, sigs, gapOffset =>
    if words = [] then .atom (sigs.getD gapOffset [])
    else
      let mid := words.length / 2
      .list [buildSignedDictTreeInner fuel (words.take mid) sigs gapOffset,
        buildSignedDictTreeInner fuel (words.drop (mid + 1)) sigs (gapOffset + mid + 1),
        .atom (words.getD mid [])]

def buildSignedDictTree (words sigs : List Bytes) : Clvm :=
  buildSignedDictTreeInner words.length words sigs 0

/-- Nil for a word of the dictionary, else the bounds of its gap and the signature. -/
def dictLookup (leftBound rightBound word : Bytes) : Clvm → Option Clvm
  | .atom sig => some (.list [.atom leftBound, .atom rightBound, .atom sig])
  | .pair left (.pair right (.pair (.atom wordHere) _)) =>
    if word = wordHere then some .nil
    else if intOfBytes word > intOfBytes wordHere then
      dictLookup (bytesOfInt (intOfBytes wordHere + 1)) rightBound word right
    else dictLookup leftBound (bytesOfInt (intOfBytes wordHere - 1)) word left
  | .pair _ _ => none

def expandClueInner : ℤ → ℕ → List Clvm
  | _, 0 => []
  | val, n + 1 => .int (val.fmod 3) :: expandClueInner (val.fdiv 3) n

def expandClue (clue : ℤ) : Clvm := .list (expandClueInner (clue + 128) 5).reverse

/-! The handlers.  A curried handler is a constructor with its curried arguments. -/

inductive Handler where
  | aliceCommit (dictTree : Clvm)
  | aliceGuess (salt word : Bytes) (dictTree : Clvm)
  | aliceClue (salt word : Bytes) (clue : ℤ) (dictTree : Clvm)
  | bobCommit (dictTree : Clvm)
  | bobGuess (dictTree : Clvm)
  | bobClue (dictTree : Clvm)
  deriving DecidableEq

/-- `(readable_move evidence next_handler)`. -/
structure TheirTurn where
  readable : Clvm
  evidence : Clvm
  next : Option Handler

def gapEvidence (lookup : Clvm) : Option Clvm := do
  let left ← (← lookup.nth 0).bytes
  let right ← (← lookup.nth 1).bytes
  some (.list [.atom (left ++ right)])

def krunkAliceHandlerGuess (salt word : Bytes) (dictTree : Clvm) (move : Bytes) :
    Option TheirTurn := do
  let lookup ← dictLookup minWord maxWord move dictTree
  if lookup.truthy then some ⟨.nil, ← gapEvidence lookup, none⟩
  else
    let clue ← makeClue word move
    some ⟨.list [.atom move, expandClue clue], .nil, some (.aliceClue salt word clue dictTree)⟩

def krunkEvidenceIndices : Clvm := .list [.nat 0, .nat 1, .nat 2, .nat 3, .nat 4]

def krunkBobHandlerClue (dictTree preState : Clvm) (move : Bytes) : Option TheirTurn :=
  if move.length = 1 then some ⟨expandClue (intOfBytes move), .nil, some (.bobGuess dictTree)⟩
  else do
    let word ← substr move 16 21
    let latest ← (← (← preState.nth 2).first).bytes
    let lookup ← dictLookup minWord maxWord word dictTree
    let readable := Clvm.list [.atom word, expandClue (← makeClue word latest)]
    if lookup.truthy then some ⟨readable, ← gapEvidence lookup, none⟩
    else some ⟨readable, krunkEvidenceIndices, none⟩

end ChiaGaming.Krunk
