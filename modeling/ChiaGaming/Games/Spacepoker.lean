import ChiaGaming.Games.Cards
import ChiaGaming.Puzzle.Referee

namespace ChiaGaming.Spacepoker

/-! Cards are ranks 2 to 14, drawn from a signed number thirteen at a time. -/

def extractCards : ℤ → ℕ → List ℕ
  | _, 0 => []
  | value, n + 1 => (2 + (value % 13).toNat) :: extractCards (value / 13) n

/-- The cards and the boosts of the player who reveals and of the opponent. -/
structure Deal where
  moverCards : List ℕ
  waiterCards : List ℕ
  moverBoost : ℕ
  waiterBoost : ℕ
  deriving DecidableEq, Repr

section Deal

variable (sha256 : Bytes → Bytes)

def makeCards (thing1 thing2 : Bytes) (n : ℕ) : List ℕ :=
  extractCards (intOfBytes (sha256 (logxor thing1 thing2))) n

def boost (pre image4 : Bytes) : ℕ :=
  if intOfBytes (sha256 (logxor pre image4)) % 3 = 0 then 1 else 0

def buildImageChain (pre : Bytes) : List Bytes :=
  let i1 := sha256 pre
  let i2 := sha256 i1
  let i3 := sha256 i2
  let i4 := sha256 i3
  [pre, i1, i2, i3, i4, sha256 i4]

/-- Hole cards, then flop, turn and river. -/
def makeAllCards (alicePre bobPre : Bytes) : Deal :=
  let aliceImage1 := sha256 alicePre
  let aliceImage2 := sha256 aliceImage1
  let aliceImage3 := sha256 aliceImage2
  let aliceImage4 := sha256 aliceImage3
  let bobImage1 := sha256 bobPre
  let bobImage2 := sha256 bobImage1
  let bobImage3 := sha256 bobImage2
  let bobImage4 := sha256 bobImage3
  let flop := makeCards sha256 aliceImage3 bobImage3 3
  let turn := makeCards sha256 aliceImage2 bobImage2 1
  let river := makeCards sha256 aliceImage1 bobImage1 1
  { moverCards := makeCards sha256 alicePre bobImage4 2 ++ flop ++ turn ++ river
    waiterCards := makeCards sha256 bobPre aliceImage4 2 ++ flop ++ turn ++ river
    moverBoost := boost sha256 alicePre bobImage4
    waiterBoost := boost sha256 bobPre aliceImage4 }

/-! The handlers have their own copy of the derivation. -/

def makeCardsPair (thing1 thing2 : Bytes) (n : ℕ) : List ℕ :=
  extractCards (intOfBytes (sha256 (logxor thing1 thing2))) n

def deriveAllCards (alicePre bobPre : Bytes) : Deal :=
  let ai1 := sha256 alicePre
  let ai2 := sha256 ai1
  let ai3 := sha256 ai2
  let ai4 := sha256 ai3
  let bi1 := sha256 bobPre
  let bi2 := sha256 bi1
  let bi3 := sha256 bi2
  let bi4 := sha256 bi3
  let flop := makeCardsPair sha256 ai3 bi3 3
  let turn := makeCardsPair sha256 ai2 bi2 1
  let river := makeCardsPair sha256 ai1 bi1 1
  { moverCards := makeCardsPair sha256 alicePre bi4 2 ++ flop ++ turn ++ river
    waiterCards := makeCardsPair sha256 bobPre ai4 2 ++ flop ++ turn ++ river
    moverBoost := boost sha256 alicePre bi4
    waiterBoost := boost sha256 bobPre ai4 }

theorem deriveAllCards_eq (alicePre bobPre : Bytes) :
    deriveAllCards sha256 alicePre bobPre = makeAllCards sha256 alicePre bobPre := rfl

end Deal

/-- Counts, boost, ranks; a straight is `(3 3 boost high)`.  Only with five groups are there
ranks in the places where the straight is looked for. -/
def spaceHandEval (cards : List ℕ) (boost : ℕ) : Option (List ℕ) := do
  let groups ← groupByCount (atomsort cards)
  let rawGroups := atomsort groups
  let hand := rawGroups.map groupCount ++ boost :: rawGroups.map groupRank
  if (← hand[0]?) ≠ 1 then some hand
  else
    let r1 ← hand[6]?
    let r5 ← hand[10]?
    if r5 + 4 = r1 then some [3, 3, boost, r1] else some hand

/-- The best hand of a list of cards, with the bit mask that selects it. -/
def spaceHandCalc (cards : List ℕ) (boost : ℕ) : Option (List ℕ × ℕ) :=
  bestSelection (spaceHandEval · boost) bitMark 0 Clvm.nat cards

/-- What a player with hand value `hand` is worth against `other`. -/
def fairShare (amount halfPot : ℤ) (hand other : List ℕ) : ℤ :=
  let result := deepCompare (handToClvm hand) (handToClvm other)
  if result = 0 then amount / 2
  else if result = 1 then amount / 2 + halfPot
  else amount / 2 - halfPot

section Programs

variable (sha256 : Bytes → Bytes)

/-- The terminal validator `end.clsp`; the state is `(half_pot mover_image waiter_preimage)`. -/
def endValidator (a : RefereeArgs) (state evidence : Clvm) : Option Clvm := do
  if a.move.length ≠ 17 then some .nil
  else if a.infohashB ≠ [] then some .nil
  else
    let moverPre ← substr a.move 0 16
    if (← (← state.nth 1).bytes) ≠ sha256 moverPre then some .nil
    else
      let moverBitfield ← substr a.move 16 17
      if popcount moverBitfield ≠ 5 then some .nil
      else
        let ev ← evidence.bytes
        if popcount ev ≠ 5 then none
        else
          let waiterPre ← (← state.nth 2).bytes
          let deal := makeAllCards sha256 moverPre waiterPre
          let moverHand ← spaceHandEval
            (pullFromBitfield deal.moverCards (natOfBytes moverBitfield)) deal.moverBoost
          let waiterHand ← spaceHandEval
            (pullFromBitfield deal.waiterCards (natOfBytes ev)) deal.waiterBoost
          let halfPot ← (← state.nth 0).bytes
          if intOfBytes a.moverShare >
              fairShare (intOfBytes a.amount) (intOfBytes halfPot) moverHand waiterHand then
            some .nil
          else some (.list [.nil])

variable (valEnd : Clvm) (endHash : Bytes)

/-- The final reveal, made by either player. -/
def handlerEnd (label : Bytes) (chain : List Bytes) (amount : ℤ) (state : Clvm) : Option Clvm := do
  let pre ← chain[0]?
  let halfPot ← (← state.nth 0).bytes
  let waiterPre ← (← state.nth 2).bytes
  let deal := deriveAllCards sha256 pre waiterPre
  let (moverHand, moverBitfield) ← spaceHandCalc deal.moverCards deal.moverBoost
  let (waiterHand, _) ← spaceHandCalc deal.waiterCards deal.waiterBoost
  some (.list [.atom label, .atom (pre ++ bytesOfNat moverBitfield), valEnd, .atom endHash,
    .nil, .nil, .nil, .int (fairShare amount (intOfBytes halfPot) moverHand waiterHand), .nil])

def spacepokerAliceHandlerEnd (chain : List Bytes) (amount : ℤ) (state : Clvm) : Option Clvm :=
  handlerEnd sha256 valEnd endHash "spacepoker_alice_end".toUTF8.toList chain amount state

def spacepokerBobHandlerEnd (chain : List Bytes) (amount : ℤ) (state : Clvm) : Option Clvm :=
  handlerEnd sha256 valEnd endHash "spacepoker_bob_end".toUTF8.toList chain amount state

/-- What the other player makes of a reveal: a readable showdown, and as evidence the best
selection of its own cards. -/
def handlerEndTheir (chain : List Bytes) (move : Bytes) : Option Clvm := do
  let ownPre ← chain[0]?
  let otherPre ← substr move 0 16
  let deal := deriveAllCards sha256 otherPre ownPre
  let (ownHand, ownBitfield) ← spaceHandCalc deal.waiterCards deal.waiterBoost
  let (otherHand, otherBitfield) ← spaceHandCalc deal.moverCards deal.moverBoost
  let readable := Clvm.list [.atom "end".toUTF8.toList,
    handToClvm (pullFromBitfield deal.waiterCards ownBitfield), handToClvm ownHand,
    handToClvm (pullFromBitfield deal.moverCards otherBitfield), handToClvm otherHand,
    .int (deepCompare (handToClvm ownHand) (handToClvm otherHand)),
    .nat (← deal.moverCards[0]?), .nat (← deal.moverCards[1]?), .nat deal.moverBoost]
  some (.list [readable, .list [.nat ownBitfield], .nil])

end Programs

/-- The move that a handler's answer asks for. -/
def moveOfHandler (answer : Clvm) : Option MoveSolution := do
  let move ← (← answer.nth 1).bytes
  let maxMoveSize ← (← answer.nth 6).bytes
  let share ← (← answer.nth 7).bytes
  some ⟨move, [], share, maxMoveSize⟩

end ChiaGaming.Spacepoker
