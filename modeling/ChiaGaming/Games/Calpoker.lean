import ChiaGaming.Games.Cards
import ChiaGaming.Puzzle.Referee

namespace ChiaGaming.Calpoker

/-! Dealing.  Cards are numbers below 52; both hands are drawn from one signed number. -/

/-- Shifts `inner` over the elements of `outer` that come before it and merges them in; `merged`
does the same for the tail of `outer`. -/
def mergeinAux (o : ℕ) (outer : List ℕ) (merged : List ℕ → ℕ → List ℕ) : List ℕ → ℕ → List ℕ
  | [], _ => o :: outer
  | x :: inner, offset =>
    if o ≤ x + offset then o :: merged (x :: inner) (offset + 1)
    else (x + offset) :: mergeinAux o outer merged inner offset

def mergein : List ℕ → List ℕ → ℕ → List ℕ
  | [], inner, offset => inner.map (· + offset)
  | o :: outer, inner, offset => mergeinAux o outer (mergein outer) inner offset

/-- Like `mergein`, but without the elements of `outer` in the result. -/
def mergeoverAux (o : ℕ) (merged : List ℕ → ℕ → List ℕ) : List ℕ → ℕ → List ℕ
  | [], _ => []
  | x :: inner, offset =>
    if o ≤ x + offset then merged (x :: inner) (offset + 1)
    else (x + offset) :: mergeoverAux o merged inner offset

def mergeover : List ℕ → List ℕ → ℕ → List ℕ
  | [], inner, offset => inner.map (· + offset)
  | o :: outer, inner, offset => mergeoverAux o (mergeover outer) inner offset

/-- Picks `numchoose` of `numcards`, in order; the fuel bounds the halvings of `numchoose`. -/
def choose : ℕ → ℕ → ℕ → ℤ → List ℕ × ℤ
  | 0, _, _, randomness => ([], randomness)
  | fuel + 1, numcards, numchoose, randomness =>
    if numchoose = 1 then ([(randomness % numcards).toNat], randomness / numcards)
    else
      let half := numchoose / 2
      let (cards1, randomness2) := choose fuel numcards half randomness
      let (cards2, randomness3) := choose fuel (numcards - half) (numchoose - half) randomness2
      (mergein cards1 cards2 0, randomness3)

def makeCards (randomness : ℤ) : List ℕ × List ℕ :=
  let (handa, newrandomness) := choose 4 52 8 randomness
  let (handb, _) := choose 4 (52 - 8) 8 newrandomness
  (handa, mergeover handa handb 0)

/-! Discards and final cards. -/

def splitCardsInner : ℕ → List ℕ → List ℕ → List ℕ → List ℕ × List ℕ
  | _, [], left, right => (left, right)
  | mask, c :: cards, left, right =>
    if mask % 2 = 1 then splitCardsInner (mask / 2) cards left (c :: right)
    else splitCardsInner (mask / 2) cards (c :: left) right

def splitCards (mask : ℕ) (cards : List ℕ) : List ℕ × List ℕ := splitCardsInner mask cards [] []

def pullOutCards (selections : Bytes) (cards : List ℕ) : Option (List ℕ) :=
  if popcount selections = 5 then some (pullFromBitfield cards (natOfBytes selections)) else none

def cardLess (a b : ℕ) : Bool := deepCompare (.nat a) (.nat b) = -1

/-- Each player keeps what it did not discard and gets what the other discarded. -/
def getFinalCards (aliceCards : List ℕ) (alicePicks : Bytes) (bobCards : List ℕ)
    (bobPicks : Bytes) : List ℕ × List ℕ :=
  let (myCardsMe, myCardsBob) := splitCards (natOfBytes alicePicks) aliceCards
  let (bobCardsBob, bobCardsMe) := splitCards (natOfBytes bobPicks) bobCards
  (sort cardLess (myCardsMe ++ bobCardsMe), sort cardLess (bobCardsBob ++ myCardsBob))

/-! The value of five cards. -/

def mod52ToPair (card : ℕ) : ℕ × ℕ := (2 + card / 4, 1 + card % 4)

/-- The high card of a straight, or zero. -/
def straightHigh (hand : List ℕ) : Option ℕ := do
  if (← hand[0]?) ≠ 1 then some 0
  else
    let rank1 ← hand[5]?
    let rank5 ← hand[9]?
    if rank5 + 4 = rank1 then some rank1
    else if rank1 = 14 then
      if (← hand[6]?) = 5 then some 5 else some 0
    else some 0

def onehandcalcInner (ranks : List ℕ) (flush : Bool) : Option (List ℕ) := do
  let groups ← groupByCount (atomsort ranks)
  let rawGroups := atomsort groups
  let hand := rawGroups.map groupCount ++ rawGroups.map groupRank
  let firstCount ← hand[0]?
  let secondCount ← hand[1]?
  let shigh ← straightHigh hand
  if shigh ≠ 0 then
    if flush then some [5, shigh]
    else if firstCount = 4 ∨ (firstCount = 3 ∧ secondCount = 2) then some hand
    else some [3, 1, 2, shigh]
  else if flush ∧ (firstCount < 3 ∨ (firstCount = 3 ∧ secondCount < 2)) then
    if 5 ≤ hand.length then some (3 :: 1 :: 3 :: hand.drop 5) else none
  else some hand

/-- The evaluator takes five cards apart and aborts on fewer. -/
def onehandcalc (cards : List ℕ) : Option (List ℕ) :=
  match cards.map mod52ToPair with
  | (r1, s1) :: (r2, s2) :: (r3, s3) :: (r4, s4) :: (r5, s5) :: _ =>
    onehandcalcInner [r1, r2, r3, r4, r5] (s1 = s2 ∧ s1 = s3 ∧ s1 = s4 ∧ s1 = s5)
  | _ => none

/-- The best hand of a list of cards, with the indices that select it. -/
def handcalc (cards : List ℕ) : Option (List ℕ × List ℕ) :=
  bestSelection onehandcalc (fun i s => i :: s) [] (fun l => Clvm.list (l.map .nat)) cards

/-- One if the first list is greater; the shorter list must not be the second. -/
def listCompare : List ℕ → List ℕ → Option ℤ
  | x :: a, y :: b =>
    if x = y then if a = [] then some 0 else listCompare a b
    else some (2 * (if x > y then 1 else 0) - 1)
  | _, _ => none

/-! Indices as a bit mask of one byte. -/

def indicesToBitfieldInner : ℕ → List ℕ → ℕ → ℕ
  | 0, _, _ => 0
  | _ + 1, [], _ => 0
  | fuel + 1, i :: l, index =>
    if i = index then 1 + 2 * indicesToBitfieldInner fuel l (index + 1)
    else 2 * indicesToBitfieldInner fuel (i :: l) (index + 1)

def singleByte (raw : Bytes) : Bytes :=
  match raw.getLast? with
  | some b => [b]
  | none => [0]

/-- The indices of a hand are ascending and below eight. -/
def indicesToBitfield (l : List ℕ) : Bytes := singleByte (bytesOfNat (indicesToBitfieldInner 9 l 0))

/-- What Bob is due when Alice's hand compares to his as `result`. -/
def bobsDue (amount result : ℤ) : ℤ :=
  if result = 0 then amount / 2 else if result = 1 then 0 else amount

section Programs

variable (sha256 : Bytes → Bytes)

/-- The terminal validator `e.clsp`; the state is
`(bob_discards alice_cards bob_cards alice_commit)`. -/
def eValidator (a : RefereeArgs) (state evidence : Clvm) : Option Clvm := do
  if a.move.length ≠ 18 then some .nil
  else
    let aliceDiscards ← substr a.move 16 17
    let aliceSelections ← substr a.move 17 18
    if popcount aliceDiscards ≠ 4 then some .nil
    else if popcount aliceSelections ≠ 5 then some .nil
    else
      -- the cards and Alice's hand are bound before the commitment is looked at
      let (aliceFinal, bobFinal) := getFinalCards (← (← state.nth 1).natList) aliceDiscards
        (← (← state.nth 2).natList) (← (← state.nth 0).bytes)
      let aliceHand ← onehandcalc (← pullOutCards aliceSelections aliceFinal)
      if sha256 (← substr a.move 0 17) ≠ (← (← state.nth 3).bytes) then some .nil
      else
        let bobHand ← onehandcalc (← pullOutCards (← evidence.bytes) bobFinal)
        let result ← listCompare aliceHand bobHand
        if intOfBytes a.moverShare ≥ bobsDue (intOfBytes a.amount) result then some (.list [.nil])
        else some .nil

/-- Bob receives Alice's last move: a readable showdown, and as evidence his best selection. -/
def calpokerBobHandlerE (amount : ℤ) (preState : Clvm) (move split : Bytes) : Option Clvm := do
  let aliceDiscards ← substr move 16 17
  let aliceSelects ← substr move 17 move.length
  let (aliceFinal, bobFinal) := getFinalCards (← (← preState.nth 1).natList) aliceDiscards
    (← (← preState.nth 2).natList) (← (← preState.nth 0).bytes)
  let aliceHand ← onehandcalc (← pullOutCards aliceSelects aliceFinal)
  let (bobHand, bobSelects) ← handcalc bobFinal
  let readable := Clvm.list [.atom aliceDiscards, .atom aliceSelects,
    .atom (indicesToBitfield bobSelects), handToClvm aliceHand, handToClvm bobHand,
    .int (deepCompare (.atom split) (.int (amount / 2)))]
  some (.list [readable, .list [.atom (indicesToBitfield bobSelects)], .nil])

end Programs

end ChiaGaming.Calpoker
