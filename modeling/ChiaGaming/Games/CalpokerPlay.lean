import ChiaGaming.Games.CalpokerFinal
import ChiaGaming.Games.Play

namespace ChiaGaming.Calpoker

/-! The five steps of calpoker: the handlers, beside the validators of the moves that they make. -/

inductive Validator where
  | a
  | b
  | c
  | d
  | e
  deriving DecidableEq

/-- A curried handler is a constructor with its curried arguments. -/
inductive Handler where
  | aliceA
  | aliceB (preimage : Bytes)
  | aliceC (preimage : Bytes)
  | aliceD (salt picks : Bytes)
  | aliceE (nextMove split : Bytes)
  | bobA
  | bobB
  | bobC
  | bobD
  | bobE
  | parseMessage
  deriving DecidableEq

section Validators

variable (sha256 : Bytes → Bytes) (hash : Validator → Bytes)

def deal (preimage bobSeed amount : Bytes) : List ℕ × List ℕ :=
  makeCards (intOfBytes (sha256 (preimage ++ bobSeed ++ amount)))

/-- `a.clsp`; the state is empty. -/
def aValidator (a : RefereeArgs) (_state _evidence : Clvm) : Option Clvm :=
  if a.move.length = 32 then some (.list [.atom (hash .b), .atom a.move, .nat 16]) else some .nil

/-- `b.clsp`; the state is Alice's commitment. -/
def bValidator (a : RefereeArgs) (aliceCommit _evidence : Clvm) : Option Clvm :=
  if a.move.length = 16 then
    some (.list [.atom (hash .c), .list [aliceCommit, .atom a.move], .nat 48])
  else some .nil

/-- `c.clsp`; the state is `(alice_commit bob_seed)`. -/
def cValidator (a : RefereeArgs) (state _evidence : Clvm) : Option Clvm :=
  if ¬ a.move.length = 48 then some .nil
  else do
    let aliceCommit ← (← state.nth 0).bytes
    let bobSeed ← (← state.nth 1).bytes
    let preimage ← substr a.move 0 16
    let newCommit ← substr a.move 16 48
    let cards := deal sha256 preimage bobSeed a.amount
    if sha256 preimage = aliceCommit then
      some (.list [.atom (hash .d),
        .list [.atom newCommit, handToClvm cards.1, handToClvm cards.2], .nat 1])
    else some .nil

/-- `d.clsp`; the state is `(alice_commit alice_cards bob_cards)`. -/
def dValidator (a : RefereeArgs) (state _evidence : Clvm) : Option Clvm :=
  if a.move.length = 1 ∧ popcount a.move = 4 then do
    let aliceCommit ← state.nth 0
    let aliceCards ← state.nth 1
    let bobCards ← state.nth 2
    some (.list [.atom (hash .e), .list [.atom a.move, aliceCards, bobCards, aliceCommit], .nat 18])
  else some .nil

def Validator.run : Validator → RefereeArgs → Clvm → Clvm → Option Clvm
  | .a => aValidator hash
  | .b => bValidator hash
  | .c => cValidator sha256 hash
  | .d => dValidator hash
  | .e => eValidator sha256

end Validators

/-! Named cards as a bit mask. -/

def listContains (item : Bytes) : List Bytes → Bool
  | [] => false
  | x :: mylist => if item = x then true else listContains item mylist

def cardsToIndicesInner : List ℕ → List Bytes → ℕ → List ℕ
  | [], _, _ => []
  | c :: cards, selected, index =>
    if listContains (bytesOfNat c) selected then index :: cardsToIndicesInner cards selected (index + 1)
    else cardsToIndicesInner cards selected (index + 1)

def cardsToBitfield (selected : List Bytes) (cards : List ℕ) : Bytes :=
  indicesToBitfield (cardsToIndicesInner cards selected 0)

section Handlers

variable (sha256 : Bytes → Bytes) (hash : Validator → Bytes) (amount : ℕ)

abbrev Move := Play.Move Validator Handler
abbrev Reply := Play.Reply Handler

def cardsReadable (cards : List ℕ × List ℕ) : Clvm := .list [handToClvm cards.1, handToClvm cards.2]

def calpokerAliceHandlerA (entropy : Bytes) : Option Move := do
  let preimage ← substr entropy 0 16
  some {
    label := "calpoker_alice_handler_a"
    move := sha256 preimage
    outgoingValidator := .a
    outgoingValidatorHash := hash .a
    incomingValidator := some .b
    incomingValidatorHash := hash .b
    maxMoveSize := 48
    moverShare := []
    theirTurnHandler := some (.aliceB preimage)
    messageParser := none }

/-- Sends the preimage ahead of the move that shows it. -/
def calpokerAliceHandlerB (preimage move : Bytes) : Reply where
  readable := cardsReadable (deal sha256 preimage move (bytesOfNat amount))
  evidence := .nil
  myTurnHandler := some (.aliceC preimage)
  message := some preimage

/-- The handler raises when other than four cards of the hand are named. -/
def calpokerAliceHandlerC (preimage : Bytes) (myDiscards : List Bytes) (state : Clvm) (entropy : Bytes) :
    Option Move := do
  let bobSeed ← (← state.nth 1).bytes
  let cards := deal sha256 preimage bobSeed (bytesOfNat amount)
  let bitfield := cardsToBitfield myDiscards cards.1
  let salt ← substr entropy 0 16
  if popcount bitfield = 4 then
    some {
      label := "calpoker_alice_handler_c"
      move := preimage ++ sha256 (salt ++ bitfield)
      outgoingValidator := .c
      outgoingValidatorHash := hash .c
      incomingValidator := some .d
      incomingValidatorHash := hash .d
      maxMoveSize := 1
      moverShare := []
      theirTurnHandler := some (.aliceD salt bitfield)
      messageParser := none }
  else none

def calpokerAliceHandlerD (mySalt myPicks : Bytes) (state : Clvm) (move : Bytes) : Option Reply := do
  let aliceCards ← (← state.nth 1).natList
  let bobCards ← (← state.nth 2).natList
  let (myAllCards, bobAllCards) := getFinalCards aliceCards myPicks bobCards move
  let (myHandValue, mySelects) ← handcalc myAllCards
  let (bobHandValue, bobSelects) ← handcalc bobAllCards
  let mySelectsBitfield := indicesToBitfield mySelects
  let winResult ← listCompare myHandValue bobHandValue
  -- the split is what the last move leaves to Bob
  let split := (1 - winResult) * (amount / 2)
  some {
    readable := .list [.atom move, .atom mySelectsBitfield, .atom (indicesToBitfield bobSelects),
      handToClvm myHandValue, handToClvm bobHandValue, .int winResult]
    evidence := .nil
    myTurnHandler :=
      some (.aliceE (mySalt ++ myPicks ++ singleByte mySelectsBitfield) (bytesOfInt split))
    message := none }

def calpokerAliceHandlerE (nextMove split : Bytes) : Move where
  label := "calpoker_alice_handler_e"
  move := nextMove
  outgoingValidator := .e
  outgoingValidatorHash := hash .e
  incomingValidator := none
  incomingValidatorHash := []
  maxMoveSize := 0
  moverShare := split
  theirTurnHandler := none
  messageParser := none

def calpokerBobHandlerA : Reply := ⟨.nil, .nil, some .bobB, none⟩

def calpokerBobHandlerB (entropy : Bytes) : Option Move := do
  some {
    label := "calpoker_bob_handler_b"
    move := ← substr entropy 0 16
    outgoingValidator := .b
    outgoingValidatorHash := hash .b
    incomingValidator := some .c
    incomingValidatorHash := hash .c
    maxMoveSize := 48
    moverShare := []
    theirTurnHandler := some .bobC
    messageParser := some .parseMessage }

/-- The cards from the preimage that Alice sends; the state is `(alice_commit bob_seed)`. -/
def parseMessage (message : Bytes) (state : Clvm) : Option Clvm := do
  let aliceCommit ← (← state.nth 0).bytes
  let bobSeed ← (← state.nth 1).bytes
  if sha256 message = aliceCommit then
    some (cardsReadable
      (deal sha256 (← substr message 0 16) (← substr bobSeed 0 16) (bytesOfNat amount)))
  else none

def calpokerBobHandlerC (state : Clvm) : Option Reply := do
  some ⟨.list [← state.nth 1, ← state.nth 2], .nil, some .bobD, none⟩

def calpokerBobHandlerD (myMove : List Bytes) (state : Clvm) : Option Move := do
  let bobCards ← (← state.nth 2).natList
  let bitfield := cardsToBitfield myMove bobCards
  if popcount bitfield = 4 then
    some {
      label := "calpoker_bob_handler_d"
      move := bitfield
      outgoingValidator := .d
      outgoingValidatorHash := hash .d
      incomingValidator := some .e
      incomingValidatorHash := hash .e
      maxMoveSize := 18
      moverShare := []
      theirTurnHandler := some .bobE
      messageParser := none }
  else none

def Handler.myTurn (myMove : List Bytes) (state : Clvm) (entropy : Bytes) : Handler → Option Move
  | .aliceA => calpokerAliceHandlerA sha256 hash entropy
  | .aliceC preimage => calpokerAliceHandlerC sha256 hash amount preimage myMove state entropy
  | .aliceE nextMove split => some (calpokerAliceHandlerE hash nextMove split)
  | .bobB => calpokerBobHandlerB hash entropy
  | .bobD => calpokerBobHandlerD hash myMove state
  | .aliceB _ | .aliceD .. | .bobA | .bobC | .bobE | .parseMessage => none

def Handler.theirTurn (preState state : Clvm) (move split : Bytes) : Handler → Option Reply
  | .aliceB preimage => some (calpokerAliceHandlerB sha256 amount preimage move)
  | .aliceD salt picks => calpokerAliceHandlerD amount salt picks state move
  | .bobA => some calpokerBobHandlerA
  | .bobC => calpokerBobHandlerC state
  | .bobE => do
    let answer ← calpokerBobHandlerE amount preState move split
    some ⟨← answer.nth 0, ← answer.nth 1, none, none⟩
  | .aliceA | .aliceC _ | .aliceE .. | .bobB | .bobD | .parseMessage => none

def rules : Play.Rules Validator Handler (List Bytes) where
  amount := amount
  validate := Validator.run sha256 hash
  myTurn handler myMove state entropy := handler.myTurn sha256 hash amount myMove state entropy
  theirTurn handler preState state move split := handler.theirTurn sha256 amount preState state move split

end Handlers

abbrev Table := Play.Table Validator Handler

def start : Table := ⟨.nil, .a, 32, .aliceA, .bobA⟩

/-! The cards that the players ask for, and those that the masks pull. -/

/-- The cards of a hand that are named. -/
def named (selected : List Bytes) (cards : List ℕ) : List ℕ :=
  cards.filter fun c => listContains (bytesOfNat c) selected

theorem cardsToIndicesInner_eq (cards : List ℕ) (selected : List Bytes) (index : ℕ) :
    cardsToIndicesInner cards selected index =
      ((cards.zipIdx index).filter fun p => listContains (bytesOfNat p.1) selected).map Prod.snd := by
  induction cards generalizing index with
  | nil => rfl
  | cons c cards ih =>
    rw [cardsToIndicesInner, List.zipIdx_cons, ih]
    by_cases hc : listContains (bytesOfNat c) selected = true
    · rw [if_pos hc, List.filter_cons, if_pos hc, List.map_cons]
    · rw [if_neg hc, List.filter_cons, if_neg hc]

theorem splitCardsInner_eq (mask : ℕ) (cards left right : List ℕ) :
    (splitCardsInner mask cards left right).2 = (pullFromBitfield cards mask).reverse ++ right := by
  induction cards generalizing mask left right with
  | nil => rfl
  | cons c cards ih =>
    rw [splitCardsInner, pullFromBitfield]
    split
    · rw [ih, List.reverse_cons, List.append_assoc, List.singleton_append]
    · exact ih _ _ _

/-- The mask of the named cards of a hand is a byte that splits them off. -/
theorem cardsToBitfield_pulls {cards : List ℕ} (h8 : cards.length = 8) (selected : List Bytes) :
    ∃ e : UInt8, cardsToBitfield selected cards = [e] ∧
      pullFromBitfield cards e.toNat = named selected cards ∧
      (splitCards e.toNat cards).2 = (named selected cards).reverse := by
  obtain ⟨e, hbyte, hpull⟩ := indicesToBitfield_pulls h8
    (List.filter_sublist (p := fun p => listContains (bytesOfNat p.1) selected) (l := cards.zipIdx 0))
  have hnamed : ((cards.zipIdx 0).filter fun p => listContains (bytesOfNat p.1) selected).map Prod.fst =
      named selected cards := by
    have hcards : (cards.zipIdx 0).map Prod.fst = cards := List.zipIdx_map_fst 0 cards
    conv_rhs => rw [named, ← hcards, List.filter_map]
    rfl
  rw [hnamed] at hpull
  refine ⟨e, ?_, hpull, ?_⟩
  · rw [cardsToBitfield, cardsToIndicesInner_eq]
    exact hbyte
  · rw [splitCards, splitCardsInner_eq, hpull, List.append_nil]

/-! What stands at each table of an honest play. -/

section Standing

variable (sha256 : Bytes → Bytes) (hash : Validator → Bytes) (stake : ℕ)

/-- The cards that the seed and the preimage deal when both players put in `stake`. -/
def dealt (preimage bobSeed : Bytes) : List ℕ × List ℕ :=
  deal sha256 preimage bobSeed (bytesOfNat (2 * stake))

/-- A move that shows Alice's best hand, and leaves to Bob what it is worth against his best. -/
structure ShowsBest (s : TerminalState) (salt : Bytes) (d sel : UInt8) (split : ℤ) : Prop where
  salted : salt.length = 16
  discards : popcount [d] = 4
  commits : sha256 (salt ++ [d]) = s.aliceCommit
  selects : popcount [sel] = 5
  pulled : ∃ hand indices, handcalc (s.aliceFinal d) = some (hand, indices) ∧
    pullFromBitfield (s.aliceFinal d) sel.toNat = indices.filterMap fun i => (s.aliceFinal d)[i]?
  best : ∃ hand best, onehandcalc (pullFromBitfield (s.aliceFinal d) sel.toNat) = some hand ∧
    IsBest onehandcalc (s.aliceFinal d) hand ∧ IsBest onehandcalc (s.bobFinal d) best ∧
    split = bobsDue (2 * stake : ℕ) (deepCompare (handToClvm hand) (handToClvm best))

/-- The tables that an honest play comes to. -/
inductive Standing : Table → Prop where
  | a : Standing start
  | b (preimage : Bytes) (size : ℕ) (hpreimage : preimage.length = 16) (hsize : 16 ≤ size) :
      Standing ⟨.atom (sha256 preimage), .b, size, .bobB, .aliceB preimage⟩
  | c (preimage bobSeed : Bytes) (hpreimage : preimage.length = 16) :
      Standing ⟨.list [.atom (sha256 preimage), .atom bobSeed], .c, 48, .aliceC preimage, .bobC⟩
  | d (preimage bobSeed salt : Bytes) (d : UInt8) (hsalt : salt.length = 16) (hd : popcount [d] = 4) :
      Standing ⟨.list [.atom (sha256 (salt ++ [d])), handToClvm (dealt sha256 stake preimage bobSeed).1,
        handToClvm (dealt sha256 stake preimage bobSeed).2], .d, 1, .bobD, .aliceD salt [d]⟩
  | e (s : TerminalState) (salt : Bytes) (d sel : UInt8) (split : ℤ)
      (hbest : ShowsBest sha256 stake s salt d sel split) :
      Standing ⟨s.toClvm, .e, 18, .aliceE (finalMove salt d sel) (bytesOfInt split), .bobE⟩

variable {sha256 hash stake}

theorem bobsDue_eq (r : ℤ) (hr : r = 1 ∨ r = 0 ∨ r = -1) :
    bobsDue (2 * stake : ℕ) r = (1 - r) * ((2 * stake : ℕ) / 2) := by
  have hhalf : ((2 * stake : ℕ) : ℤ) / 2 = stake := by omega
  rw [hhalf, bobsDue]
  rcases hr with rfl | rfl | rfl
  · rw [if_neg (by decide), if_pos rfl]
    ring
  · rw [if_pos rfl, hhalf]
    ring
  · rw [if_neg (by decide), if_neg (by decide)]
    push_cast
    ring

/-- The byte of the best hand pulls out the cards whose places were found. -/
theorem handcalc_pulls {cards hand indices : List ℕ} {e : UInt8} (h : IsHand cards)
    (hcalc : handcalc cards = some (hand, indices)) (hbyte : indicesToBitfield indices = [e]) :
    pullFromBitfield cards e.toNat = indices.filterMap fun i => cards[i]? := by
  obtain ⟨hand', l, hcalc', hs, -⟩ := bestSelection_spec (fun i s => i :: s) []
    (fun l => Clvm.list (l.map .nat)) (by rw [h.length_eq]; omega) (fun five hf h5 => by
      obtain ⟨hand, hhand, -⟩ := h.five hf h5
      exact Option.isSome_of_mem hhand)
  rw [markAll_cons] at hcalc'
  obtain ⟨rfl, rfl⟩ := Prod.mk.inj (Option.some.inj (hcalc.symm.trans hcalc'))
  obtain ⟨e', hbyte', hpull⟩ := indicesToBitfield_pulls h.length_eq hs
  obtain rfl : e = e' := List.head_eq_of_cons_eq (hbyte.symm.trans hbyte')
  rw [hpull, List.filterMap_map, ← List.filterMap_eq_map]
  apply List.filterMap_congr
  intro p hp
  exact (List.mem_zipIdx_iff_getElem?.mp (hs.subset hp)).symm

/-- Alice's handler settles the last move when it sees Bob's discards. -/
theorem calpokerAliceHandlerD_eq {s : TerminalState} {salt : Bytes} {d : UInt8} (hsalt : salt.length = 16)
    (hd : popcount [d] = 4) (hcommit : sha256 (salt ++ [d]) = s.aliceCommit) :
    ∃ readable sel split, calpokerAliceHandlerD (2 * stake) salt [d] s.toClvm [s.bobDiscards] =
        some ⟨readable, .nil, some (.aliceE (finalMove salt d sel) (bytesOfInt split)), none⟩ ∧
      ShowsBest sha256 stake s salt d sel split := by
  obtain ⟨hand, selects, hcalc, hbest, sel, hbyte, hfive, heval⟩ := handcalc_spec (aliceFinal_isHand (s := s) hd)
  obtain ⟨bobHand, bobSelects, hcalc', hbest', bobSel, hbyte', hfive', heval'⟩ :=
    handcalc_spec (bobFinal_isHand (s := s) hd)
  obtain ⟨shown, hshown, hshaped⟩ := (aliceFinal_isHand (s := s) hd).pull hfive
  obtain ⟨shown', hshown', hshaped'⟩ := (bobFinal_isHand (s := s) hd).pull hfive'
  obtain rfl : hand = shown := Option.some.inj (heval.symm.trans hshown)
  obtain rfl : bobHand = shown' := Option.some.inj (heval'.symm.trans hshown')
  have halice : s.toClvm.nth 1 = some (.list (s.aliceCards.map .nat)) := rfl
  have hbob : s.toClvm.nth 2 = some (.list (s.bobCards.map .nat)) := rfl
  have hcards : getFinalCards s.aliceCards [d] s.bobCards [s.bobDiscards] = (s.aliceFinal d, s.bobFinal d) := rfl
  set r := deepCompare (handToClvm hand) (handToClvm bobHand) with hr
  have hcases : r = 1 ∨ r = 0 ∨ r = -1 := by
    rcases deepCompare_cases (handToClvm hand) (handToClvm bobHand) with h | h | h
    · exact .inr (.inr h)
    · exact .inr (.inl h)
    · exact .inl h
  refine ⟨.list [.atom [s.bobDiscards], .atom [sel], .atom (indicesToBitfield bobSelects), handToClvm hand,
      handToClvm bobHand, .int r], sel, (1 - r) * ((2 * stake : ℕ) / 2), ?_,
    hsalt, hd, hcommit, hfive, ⟨hand, selects, hcalc, handcalc_pulls (aliceFinal_isHand hd) hcalc hbyte⟩,
    hand, bobHand, heval, hbest, hbest', (bobsDue_eq r hcases).symm⟩
  simp only [calpokerAliceHandlerD, halice, hbob, Clvm.natList_list, hcards, hcalc, hcalc',
    hshaped.listCompare_eq hshaped', hbyte, Option.bind_eq_bind, Option.bind_some, ← hr]
  rw [finalMove, List.append_assoc]
  rfl

variable (sha256 stake) in
theorem dealt_lengths (preimage bobSeed : Bytes) :
    (dealt sha256 stake preimage bobSeed).1.length = 8 ∧ (dealt sha256 stake preimage bobSeed).2.length = 8 := by
  obtain ⟨ha, hb, -⟩ := makeCards_spec (intOfBytes (sha256 (preimage ++ bobSeed ++ bytesOfNat (2 * stake))))
  exact ⟨ha, hb⟩

/-- The handler for Alice's discards, in a state that has a seed. -/
theorem calpokerAliceHandlerC_made {preimage commit bobSeed entropy : Bytes} {myDiscards : List Bytes} {t : Move}
    (h : calpokerAliceHandlerC sha256 hash (2 * stake) preimage myDiscards
      (.list [.atom commit, .atom bobSeed]) entropy = some t) :
    ∃ salt, ∃ d : UInt8, salt.length = 16 ∧ popcount [d] = 4 ∧
      (splitCards d.toNat (dealt sha256 stake preimage bobSeed).1).2 =
        (named myDiscards (dealt sha256 stake preimage bobSeed).1).reverse ∧
      t = ⟨"calpoker_alice_handler_c", preimage ++ sha256 (salt ++ [d]), .c, hash .c, some .d, hash .d, 1, [],
        some (.aliceD salt [d]), none⟩ := by
  -- the seed is there, so the salt is the first thing that can fail
  obtain ⟨salt, hsalt, h⟩ := Option.bind_eq_some_iff.mp h
  obtain ⟨d, hbyte, -, hsplit⟩ :=
    cardsToBitfield_pulls (dealt_lengths sha256 stake preimage bobSeed).1 myDiscards
  change (if popcount (cardsToBitfield myDiscards (dealt sha256 stake preimage bobSeed).1) = 4 then _ else none) = _ at h
  rw [hbyte] at h
  split_ifs at h with hfour
  cases h
  exact ⟨salt, d, length_of_substr hsalt, hfour, hsplit, by rw [← hbyte]; rfl⟩

theorem calpokerBobHandlerD_made {commit : Bytes} {aliceCards bobCards : List ℕ} {myMove : List Bytes}
    {t : Move} (h8 : bobCards.length = 8)
    (h : calpokerBobHandlerD hash myMove (.list [.atom commit, handToClvm aliceCards, handToClvm bobCards]) =
      some t) :
    ∃ d : UInt8, popcount [d] = 4 ∧ (splitCards d.toNat bobCards).2 = (named myMove bobCards).reverse ∧
      t = ⟨"calpoker_bob_handler_d", [d], .d, hash .d, some .e, hash .e, 18, [], some .bobE, none⟩ := by
  have hcards : (handToClvm bobCards).natList = some bobCards := Clvm.natList_list bobCards
  obtain ⟨d, hbyte, -, hsplit⟩ := cardsToBitfield_pulls h8 myMove
  replace h : ((handToClvm bobCards).natList.bind fun cards =>
    if popcount (cardsToBitfield myMove cards) = 4 then some _ else none) = some t := h
  rw [hcards, Option.bind_some, hbyte] at h
  split_ifs at h with hfour
  cases h
  exact ⟨d, hfour, hsplit, rfl⟩

/-- What the validators make of the moves of the handlers. -/
theorem cValidator_eq {coin : RefereeArgs} {preimage bobSeed newCommit : Bytes} (evidence : Clvm)
    (hmove : coin.move = preimage ++ newCommit) (hpreimage : preimage.length = 16)
    (hcommit : newCommit.length = 32) (hamount : coin.amount = bytesOfNat (2 * stake)) :
    cValidator sha256 hash coin (.list [.atom (sha256 preimage), .atom bobSeed]) evidence =
      some (.list [.atom (hash .d), .list [.atom newCommit, handToClvm (dealt sha256 stake preimage bobSeed).1,
        handToClvm (dealt sha256 stake preimage bobSeed).2], .nat 1]) := by
  have hlength : coin.move.length = 48 := by rw [hmove, List.length_append, hpreimage, hcommit]
  have hleft : substr coin.move 0 16 = some preimage := by
    rw [hmove]
    exact substr_append_left hpreimage
  have hright : substr coin.move 16 48 = some newCommit := by
    rw [hmove]
    exact substr_append_right hpreimage (by rw [hcommit])
  have hseed : (Clvm.list [.atom (sha256 preimage), .atom bobSeed]).nth 1 = some (.atom bobSeed) := rfl
  have hopened : (Clvm.list [.atom (sha256 preimage), .atom bobSeed]).nth 0 =
      some (.atom (sha256 preimage)) := rfl
  rw [cValidator, if_neg (not_not.mpr hlength), hopened, hseed, hleft, hright, hamount]
  simp only [Option.bind_eq_bind, Option.bind_some, Clvm.bytes_atom]
  rw [if_pos trivial]
  rfl

/-- The message that Alice sends ahead shows Bob the cards that her next move deals. -/
theorem parseMessage_eq {preimage bobSeed : Bytes} (hpreimage : preimage.length = 16)
    (hseed : bobSeed.length = 16) :
    parseMessage sha256 (2 * stake) preimage (.list [.atom (sha256 preimage), .atom bobSeed]) =
      some (cardsReadable (dealt sha256 stake preimage bobSeed)) := by
  have hwhole : ∀ b : Bytes, b.length = 16 → substr b 0 16 = some b := by
    intro b hb
    rw [← List.append_nil b]
    exact (substr_append_left hb).trans (by rw [List.append_nil])
  change (if sha256 preimage = sha256 preimage then _ else none) = _
  rw [if_pos rfl, hwhole preimage hpreimage, hwhole bobSeed hseed]
  rfl

theorem dValidator_eq {coin : RefereeArgs} {d : UInt8} {commit aliceCards bobCards : Clvm} (evidence : Clvm)
    (hmove : coin.move = [d]) (hd : popcount [d] = 4) :
    dValidator hash coin (.list [commit, aliceCards, bobCards]) evidence =
      some (.list [.atom (hash .e), .list [.atom [d], aliceCards, bobCards, commit], .nat 18]) := by
  rw [dValidator, hmove, if_pos ⟨rfl, hd⟩]
  rfl

variable {T T' : Table} {t : Move} {localMove : List Bytes} {entropy : Bytes}

/-- A turn that goes on leads from one of the tables to another. -/
theorem Standing.turn (h : Standing sha256 stake T)
    (hturn : Play.Turns (rules sha256 hash (2 * stake)) T T' localMove entropy t) :
    Standing sha256 stake T' := by
  obtain ⟨hmade, ⟨coin, result, hcoin, hvalid, hstate⟩, ⟨reply, hreply, hnil, hmover⟩, hvalidator, hwaiter,
    hsize⟩ := hturn
  obtain ⟨state', validator', size', mover', waiter'⟩ := T'
  dsimp only at hstate hreply hmover hvalidator hwaiter hsize
  cases h with
  | a =>
    replace hvalid : aValidator hash coin .nil .nil = some result := hvalid
    obtain ⟨preimage, hpreimage, hmade⟩ := Option.bind_eq_some_iff.mp hmade
    cases hmade
    cases hvalidator
    cases hwaiter
    cases hreply
    cases hmover
    subst hsize
    rw [aValidator] at hvalid
    split_ifs at hvalid
    · cases hvalid
      cases hstate
      rw [hcoin.move]
      exact .b preimage 48 (length_of_substr hpreimage) (by decide)
    · cases hvalid
      cases hstate
  | b preimage size hpreimage hlimit =>
    replace hvalid : bValidator hash coin (.atom (sha256 preimage)) .nil = some result := hvalid
    obtain ⟨seed, hseed, hmade⟩ := Option.bind_eq_some_iff.mp hmade
    cases hmade
    cases hvalidator
    cases hwaiter
    cases hreply
    cases hmover
    subst hsize
    rw [bValidator] at hvalid
    split_ifs at hvalid
    · cases hvalid
      cases hstate
      exact .c preimage coin.move hpreimage
    · cases hvalid
      cases hstate
  | c preimage bobSeed hpreimage =>
    replace hvalid : cValidator sha256 hash coin (.list [.atom (sha256 preimage), .atom bobSeed]) .nil =
      some result := hvalid
    obtain ⟨salt, d, hsalt, hd, -, rfl⟩ := calpokerAliceHandlerC_made hmade
    have hmove := hcoin.move
    by_cases hcommit : (sha256 (salt ++ [d])).length = 32
    · rw [cValidator_eq .nil hmove hpreimage hcommit hcoin.amount] at hvalid
      cases hvalid
      cases hstate
      cases hvalidator
      cases hwaiter
      cases hreply
      cases hmover
      subst hsize
      exact .d preimage bobSeed salt d hsalt hd
    · have hlength : ¬ coin.move.length = 48 := by
        rw [hmove, List.length_append, hpreimage]
        omega
      rw [cValidator, if_pos hlength] at hvalid
      cases hvalid
      cases hstate
  | d preimage bobSeed salt d hsalt hd =>
    obtain ⟨b, hb, -, rfl⟩ := calpokerBobHandlerD_made (dealt_lengths sha256 stake preimage bobSeed).2 hmade
    let s : TerminalState :=
      ⟨b, intOfBytes (sha256 (preimage ++ bobSeed ++ bytesOfNat (2 * stake))), sha256 (salt ++ [d]), hb⟩
    replace hvalid : dValidator hash coin (.list [.atom s.aliceCommit, handToClvm s.aliceCards,
      handToClvm s.bobCards]) .nil = some result := hvalid
    rw [dValidator_eq .nil hcoin.move hb] at hvalid
    cases hvalid
    cases hstate
    cases hvalidator
    cases hwaiter
    subst hsize
    obtain ⟨readable, sel, split, hanswer, hbest⟩ := calpokerAliceHandlerD_eq (s := s) hsalt hd rfl
    replace hreply : calpokerAliceHandlerD (2 * stake) salt [d] s.toClvm [s.bobDiscards] = some reply := hreply
    obtain rfl := Option.some.inj (hanswer.symm.trans hreply)
    cases hmover
    exact .e s salt d sel split hbest
  | e s salt d sel split hbest =>
    cases hmade
    cases hvalidator

theorem standing_of_reached {moves : List Move}
    (h : Play.Reached (rules sha256 hash (2 * stake)) (· = start) moves T) : Standing sha256 stake T := by
  apply h.invariant (I := fun _ T => Standing sha256 stake T)
  · rintro T rfl
    exact .a
  · intro moves T T' localMove entropy t hstanding hturn
    exact hstanding.turn hturn

/-! The last move. -/

section Last

variable {s : TerminalState} {salt : Bytes} {d sel : UInt8} {split : ℤ}

theorem ShowsBest.covers (h : ShowsBest sha256 stake s salt d sel split) :
    s.CoversBob (2 * stake : ℕ) split d sel := by
  obtain ⟨hand, best, heval, -, hbest, rfl⟩ := h.best
  intro aliceHand bobHand halice hbob
  obtain rfl : hand = aliceHand := Option.some.inj (heval.symm.trans halice)
  obtain rfl := hbest.unique hbob
  exact le_rfl

/-- What `e.clsp` makes of Alice's last move, whatever share it leaves. -/
theorem ShowsBest.eValidator_eq (h : ShowsBest sha256 stake s salt d sel split) {coin : RefereeArgs}
    (hmove : coin.move = finalMove salt d sel) (hamount : coin.amount = bytesOfNat (2 * stake)) :
    ∃ hand, onehandcalc (pullFromBitfield (s.aliceFinal d) sel.toNat) = some hand ∧ Shaped hand ∧
      ∀ evidence, eValidator sha256 coin s.toClvm evidence = evidence.bytes.bind fun ev =>
        judge (2 * stake : ℕ) (intOfBytes coin.moverShare) (s.bobFinal d) hand ev := by
  obtain ⟨hand, hhand, hshaped⟩ := (aliceFinal_isHand (s := s) h.discards).pull h.selects
  obtain ⟨before, m, rfl, hm, hshare⟩ := Play.exists_afterMove coin
  refine ⟨hand, hhand, hshaped, fun evidence => ?_⟩
  rw [eValidator_counted (hm.trans hmove) h.salted h.discards h.selects hhand, if_neg (not_not.mpr h.commits),
    hshare]
  rw [afterMove_amount] at hamount
  rw [hamount, intOfBytes_bytesOfNat]

/-- Bob's best hand is evidence against a smaller share, and against no other. -/
theorem ShowsBest.judge_best (h : ShowsBest sha256 stake s salt d sel split) {hand : List ℕ}
    (hhand : onehandcalc (pullFromBitfield (s.aliceFinal d) sel.toNat) = some hand) (hshaped : Shaped hand) :
    ∃ e : UInt8, ∀ share, judge (2 * stake : ℕ) share (s.bobFinal d) hand [e] =
      if split ≤ share then some (.list [.nil]) else some .nil := by
  obtain ⟨best, indices, -, hbest, e, -, hfive, heval⟩ := handcalc_spec (bobFinal_isHand (s := s) h.discards)
  obtain ⟨shown, hshown, hshaped'⟩ := (bobFinal_isHand (s := s) h.discards).pull hfive
  obtain rfl : best = shown := Option.some.inj (heval.symm.trans hshown)
  obtain ⟨hand', best', hhand', -, hbest', hsplit⟩ := h.best
  obtain rfl : hand = hand' := Option.some.inj (hhand.symm.trans hhand')
  obtain rfl := hbest.unique hbest'
  refine ⟨e, fun share => ?_⟩
  rw [judge, pullOutCards_byte hfive, Option.bind_some, heval, Option.bind_some,
    hshaped.listCompare_eq hshaped', Option.bind_some, ← hsplit]

theorem ShowsBest.agrees (h : ShowsBest sha256 stake s salt d sel split) :
    Play.Agrees (rules sha256 hash (2 * stake))
      ⟨s.toClvm, .e, 18, .aliceE (finalMove salt d sel) (bytesOfInt split), .bobE⟩
      (calpokerAliceHandlerE hash (finalMove salt d sel) (bytesOfInt split)) := by
  obtain ⟨hlength, -⟩ := @substr_finalMove salt d sel h.salted
  refine ⟨rfl, hlength.le, fun coin hcoin => ?_, fun coin evidence result hcoin hresult => ?_⟩
  · obtain ⟨hand, hhand, hshaped, heq⟩ := h.eValidator_eq hcoin.move hcoin.amount
    obtain ⟨e, hbest⟩ := h.judge_best hhand hshaped
    refine ⟨.atom [e], .list [.nil], fun hgoes => absurd rfl hgoes, (heq (.atom [e])).trans ?_⟩
    have hshare : intOfBytes coin.moverShare = split := by
      rw [hcoin.share]
      exact intOfBytes_bytesOfInt split
    rw [Clvm.bytes_atom, Option.bind_some, hbest, if_pos hshare.ge]
  · obtain ⟨hand, hhand, hshaped, heq⟩ := h.eValidator_eq hcoin.move hcoin.amount
    obtain ⟨ev, -, hjudge⟩ := Option.bind_eq_some_iff.mp ((heq evidence).symm.trans hresult)
    have hshare : intOfBytes coin.moverShare = split := by
      rw [hcoin.share]
      exact intOfBytes_bytesOfInt split
    rw [hshare] at hjudge
    have hlast := judge_ne_nil (Int.natCast_nonneg _) h.discards h.covers hhand hshaped ev hjudge
    rw [hlast]
    exact ⟨rfl, .inr ⟨rfl, rfl⟩⟩

end Last

/-! The other moves. -/

/-- The handler declares the size of Alice's next move, the validator that of Bob's. -/
theorem a_disagrees {entropy : Bytes} (h : calpokerAliceHandlerA sha256 hash entropy = some t) :
    ¬ Play.Agrees (rules sha256 hash (2 * stake)) start t := by
  intro hagrees
  obtain ⟨coin, hcoin⟩ := Play.exists_coinOf (rules sha256 hash (2 * stake)) t
  obtain ⟨evidence, result, -, hvalid⟩ := hagrees.accepted coin hcoin
  have haligned := hagrees.aligned coin evidence result hcoin hvalid
  replace hvalid : aValidator hash coin .nil evidence = some result := hvalid
  obtain ⟨preimage, -, h⟩ := Option.bind_eq_some_iff.mp h
  cases h
  rw [aValidator] at hvalid
  split_ifs at hvalid
  · obtain rfl := Option.some.inj hvalid
    rcases haligned.size with hsize | ⟨hlast, -⟩
    · exact absurd (Option.some.inj hsize) (show Clvm.nat 16 ≠ .nat 48 by decide)
    · cases hlast
  · exact haligned.ne_nil (Option.some.inj hvalid).symm

variable (sha256 stake)

/-- The share is the least that `e.clsp` lets Alice leave. -/
def Demanded (T : Table) (t : Move) : Prop :=
  ∀ coin : RefereeArgs, coin.move = t.move → coin.amount = bytesOfNat (2 * stake) →
    intOfBytes coin.moverShare < intOfBytes t.moverShare →
      ∃ evidence, eValidator sha256 coin T.state evidence = some .nil

/-- The masks in a move pull the cards that the player named, and at the end those of Alice's best hand;
the share is what Bob's best hand is worth against it. -/
def Intends (T : Table) (localMove : List Bytes) (t : Move) : Prop :=
  match T.mover with
  | .aliceC preimage => ∃ commit bobSeed salt, ∃ d : UInt8, T.state = .list [commit, .atom bobSeed] ∧
      t.theirTurnHandler = some (.aliceD salt [d]) ∧ t.move = preimage ++ sha256 (salt ++ [d]) ∧
      (splitCards d.toNat (dealt sha256 stake preimage bobSeed).1).2 =
        (named localMove (dealt sha256 stake preimage bobSeed).1).reverse
  | .bobD => ∃ commit aliceCards bobCards, ∃ d : UInt8,
      T.state = .list [commit, handToClvm aliceCards, handToClvm bobCards] ∧ t.move = [d] ∧
      (splitCards d.toNat bobCards).2 = (named localMove bobCards).reverse
  | .aliceE .. => ∃ s salt d sel split, T.state = s.toClvm ∧ t.move = finalMove salt d sel ∧
      t.moverShare = bytesOfInt split ∧ ShowsBest sha256 stake s salt d sel split ∧
      Demanded sha256 stake T t
  | _ => True

variable {sha256 stake}

/-- In an honest play, handler and validator agree on every move but the first. -/
theorem deal_agrees_iff {moves : List Move} (hsha : ∀ b, (sha256 b).length = 32)
    (h : Play.Reached (rules sha256 hash (2 * stake)) (· = start) moves T)
    (hmade : (rules sha256 hash (2 * stake)).myTurn T.mover localMove T.state entropy = some t) :
    (Play.Agrees (rules sha256 hash (2 * stake)) T t ∧ Intends sha256 stake T localMove t) ↔
      T.validator ≠ .a := by
  cases standing_of_reached h with
  | a => exact iff_of_false (fun hand => a_disagrees hmade hand.1) fun hne => hne rfl
  | b preimage size hpreimage hsize =>
    obtain ⟨seed, hseed, hmade⟩ := Option.bind_eq_some_iff.mp hmade
    cases hmade
    have hlength : seed.length = 16 := length_of_substr hseed
    refine iff_of_true ⟨Play.agrees_of_answer rfl (hlength.le.trans hsize) fun coin evidence hcoin => ?_, trivial⟩
      fun heq => by cases heq
    exact ⟨_, if_pos ((congrArg List.length hcoin.move).trans hlength)⟩
  | c preimage bobSeed hpreimage =>
    obtain ⟨salt, d, hsalt, hd, hsplit, rfl⟩ := calpokerAliceHandlerC_made hmade
    refine iff_of_true ⟨Play.agrees_of_answer rfl ?_ fun coin evidence hcoin => ?_,
      _, bobSeed, salt, d, rfl, rfl, rfl, hsplit⟩ fun heq => by cases heq
    · rw [List.length_append, hpreimage, hsha]
    · exact ⟨_, cValidator_eq evidence hcoin.move hpreimage (hsha _) hcoin.amount⟩
  | d preimage bobSeed salt d hsalt hd =>
    obtain ⟨b, hb, hsplit, rfl⟩ := calpokerBobHandlerD_made (dealt_lengths sha256 stake preimage bobSeed).2 hmade
    refine iff_of_true ⟨Play.agrees_of_answer rfl le_rfl fun coin evidence hcoin => ?_,
      _, _, _, b, rfl, rfl, hsplit⟩ fun heq => by cases heq
    exact ⟨_, dValidator_eq evidence hcoin.move hb⟩
  | e s salt d sel split hbest =>
    cases hmade
    refine iff_of_true ⟨hbest.agrees, s, salt, d, sel, split, rfl, rfl, rfl, hbest, ?_⟩ fun heq => by cases heq
    intro coin hmove hamount hless
    obtain ⟨hand, hhand, hshaped, heq⟩ := hbest.eValidator_eq hmove hamount
    obtain ⟨e, hjudge⟩ := hbest.judge_best hhand hshaped
    replace hless := lt_of_lt_of_eq hless (intOfBytes_bytesOfInt split)
    refine ⟨.atom [e], ?_⟩
    rw [heq, Clvm.bytes_atom, Option.bind_some, hjudge, if_neg (not_le.mpr hless)]

end Standing

/-! The first two moves of a game with stakes of 100. -/

namespace Opening

def hashes : Validator → Bytes
  | .a => List.replicate 32 1
  | .b => List.replicate 32 2
  | .c => List.replicate 32 3
  | .d => List.replicate 32 4
  | .e => List.replicate 32 5

def game : Play.Rules Validator Handler (List Bytes) := rules Sha256.sha256 hashes (2 * 100)

def preimage : Bytes := List.replicate 16 0x22
def bobSeed : Bytes := List.replicate 16 0x44

def commitment : Move where
  label := "calpoker_alice_handler_a"
  move := Sha256.sha256 preimage
  outgoingValidator := .a
  outgoingValidatorHash := hashes .a
  incomingValidator := some .b
  incomingValidatorHash := hashes .b
  maxMoveSize := 48
  moverShare := []
  theirTurnHandler := some (.aliceB preimage)
  messageParser := none

def committed : Table := ⟨.atom commitment.move, .b, 48, .bobB, .aliceB preimage⟩

def seed : Move where
  label := "calpoker_bob_handler_b"
  move := bobSeed
  outgoingValidator := .b
  outgoingValidatorHash := hashes .b
  incomingValidator := some .c
  incomingValidatorHash := hashes .c
  maxMoveSize := 48
  moverShare := []
  theirTurnHandler := some .bobC
  messageParser := some .parseMessage

theorem made_commitment : game.myTurn start.mover [] start.state preimage = some commitment := rfl

theorem made_seed : game.myTurn committed.mover [] committed.state bobSeed = some seed := rfl

theorem reached_committed : Play.Reached game (· = start) [commitment] committed := by
  obtain ⟨coin, hcoin⟩ := Play.exists_coinOf game commitment
  have hlength : coin.move.length = 32 := by
    rw [hcoin.move]
    exact Sha256.sha256_length preimage
  refine .turn (.start rfl) ⟨made_commitment, ⟨coin, _, hcoin, if_pos hlength, ?_⟩,
    ⟨_, rfl, rfl, rfl⟩, rfl, rfl, rfl⟩
  rw [hcoin.move]
  rfl

/-- Bob's seed is agreed upon. -/
theorem seed_agrees : Play.Agrees game committed seed ∧ Intends Sha256.sha256 100 committed [] seed :=
  (deal_agrees_iff Sha256.sha256_length reached_committed made_seed).mpr (by decide)

/-- Alice's commitment is not what the validator expects. -/
theorem commitment_disagrees : Play.Reached game (· = start) [] start ∧
    game.myTurn start.mover [] start.state preimage = some commitment ∧
    ¬ Play.Agrees game start commitment :=
  ⟨.start rfl, made_commitment, a_disagrees made_commitment⟩

end Opening

end ChiaGaming.Calpoker
