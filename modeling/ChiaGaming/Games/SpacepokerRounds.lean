import ChiaGaming.Games.SpacepokerStreets

namespace ChiaGaming.Spacepoker.Betting

/-! The cards of the streets and of the showdown. -/

/-- Flop, turn and river of a deal. -/
def street (d : Deal) (n : ℕ) : List ℕ :=
  if n = 3 then (d.moverCards.drop 2).take 3
  else if n = 2 then (d.moverCards.drop 5).take 1
  else (d.moverCards.drop 6).take 1

section Cards

variable (sha256 : Bytes → Bytes)

theorem communityCardsForPos_swap (x y : Bytes) (n : ℕ) :
    communityCardsForPos sha256 x y n = communityCardsForPos sha256 y x n := by
  simp only [communityCardsForPos, makeCardsPair, logxor_comm x y]

/-- The cards shown on a street are those of the final deal. -/
theorem communityCardsForPos_eq {n : ℕ} (hlow : 1 ≤ n) (hn : n ≤ 3) (own opp : Bytes) :
    communityCardsForPos sha256 (image sha256 n own) (image sha256 n opp) n =
      street (makeAllCards sha256 own opp) n := by
  interval_cases n <;> rfl

/-- Whoever shows the cards, both players hold the same. -/
theorem makeAllCards_swap (a b : Bytes) : makeAllCards sha256 a b = swap (makeAllCards sha256 b a) := by
  simp only [makeAllCards, makeCards, swap, logxor_comm]

theorem street_swap {n : ℕ} (a b : Bytes) :
    street (makeAllCards sha256 b a) n = street (makeAllCards sha256 a b) n := by
  rw [makeAllCards_swap sha256 b a]
  rfl

theorem ownDeal_eq (p : Player) (own opp : Bytes) :
    ownDeal sha256 p own opp = makeAllCards sha256 own opp := by
  cases p with
  | alice => exact deriveAllCards_eq sha256 own opp
  | bob =>
    rw [ownDeal, deriveAllCards_eq, ← makeAllCards_swap]

theorem communityCards_eq {n : ℕ} (hlow : 1 ≤ n) (hn : n ≤ 3) (p : Player) (own opp : Bytes) :
    communityCards sha256 p (image sha256 n own) (image sha256 n opp) n =
      street (makeAllCards sha256 own opp) n := by
  cases p with
  | alice => exact communityCardsForPos_eq sha256 hlow hn own opp
  | bob =>
    rw [communityCards, communityCardsForPos_swap]
    exact communityCardsForPos_eq sha256 hlow hn own opp

theorem makeAllCards_hands (a b : Bytes) :
    ((makeAllCards sha256 a b).moverCards.length = 7 ∧ ∀ c ∈ (makeAllCards sha256 a b).moverCards, c < 16) ∧
    (makeAllCards sha256 a b).waiterCards.length = 7 ∧ ∀ c ∈ (makeAllCards sha256 a b).waiterCards, c < 16 := by
  have hlt : ∀ hole flop turn river c, c ∈ extractCards hole 2 ++ extractCards flop 3 ++ extractCards turn 1 ++
      extractCards river 1 → c < 16 := by
    intro hole flop turn river c hc
    simp only [List.mem_append] at hc
    rcases hc with ((hc | hc) | hc) | hc <;> exact extractCards_lt _ _ c hc
  exact ⟨⟨rfl, hlt _ _ _ _⟩, rfl, hlt _ _ _ _⟩

/-- There is a showdown for every deal. -/
theorem showdown_isSome (a b : Bytes) (newHalfPot n : Clvm) :
    ∃ readable, showdown (makeAllCards sha256 a b) newHalfPot n = some readable ∧
      readable.nth 3 = some (handToClvm (makeAllCards sha256 a b).moverCards) ∧
      readable.nth 4 = some (.nat (makeAllCards sha256 a b).moverBoost) ∧
      readable.nth 5 = some (handToClvm (makeAllCards sha256 a b).waiterCards) ∧
      readable.nth 6 = some (.nat (makeAllCards sha256 a b).waiterBoost) := by
  obtain ⟨⟨h7, hlt⟩, h7', hlt'⟩ := makeAllCards_hands sha256 a b
  obtain ⟨hand, bits, hcalc, -⟩ := spaceHandCalc_spec (makeAllCards sha256 a b).moverBoost (by omega) hlt
  obtain ⟨hand', bits', hcalc', -⟩ := spaceHandCalc_spec (makeAllCards sha256 a b).waiterBoost (by omega) hlt'
  rw [showdown, hcalc, hcalc']
  exact ⟨_, rfl, rfl, rfl, rfl, rfl⟩

end Cards

/-! What lies between two moves. -/

@[simp] theorem Player.other_other (p : Player) : p.other.other = p := by
  cases p <;> rfl

def seat (alicePre bobPre : Bytes) : Player → Bytes
  | .alice => alicePre
  | .bob => bobPre

theorem street_seat (sha256 : Bytes → Bytes) (a b : Bytes) (p : Player) (n : ℕ) :
    street (makeAllCards sha256 (seat a b p) (seat a b p.other)) n = street (makeAllCards sha256 a b) n := by
  cases p with
  | alice => rfl
  | bob => exact street_swap sha256 a b

section Tables

variable (sha256 : Bytes → Bytes) (hash : Validator → Bytes) (stake betUnit : ℕ) (a b : Bytes)

/-- Alice has committed to the tip of her chain. -/
def committed : Table where
  state := .list [.nat betUnit, .atom (image sha256 5 a)]
  validator := .commitB
  maxMoveSize := 32
  mover := .bobCommitB
  waiter := .aliceCommitB (buildImageChain sha256 a)

def commitAMove : Move where
  label := "spacepoker_alice_commitA"
  move := image sha256 5 a
  outgoingValidator := .commitA
  outgoingValidatorHash := hash .commitA
  incomingValidator := some .commitB
  incomingValidatorHash := hash .commitB
  maxMoveSize := 32
  moverShare := bytesOfInt stake
  theirTurnHandler := some (.aliceCommitB (buildImageChain sha256 a))
  messageParser := none

def commitBMove : Move where
  label := "spacepoker_bob_commitB"
  move := image sha256 4 b
  outgoingValidator := .commitB
  outgoingValidatorHash := hash .commitB
  incomingValidator := some .beginRound
  incomingValidatorHash := hash .beginRound
  maxMoveSize := 42
  moverShare := bytesOfInt (stake - betUnit)
  theirTurnHandler := some (.beginRoundTheir .bob (buildImageChain sha256 b) (bytesOfNat betUnit))
  messageParser := some (.parseDealMessage (buildImageChain sha256 b))

def beginTable (p : Player) (n halfPot : ℕ) : Table where
  state := beginState sha256 hash betUnit (seat a b p) (seat a b p.other) n halfPot
  validator := .beginRound
  maxMoveSize := 42
  mover := .beginRound p (buildImageChain sha256 (seat a b p)) (bytesOfNat betUnit)
  waiter := .beginRoundTheir p.other (buildImageChain sha256 (seat a b p.other)) (bytesOfNat betUnit)

def midTable (p : Player) (n halfPot : ℕ) (lastRaise : Bytes) : Table where
  state := midState sha256 betUnit (seat a b p) (seat a b p.other) n halfPot lastRaise
  validator := .midRound
  maxMoveSize := 42
  mover := .midRound p (buildImageChain sha256 (seat a b p)) (bytesOfNat betUnit)
  waiter := .midRoundTheir p.other (buildImageChain sha256 (seat a b p.other)) (bytesOfNat betUnit)

def revealTable (p : Player) (halfPot : ℕ) : Table where
  state := revealState sha256 (seat a b p) (seat a b p.other) halfPot
  validator := .reveal
  maxMoveSize := 17
  mover := .reveal p (buildImageChain sha256 (seat a b p))
  waiter := .revealTheir p.other (buildImageChain sha256 (seat a b p.other))

/-- A pong starts the street again. -/
def IsPong (t : Move) : Prop := t.outgoingValidator = .beginRound ∧ t.incomingValidator = some .beginRound

instance (t : Move) : Decidable (IsPong t) := inferInstanceAs (Decidable (_ ∧ _))

def pongs (moves : List Move) : ℕ := moves.countP fun t => IsPong t

/-- The tables that a play can come to, after its moves. -/
inductive Standing : List Move → Table → Prop where
  | beginRound {moves : List Move} {p : Player} {n halfPot : ℕ} (hlow : 1 ≤ n) (hn : n ≤ 4)
      (hpot : halfPot ≤ stake) (hpongs : pongs moves ≤ 1)
      (htoss : n = 4 → pongs moves = 0 ∧ p = .alice ∨ opens sha256 4 (seat a b p) (seat a b p.other) = true) :
      Standing moves (beginTable sha256 hash betUnit a b p n halfPot)
  | midRound {moves : List Move} {p : Player} {n halfPot pot : ℕ} {lastRaise : Bytes} (hlow : 1 ≤ n) (hn : n ≤ 4)
      (hraise : 0 ≤ intOfBytes lastRaise) (hpot : (halfPot : ℤ) + intOfBytes lastRaise = pot)
      (hle : pot ≤ stake) (hpongs : pongs moves ≤ 1) :
      Standing moves (midTable sha256 betUnit a b p n halfPot lastRaise)
  | reveal {moves : List Move} {p : Player} {halfPot : ℕ} (hpot : halfPot ≤ stake) (hpongs : pongs moves ≤ 1) :
      Standing moves (revealTable sha256 a b p halfPot)

end Tables

/-! One turn. -/

section Turns

variable {sha256 : Bytes → Bytes} {hash : Validator → Bytes} {stake betUnit : ℕ} {a b localMove entropy : Bytes}
  {p : Player} {n halfPot pot : ℕ} {lastRaise : Bytes}

theorem made_beginRound (hn : n ≤ 4) :
    (rules sha256 hash (2 * stake)).myTurn (beginTable sha256 hash betUnit a b p n halfPot).mover localMove
      (beginTable sha256 hash betUnit a b p n halfPot).state entropy =
    some (if opens sha256 n (seat a b p) (seat a b p.other)
      then openMove sha256 hash stake betUnit p (seat a b p) n halfPot localMove
      else pongMove sha256 hash stake betUnit p (seat a b p) n halfPot) := by
  cases p with
  | alice => exact beginRoundMove_eq (by omega)
  | bob => exact beginRoundMove_eq (by omega)

theorem made_midRound (hlow : 1 ≤ n) (hn : n ≤ 4) (hpot : (halfPot : ℤ) + intOfBytes lastRaise = pot) :
    (rules sha256 hash (2 * stake)).myTurn (midTable sha256 betUnit a b p n halfPot lastRaise).mover localMove
      (midTable sha256 betUnit a b p n halfPot lastRaise).state entropy =
    if localMove ≠ [] then (substr entropy 0 32).map fun padding =>
      raiseMove sha256 hash stake betUnit p (seat a b p) pot padding localMove
    else if n = 1 then some (lastCallMove sha256 hash stake p (seat a b p) pot)
    else some (callMove sha256 hash stake betUnit p (seat a b p) n pot) := by
  cases p with
  | alice => exact midRoundMove_eq hlow (by omega) hpot
  | bob => exact midRoundMove_eq hlow (by omega) hpot

theorem received_open (hsha : ∀ b, (sha256 b).length = 32) (hlow : 1 ≤ n) (hn : n ≤ 4)
    (hopens : opens sha256 n (seat a b p) (seat a b p.other) = true) (state : Clvm) (share : Bytes) :
    ∃ readable, (rules sha256 hash (2 * stake)).theirTurn (beginTable sha256 hash betUnit a b p n halfPot).waiter
      (beginTable sha256 hash betUnit a b p n halfPot).state state (image sha256 n (seat a b p) ++ localMove) share =
        some ⟨readable, .nil,
          some (.midRound p.other (buildImageChain sha256 (seat a b p.other)) (bytesOfNat betUnit)), none⟩ ∧
      (n ≠ 4 → readable = .pair (text "open") (.pair (.atom localMove) (.pair (.nat halfPot)
        (handToClvm (street (makeAllCards sha256 a b) n))))) := by
  obtain ⟨k, rfl⟩ := Nat.exists_eq_add_of_le' hlow
  have hreply := @open_reply sha256 hash betUnit (seat a b p) (seat a b p.other) (k + 1) halfPot p.other localMove
    state (by omega) (image_length sha256 hsha k (seat a b p)) hopens
  obtain ⟨readable, hreply, hcards⟩ := hreply
  refine ⟨readable, hreply, fun hne => ?_⟩
  rw [hcards hne, communityCardsForPos_swap, communityCardsForPos_eq sha256 hlow (by omega), street_seat]

theorem received_call (hsha : ∀ b, (sha256 b).length = 32) (hlow : 2 ≤ n) (hn : n ≤ 4)
    (hpot : (halfPot : ℤ) + intOfBytes lastRaise = pot) (state : Clvm) (share : Bytes) :
    (rules sha256 hash (2 * stake)).theirTurn (midTable sha256 betUnit a b p n halfPot lastRaise).waiter
      (midTable sha256 betUnit a b p n halfPot lastRaise).state state (image sha256 (n - 1) (seat a b p)) share =
        some ⟨.pair (text "call") (.pair (.int pot) (.pair (.nat n)
            (handToClvm (street (makeAllCards sha256 a b) (n - 1))))), .nil,
          some (.beginRound p.other (buildImageChain sha256 (seat a b p.other)) (bytesOfNat betUnit)),
          some (image sha256 (n - 1) (seat a b p.other))⟩ := by
  obtain ⟨k, rfl⟩ := Nat.exists_eq_add_of_le' hlow
  have hlength : (image sha256 (k + 2 - 1) (seat a b p)).length = 32 := image_length sha256 hsha k (seat a b p)
  have hreply := @call_reply sha256 betUnit (seat a b p) (seat a b p.other) (k + 2) halfPot pot p.other lastRaise
    state hpot hlow (by omega) hlength
  rw [communityCards_eq sha256 (by omega) (by omega), ← street_swap, street_seat] at hreply
  exact hreply

theorem received_lastCall (hpot : (halfPot : ℤ) + intOfBytes lastRaise = pot) (state : Clvm) (share : Bytes)
    (hlength : (seat a b p).length = 16) :
    ∃ readable, (rules sha256 hash (2 * stake)).theirTurn (midTable sha256 betUnit a b p 1 halfPot lastRaise).waiter
      (midTable sha256 betUnit a b p 1 halfPot lastRaise).state state (seat a b p) share =
        some ⟨readable, .nil, some (.reveal p.other (buildImageChain sha256 (seat a b p.other))), none⟩ ∧
      readable.nth 3 = some (handToClvm (makeAllCards sha256 (seat a b p.other) (seat a b p)).moverCards) ∧
      readable.nth 4 = some (.nat (makeAllCards sha256 (seat a b p.other) (seat a b p)).moverBoost) ∧
      readable.nth 5 = some (handToClvm (makeAllCards sha256 (seat a b p.other) (seat a b p)).waiterCards) ∧
      readable.nth 6 = some (.nat (makeAllCards sha256 (seat a b p.other) (seat a b p)).waiterBoost) := by
  obtain ⟨readable, hshow, hcards⟩ := showdown_isSome sha256 (seat a b p.other) (seat a b p) (.int pot) (.nat 1)
  have h0 : (buildImageChain sha256 (seat a b p.other))[0]? = some (seat a b p.other) := rfl
  have h1 : (midTable sha256 betUnit a b p 1 halfPot lastRaise).state.nth 1 = some (.nat halfPot) := rfl
  have h2 : (midTable sha256 betUnit a b p 1 halfPot lastRaise).state.nth 2 = some (.atom lastRaise) := rfl
  have h5 : (midTable sha256 betUnit a b p 1 halfPot lastRaise).state.nth 5 = some (.nat 1) := rfl
  refine ⟨readable, ?_, hcards⟩
  have hreply : midRoundReply sha256 p.other (buildImageChain sha256 (seat a b p.other)) (bytesOfNat betUnit)
      (midTable sha256 betUnit a b p 1 halfPot lastRaise).state (seat a b p) =
        some ⟨readable, .nil, some (.reveal p.other (buildImageChain sha256 (seat a b p.other))), none⟩ := by
    rw [midRoundReply, h0, h1, h2, h5]
    simp only [Clvm.nat, Clvm.bytes_atom, Option.bind_eq_bind, Option.bind_some, intOfBytes_bytesOfNat, hpot,
      ownDeal_eq]
    rw [if_pos (show (seat a b p).length ≤ 32 by omega), if_pos trivial]
    rw [Clvm.nat] at hshow
    rw [hshow]
    rfl
  cases p with
  | alice => exact hreply
  | bob => exact hreply

/-- Alice commits to the tip of her chain. -/
theorem leads_commitA (hsha : ∀ b, (sha256 b).length = 32) (ha : substr entropy 0 16 = some a) :
    Play.Leads (rules sha256 hash (2 * stake)) (start betUnit) (committed sha256 betUnit a) localMove entropy
      (commitAMove sha256 hash stake a) := by
  have htip : (buildImageChain sha256 a)[5]? = some (image sha256 5 a) := rfl
  refine ⟨?_, rfl, fun coin evidence hcoin => ?_, ⟨_, rfl, rfl, rfl⟩, rfl, rfl, rfl⟩
  · change spacepokerAliceCommitA sha256 hash (2 * stake) entropy = _
    rw [spacepokerAliceCommitA, ha]
    simp only [Option.bind_eq_bind, Option.bind_some, htip, half_eq]
    rfl
  · have hlength : coin.move.length = 32 := by
      rw [hcoin.move]
      exact image_length sha256 hsha 4 a
    have hshare : coin.moverShare = bytesOfInt (intOfBytes coin.amount / 2) := by
      rw [hcoin.share, hcoin.amount, intOfBytes_bytesOfNat]
      exact congrArg bytesOfInt half_eq.symm
    refine (if_pos ⟨hlength, hshare⟩).trans ?_
    rw [hcoin.move]
    rfl

/-- Bob commits to an image of his own, and both stake the bet unit. -/
theorem leads_commitB (hsha : ∀ b, (sha256 b).length = 32) (hb : substr entropy 0 16 = some b) :
    Play.Leads (rules sha256 hash (2 * stake)) (committed sha256 betUnit a)
      (beginTable sha256 hash betUnit a b .alice 4 betUnit) localMove entropy
      (commitBMove sha256 hash stake betUnit b) := by
  have htip : (buildImageChain sha256 b)[4]? = some (image sha256 4 b) := rfl
  have h0 : (committed sha256 betUnit a).state.nth 0 = some (.nat betUnit) := rfl
  refine ⟨?_, rfl, fun coin evidence hcoin => ?_, ⟨_, rfl, rfl, rfl⟩, rfl, rfl, rfl⟩
  · change spacepokerBobCommitB sha256 hash (2 * stake) (committed sha256 betUnit a).state entropy = _
    rw [spacepokerBobCommitB, hb, h0]
    simp only [Option.bind_eq_bind, Option.bind_some, htip, half_eq, Clvm.nat, Clvm.bytes_atom,
      intOfBytes_bytesOfNat]
    rfl
  · exact commitBValidator_eq (image_length sha256 hsha 3 b) hcoin.move hcoin.amount hcoin.share evidence

/-- The first player of a street opens it. -/
theorem leads_open (hsha : ∀ b, (sha256 b).length = 32) (hlow : 1 ≤ n) (hn : n ≤ 4)
    (hopens : opens sha256 n (seat a b p) (seat a b p.other) = true) (hraise : 0 ≤ intOfBytes localMove)
    (hle : halfPot + intOfBytes localMove ≤ stake) :
    Play.Leads (rules sha256 hash (2 * stake)) (beginTable sha256 hash betUnit a b p n halfPot)
      (midTable sha256 betUnit a b p.other n halfPot localMove) localMove entropy
      (openMove sha256 hash stake betUnit p (seat a b p) n halfPot localMove) := by
  obtain ⟨k, rfl⟩ := Nat.exists_eq_add_of_le' hlow
  have hlength := image_length sha256 hsha k (seat a b p)
  obtain ⟨readable, hreply, -⟩ := received_open hsha hlow hn hopens
    (midTable sha256 betUnit a b p.other (k + 1) halfPot localMove).state (bytesOfInt (stake - halfPot))
  refine ⟨?_, rfl, fun coin evidence hcoin => ?_, ⟨_, hreply, rfl, rfl⟩, rfl, ?_, rfl⟩
  · rw [made_beginRound hn, if_pos hopens]
  · refine (beginRoundValidator_eq hlength hcoin.move hcoin.amount hcoin.share evidence).trans ?_
    rw [if_pos hopens, if_pos ⟨hraise, hle⟩, midTable, Player.other_other]
    rfl
  · rw [midTable, Player.other_other]
    rfl

/-- Where Alice loses the toss she leaves the first street to Bob. -/
theorem leads_pong (hsha : ∀ b, (sha256 b).length = 32) (hopens : opens sha256 4 a b = false) :
    Play.Leads (rules sha256 hash (2 * stake)) (beginTable sha256 hash betUnit a b .alice 4 halfPot)
      (beginTable sha256 hash betUnit a b .bob 4 halfPot) localMove entropy
      (pongMove sha256 hash stake betUnit .alice a 4 halfPot) := by
  have hlength := image_length sha256 hsha 3 a
  have hloses : opens sha256 4 a b ≠ true := by
    rw [hopens]
    exact Bool.false_ne_true
  have hreply := @pong_reply sha256 hash betUnit a b halfPot
    (beginTable sha256 hash betUnit a b .bob 4 halfPot).state hlength hopens
  obtain ⟨readable, hreply⟩ := hreply
  refine ⟨?_, rfl, fun coin evidence hcoin => ?_, ⟨_, hreply, rfl, rfl⟩, rfl, rfl, rfl⟩
  · rw [made_beginRound le_rfl]
    exact congrArg some (if_neg hloses)
  · have hmove : coin.move = image sha256 4 a ++ [] := hcoin.move.trans (List.append_nil _).symm
    refine (beginRoundValidator_eq hlength hmove hcoin.amount hcoin.share evidence).trans ?_
    exact (if_neg hloses).trans (if_pos rfl)

theorem leads_raise (hlow : 1 ≤ n) (hn : n ≤ 4) (hpot : (halfPot : ℤ) + intOfBytes lastRaise = pot)
    {padding : Bytes} (hpadding : substr entropy 0 32 = some padding) (hne : localMove ≠ [])
    (hraise : 0 ≤ intOfBytes localMove) (hle : pot + intOfBytes localMove ≤ stake) :
    Play.Leads (rules sha256 hash (2 * stake)) (midTable sha256 betUnit a b p n halfPot lastRaise)
      (midTable sha256 betUnit a b p.other n pot localMove) localMove entropy
      (raiseMove sha256 hash stake betUnit p (seat a b p) pot padding localMove) := by
  have hlength : padding.length = 32 := length_of_substr hpadding
  have hreply := @raise_reply sha256 betUnit (seat a b p) (seat a b p.other) n halfPot pot p.other localMove
    lastRaise padding (midTable sha256 betUnit a b p.other n pot localMove).state hpot hlength hne
  obtain ⟨readable, hreply⟩ := hreply
  refine ⟨?_, rfl, fun coin evidence hcoin => ?_, ⟨_, hreply, rfl, rfl⟩, rfl, ?_, rfl⟩
  · rw [made_midRound hlow hn hpot, if_pos hne, hpadding]
    rfl
  · refine (midRoundValidator_raise hpot hlength hne hcoin.move hcoin.amount hcoin.share evidence).trans ?_
    rw [if_pos ⟨hraise, hle⟩, midTable, Player.other_other]
    rfl
  · rw [midTable, Player.other_other]
    rfl

theorem leads_call (hsha : ∀ b, (sha256 b).length = 32) (hlow : 2 ≤ n) (hn : n ≤ 4)
    (hpot : (halfPot : ℤ) + intOfBytes lastRaise = pot) :
    Play.Leads (rules sha256 hash (2 * stake)) (midTable sha256 betUnit a b p n halfPot lastRaise)
      (beginTable sha256 hash betUnit a b p.other (n - 1) pot) [] entropy
      (callMove sha256 hash stake betUnit p (seat a b p) n pot) := by
  have hone : n ≠ 1 := by omega
  have hlength : (image sha256 (n - 1) (seat a b p)).length = 32 := by
    obtain ⟨k, rfl⟩ := Nat.exists_eq_add_of_le' hlow
    exact image_length sha256 hsha k (seat a b p)
  have hreply := @received_call sha256 hash stake betUnit a b p n halfPot pot lastRaise hsha hlow hn hpot
    (beginTable sha256 hash betUnit a b p.other (n - 1) pot).state (bytesOfInt (stake - pot))
  refine ⟨?_, rfl, fun coin evidence hcoin => ?_, ⟨_, hreply, rfl, rfl⟩, rfl, ?_, rfl⟩
  · rw [made_midRound (by omega) hn hpot, if_neg (not_not.mpr rfl), if_neg hone]
  · refine (midRoundValidator_call hpot (by omega) (hlength.trans (if_neg hone).symm) hcoin.move hcoin.amount
      hcoin.share evidence).trans ?_
    rw [if_neg hone, beginTable, Player.other_other]
    rfl
  · rw [beginTable, Player.other_other]
    rfl

theorem leads_lastCall (hlength : (seat a b p).length = 16)
    (hpot : (halfPot : ℤ) + intOfBytes lastRaise = pot) :
    Play.Leads (rules sha256 hash (2 * stake)) (midTable sha256 betUnit a b p 1 halfPot lastRaise)
      (revealTable sha256 a b p.other pot) [] entropy (lastCallMove sha256 hash stake p (seat a b p) pot) := by
  have hreply := @received_lastCall sha256 hash stake betUnit a b p halfPot pot lastRaise hpot
    (revealTable sha256 a b p.other pot).state (bytesOfInt (stake - pot)) hlength
  obtain ⟨readable, hreply, -⟩ := hreply
  refine ⟨?_, rfl, fun coin evidence hcoin => ?_, ⟨_, hreply, rfl, rfl⟩, rfl, ?_, rfl⟩
  · rw [made_midRound le_rfl (by omega) hpot, if_neg (not_not.mpr rfl), if_pos rfl]
  · refine (midRoundValidator_call hpot le_rfl hlength hcoin.move hcoin.amount hcoin.share evidence).trans ?_
    rw [if_pos rfl, revealTable, Player.other_other]
    rfl
  · rw [revealTable, Player.other_other]
    rfl

/-! Every turn. -/

theorem pongs_cons {moves : List Move} {t : Move} (h : ¬ IsPong t) : pongs (t :: moves) = pongs moves :=
  List.countP_cons_of_neg (by simpa using h)

theorem pongs_cons_of_pong {moves : List Move} {t : Move} (h : IsPong t) :
    pongs (t :: moves) = pongs moves + 1 :=
  List.countP_cons_of_pos (by simpa using h)

/-- A street that is not the first needs no toss. -/
theorem opens_of_ne (h : n ≠ 4) (own opp : Bytes) : opens sha256 n own opp = true := if_neg h

/-- Only Alice can lose the toss, and only on the first street. -/
theorem pong_cases (h : opens sha256 n (seat a b p) (seat a b p.other) = false) {moves : List Move}
    (htoss : n = 4 → pongs moves = 0 ∧ p = .alice ∨ opens sha256 4 (seat a b p) (seat a b p.other) = true) :
    n = 4 ∧ p = .alice ∧ pongs moves = 0 := by
  by_cases hfour : n = 4
  · subst hfour
    rcases htoss rfl with ⟨hzero, halice⟩ | hopens
    · exact ⟨rfl, halice, hzero⟩
    · rw [h] at hopens
      cases hopens
  · rw [opens_of_ne hfour] at h
    cases h

theorem seat_length (ha : a.length = 16) (hb : b.length = 16) : (seat a b p).length = 16 := by
  cases p with
  | alice => exact ha
  | bob => exact hb

/-- The validator sees to it that an open keeps to the stakes, -/
theorem open_within {T' : Table} {t : Move} (hsha : ∀ b, (sha256 b).length = 32) (hlow : 1 ≤ n) (hn : n ≤ 4)
    (hopens : opens sha256 n (seat a b p) (seat a b p.other) = true)
    (hturn : Play.Turns (rules sha256 hash (2 * stake)) (beginTable sha256 hash betUnit a b p n halfPot) T'
      localMove entropy t) :
    0 ≤ intOfBytes localMove ∧ halfPot + intOfBytes localMove ≤ stake := by
  obtain ⟨k, rfl⟩ := Nat.exists_eq_add_of_le' hlow
  have hmade := hturn.made
  rw [made_beginRound hn, if_pos hopens] at hmade
  cases hmade
  obtain ⟨coin, result, hcoin, hvalid, hstate⟩ := hturn.valid
  have hanswer := (beginRoundValidator_eq (image_length sha256 hsha k (seat a b p)) hcoin.move hcoin.amount
    hcoin.share .nil).symm.trans hvalid
  by_contra hlimits
  rw [if_pos hopens, if_neg hlimits] at hanswer
  cases hanswer
  cases hstate

/-- and a raise as well. -/
theorem raise_within {T' : Table} {t : Move} (hlow : 1 ≤ n) (hn : n ≤ 4)
    (hpot : (halfPot : ℤ) + intOfBytes lastRaise = pot) (hne : localMove ≠ [])
    (hturn : Play.Turns (rules sha256 hash (2 * stake)) (midTable sha256 betUnit a b p n halfPot lastRaise) T'
      localMove entropy t) :
    ∃ padding, substr entropy 0 32 = some padding ∧ 0 ≤ intOfBytes localMove ∧
      pot + intOfBytes localMove ≤ stake := by
  have hmade := hturn.made
  rw [made_midRound hlow hn hpot, if_pos hne] at hmade
  obtain ⟨padding, hpadding, hmade⟩ := Option.map_eq_some_iff.mp hmade
  subst hmade
  obtain ⟨coin, result, hcoin, hvalid, hstate⟩ := hturn.valid
  have hanswer := (midRoundValidator_raise hpot (length_of_substr hpadding) hne hcoin.move hcoin.amount
    hcoin.share .nil).symm.trans hvalid
  refine ⟨padding, hpadding, ?_⟩
  by_contra hlimits
  rw [if_neg hlimits] at hanswer
  cases hanswer
  cases hstate

theorem made_reveal {t : Move}
    (hmade : (rules sha256 hash (2 * stake)).myTurn (revealTable sha256 a b p halfPot).mover localMove
      (revealTable sha256 a b p halfPot).state entropy = some t) :
    ∃ answer, handlerEnd sha256 .nil (hash .reveal) ("spacepoker_" ++ p.name ++ "_end").toUTF8.toList
      (buildImageChain sha256 (seat a b p)) (2 * stake : ℕ) (revealTable sha256 a b p halfPot).state = some answer ∧
      endMove hash p answer = some t := by
  cases p with
  | alice => exact Option.bind_eq_some_iff.mp hmade
  | bob => exact Option.bind_eq_some_iff.mp hmade

/-- One turn. -/
theorem Standing.turn {moves : List Move} {T T' : Table} {t : Move} (hsha : ∀ b, (sha256 b).length = 32)
    (ha : a.length = 16) (hb : b.length = 16) (h : Standing sha256 hash stake betUnit a b moves T)
    (hturn : Play.Turns (rules sha256 hash (2 * stake)) T T' localMove entropy t) :
    Standing sha256 hash stake betUnit a b (t :: moves) T' := by
  cases h with
  | @beginRound p n halfPot hlow hn hpot hpongs htoss =>
    cases hopens : opens sha256 n (seat a b p) (seat a b p.other) with
    | false =>
      obtain ⟨rfl, rfl, hzero⟩ := pong_cases hopens htoss
      obtain ⟨rfl, rfl⟩ := (leads_pong hsha hopens).unique hturn
      have hpong : pongs (pongMove sha256 hash stake betUnit .alice a 4 halfPot :: moves) = 1 := by
        rw [pongs_cons_of_pong ⟨rfl, rfl⟩, hzero]
      exact .beginRound hlow hn hpot hpong.le fun _ => .inr (moverOpens_of_pong hopens)
    | true =>
      obtain ⟨hraise, hle⟩ := open_within hsha hlow hn hopens hturn
      obtain ⟨rfl, rfl⟩ := (leads_open hsha hlow hn hopens hraise hle).unique hturn
      obtain ⟨raise, hnat⟩ := Int.eq_ofNat_of_zero_le hraise
      have hpot' : (halfPot : ℤ) + intOfBytes localMove = (halfPot + raise : ℕ) := by omega
      refine .midRound hlow hn hraise hpot' (by omega) ?_
      rwa [pongs_cons fun h => by cases h.2]
  | @midRound p n halfPot pot lastRaise hlow hn hraise hpot hle hpongs =>
    by_cases hne : localMove = []
    · subst hne
      by_cases hone : n = 1
      · subst hone
        obtain ⟨rfl, rfl⟩ := (leads_lastCall (seat_length ha hb) hpot).unique hturn
        refine .reveal hle ?_
        rwa [pongs_cons fun h => by cases h.1]
      · obtain ⟨rfl, rfl⟩ := (leads_call hsha (by omega) hn hpot).unique hturn
        refine .beginRound (by omega) (by omega) hle ?_ fun hfour => by omega
        rwa [pongs_cons fun h => by cases h.1]
    · obtain ⟨padding, hpadding, hraise', hle'⟩ := raise_within hlow hn hpot hne hturn
      obtain ⟨rfl, rfl⟩ := (leads_raise hlow hn hpot hpadding hne hraise' hle').unique hturn
      obtain ⟨raise, hnat⟩ := Int.eq_ofNat_of_zero_le hraise'
      have hpot' : (pot : ℤ) + intOfBytes localMove = (pot + raise : ℕ) := by omega
      refine .midRound hlow hn hraise' hpot' (by omega) ?_
      rwa [pongs_cons fun h => by cases h.1]
  | @reveal p halfPot hpot hpongs =>
    obtain ⟨answer, -, hanswer⟩ := made_reveal hturn.made
    obtain ⟨m, -, hmove⟩ := Option.bind_eq_some_iff.mp hanswer
    cases hmove
    cases hturn.validator

end Turns

end ChiaGaming.Spacepoker.Betting
