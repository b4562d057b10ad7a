import ChiaGaming.Games.Spacepoker
import ChiaGaming.Lib.Sha256

namespace ChiaGaming.Spacepoker

theorem extractCards_length (value : ℤ) (n : ℕ) : (extractCards value n).length = n := by
  induction n generalizing value with
  | zero => rfl
  | succ n ih => simp [extractCards, ih]

theorem extractCards_lt (value : ℤ) (n : ℕ) : ∀ c ∈ extractCards value n, c < 16 := by
  induction n generalizing value with
  | zero => simp [extractCards]
  | succ n ih =>
    intro c hc
    rcases List.mem_cons.mp hc with rfl | hc
    · have := Int.emod_lt_of_pos value (show (0 : ℤ) < 13 by norm_num)
      omega
    · exact ih _ c hc

/-- Five cards always have a value. -/
theorem spaceHandEval_isSome {cards : List ℕ} (boost : ℕ) (h5 : cards.length = 5)
    (hlt : ∀ c ∈ cards, c < 16) : (spaceHandEval cards boost).isSome := by
  have hne : cards ≠ [] := by
    rintro rfl
    simp at h5
  obtain ⟨groups, hgroups, hsum, hone, -⟩ := groups_spec hne hlt
  have hsorted := atomsort_sorted groups
  simp only [spaceHandEval, hgroups, Option.bind_eq_bind, Option.bind_some]
  generalize atomsort groups = raw at hsum hone hsorted
  obtain ⟨g, gs, rfl⟩ : ∃ g gs, raw = g :: gs := by
    cases raw with
    | nil => simp [h5] at hsum
    | cons g gs => exact ⟨g, gs, rfl⟩
  have h0 : ((g :: gs).map groupCount ++ boost :: (g :: gs).map groupRank)[0]? =
      some (groupCount g) := rfl
  rw [h0, Option.bind_some]
  split
  · rfl
  · rename_i h1
    have h5' := length_le_of_sorted_groups rfl hsorted (not_not.mp h1)
    have hlen : ((g :: gs).map groupCount ++ boost :: (g :: gs).map groupRank).length =
        2 * (g :: gs).length + 1 := by
      rw [List.length_append, List.length_cons, List.length_map, List.length_map]
      omega
    rw [List.getElem?_eq_getElem (by omega), List.getElem?_eq_getElem (by omega),
      Option.bind_some, Option.bind_some]
    split <;> rfl

/-- The calculator finds the best value, and its mask selects five cards with that value. -/
theorem spaceHandCalc_spec {cards : List ℕ} (boost : ℕ) (h5 : 5 ≤ cards.length)
    (hlt : ∀ c ∈ cards, c < 16) :
    ∃ hand bits, spaceHandCalc cards boost = some (hand, bits) ∧
      IsBest (spaceHandEval · boost) cards hand ∧
      bits < 2 ^ cards.length ∧ (pullFromBitfield cards bits).length = 5 ∧
      spaceHandEval (pullFromBitfield cards bits) boost = some hand := by
  obtain ⟨hand, l, hcalc, hs, hl, heval, hbest⟩ := bestSelection_spec bitMark 0 Clvm.nat h5
    (fun five hf hf5 => spaceHandEval_isSome boost hf5 fun c hc => hlt c (hf.subset hc))
  have hpull := pullFromBitfield_markAll cards l hs
  refine ⟨hand, _, hcalc, hbest, markAll_bitMark_lt cards l hs, ?_, ?_⟩
  · rw [hpull, List.length_map, hl]
  · rw [hpull]
    exact heval

theorem isBest_of_spaceHandCalc {cards : List ℕ} {boost : ℕ} {hand : List ℕ} (bits : ℕ)
    (h : spaceHandCalc cards boost = some (hand, bits)) (h5 : 5 ≤ cards.length)
    (hlt : ∀ c ∈ cards, c < 16) : IsBest (spaceHandEval · boost) cards hand := by
  obtain ⟨hand', bits', hcalc, hbest, -⟩ := spaceHandCalc_spec boost h5 hlt
  rw [hcalc, Option.some.injEq, Prod.mk.injEq] at h
  exact h.1 ▸ hbest

/-- A showdown: both preimages, what each player staked and how much of it is in the pot. -/
structure EndState where
  moverPre : Bytes
  waiterPre : Bytes
  stake : ℕ
  halfPot : ℕ
  moverPre_length : moverPre.length = 16
  waiterPre_length : waiterPre.length = 16
  stake_pos : 0 < stake
  halfPot_le : halfPot ≤ stake

section Showdown

variable (sha256 : Bytes → Bytes) (s : EndState)

def EndState.toClvm : Clvm := .list [.nat s.halfPot, .atom (sha256 s.moverPre), .atom s.waiterPre]

def EndState.deal : Deal := makeAllCards sha256 s.moverPre s.waiterPre

/-- The reveal with a selection and a share. -/
def EndState.reveal (bits : Bytes) (share : Bytes) : MoveSolution :=
  ⟨s.moverPre ++ bits, [], share, []⟩

/-- What the rules give to the opponent of the player who reveals, when the best hands compare
as `result`. -/
def EndState.dueToOpponent (result : ℤ) : ℤ :=
  if result = 0 then s.stake else if result = 1 then s.stake - s.halfPot else s.stake + s.halfPot

/-- A timeout of the coin pays `x` to its mover and `y` to its waiter. -/
def PaysOnTimeout (run : Run) (a : RefereeArgs) (x y : ℤ) : Prop :=
  ∀ moverPh waiterPh, moverPh ≠ waiterPh →
    ∃ conds, refereePuzzle sha256 run a (timeoutSolution a moverPh waiterPh) = some conds ∧
      paidTo moverPh conds = x ∧ paidTo waiterPh conds = y

end Showdown

section Proofs

variable {sha256 : Bytes → Bytes} {s : EndState} {run : Run} {a coin : RefereeArgs}

theorem EndState.moverCards_length : (s.deal sha256).moverCards.length = 7 := by
  simp [deal, makeAllCards, makeCards, extractCards_length]

theorem EndState.waiterCards_length : (s.deal sha256).waiterCards.length = 7 := by
  simp [deal, makeAllCards, makeCards, extractCards_length]

theorem EndState.moverCards_lt : ∀ c ∈ (s.deal sha256).moverCards, c < 16 := by
  intro c hc
  simp only [deal, makeAllCards, makeCards, List.mem_append] at hc
  rcases hc with ((hc | hc) | hc) | hc <;> exact extractCards_lt _ _ c hc

theorem EndState.waiterCards_lt : ∀ c ∈ (s.deal sha256).waiterCards, c < 16 := by
  intro c hc
  simp only [deal, makeAllCards, makeCards, List.mem_append] at hc
  rcases hc with ((hc | hc) | hc) | hc <;> exact extractCards_lt _ _ c hc

theorem paysOnTimeout_iff (x y : ℤ) :
    PaysOnTimeout sha256 run a x y ↔
      intOfBytes a.moverShare = x ∧ intOfBytes a.amount - intOfBytes a.moverShare = y := by
  constructor
  · intro h
    obtain ⟨conds, hc, hx, hy⟩ := h [1] [2] (by decide)
    obtain ⟨conds', hc', hx', hy'⟩ :=
      @timeout_pays sha256 run a [1] [2] (by decide)
    obtain rfl : conds' = conds := Option.some.inj (hc'.symm.trans hc)
    exact ⟨hx'.symm.trans hx, hy'.symm.trans hy⟩
  · rintro ⟨rfl, rfl⟩ moverPh waiterPh hne
    exact timeout_pays hne

/-- A mask of the calculator is one byte with five bits. -/
theorem bitfield_byte {cards : List ℕ} {bits : ℕ} (h7 : cards.length = 7)
    (hlt : bits < 2 ^ cards.length) (h5 : (pullFromBitfield cards bits).length = 5) :
    (bytesOfNat bits).length = 1 ∧ popcount (bytesOfNat bits) = 5 := by
  have hpop := popcountFuel_eq_length cards 8 bits hlt (by omega)
  have hpos : 0 < bits := by
    rcases Nat.eq_zero_or_pos bits with rfl | h
    · rw [h5] at hpop
      simp [popcountFuel] at hpop
    · exact h
  rw [h7] at hlt
  have hone := bytesOfNat_length_one hpos (by omega)
  refine ⟨hone, ?_⟩
  rw [popcount, hone, natOfBytes_bytesOfNat, hpop, h5]

theorem spaceHandCalc_of_isBest {cards : List ℕ} {boost : ℕ} {hand : List ℕ}
    (h7 : cards.length = 7) (hlt : ∀ c ∈ cards, c < 16) (hbest : IsBest (spaceHandEval · boost) cards hand) :
    ∃ bits, spaceHandCalc cards boost = some (hand, bits) ∧ (bytesOfNat bits).length = 1 ∧
      popcount (bytesOfNat bits) = 5 ∧ (pullFromBitfield cards bits).length = 5 ∧
      spaceHandEval (pullFromBitfield cards bits) boost = some hand := by
  obtain ⟨hand', bits, hcalc, hbest', hbits, h5, heval⟩ := spaceHandCalc_spec boost (by omega) hlt
  obtain rfl := hbest'.unique hbest
  obtain ⟨hone, hpop⟩ := bitfield_byte h7 hbits h5
  exact ⟨bits, hcalc, hone, hpop, h5, heval⟩

theorem substr_append_byte {pre bits : Bytes} (hl : pre.length = 16) (hb : bits.length = 1) :
    substr (pre ++ bits) 0 16 = some pre ∧ substr (pre ++ bits) 16 17 = some bits := by
  refine ⟨?_, ?_⟩
  · simp [substr, hl, hb]
  · simp [substr, hl, hb, List.take_append]

/-- The verdict on two selections. -/
def verdict (deal : Deal) (amount halfPot share : ℤ) (bits ev : ℕ) : Option Clvm :=
  (spaceHandEval (pullFromBitfield deal.moverCards bits) deal.moverBoost).bind fun moverHand =>
    (spaceHandEval (pullFromBitfield deal.waiterCards ev) deal.waiterBoost).bind fun waiterHand =>
      if share > fairShare amount halfPot moverHand waiterHand then some .nil
      else some (.list [.nil])

/-- How the terminal validator judges a reveal that opens the commitment. -/
theorem endValidator_reveal {m : MoveSolution} {bits : Bytes} (hm : m.newMove = s.moverPre ++ bits)
    (hb : bits.length = 1) (evidence : Clvm) :
    endValidator sha256 (coin.afterMove m) (s.toClvm sha256) evidence =
      if m.infohashC ≠ [] then some .nil
      else if popcount bits ≠ 5 then some .nil
      else evidence.bytes.bind fun ev =>
        if popcount ev ≠ 5 then none
        else verdict (s.deal sha256) (intOfBytes coin.amount) s.halfPot (intOfBytes m.newMoverShare)
          (natOfBytes bits) (natOfBytes ev) := by
  obtain ⟨hpre, hbits⟩ := substr_append_byte s.moverPre_length hb
  have h17 : (coin.afterMove m).move.length = 17 := by
    rw [afterMove_move, hm, List.length_append, s.moverPre_length, hb]
  have hstate0 : (s.toClvm sha256).nth 0 = some (.nat s.halfPot) := rfl
  have hstate1 : (s.toClvm sha256).nth 1 = some (.atom (sha256 s.moverPre)) := rfl
  have hstate2 : (s.toClvm sha256).nth 2 = some (.atom s.waiterPre) := rfl
  rw [endValidator, if_neg (by rw [h17]; simp), afterMove_infohashB]
  simp only [afterMove_move, hm, hpre, hbits, hstate0, hstate1, hstate2, Clvm.bytes_atom, Clvm.nat,
    intOfBytes_bytesOfNat, Option.bind_eq_bind, Option.bind_some, ne_eq, not_true_eq_false,
    if_false]
  rfl

/-- The handler reveals the best selection and claims its own fair share. -/
theorem handlerEnd_move (valEnd : Clvm) (endHash : Bytes) {moverHand waiterHand : List ℕ}
    (hm : IsBest (spaceHandEval · (s.deal sha256).moverBoost) (s.deal sha256).moverCards moverHand)
    (hw : IsBest (spaceHandEval · (s.deal sha256).waiterBoost) (s.deal sha256).waiterCards waiterHand) :
    ∃ bits, (bytesOfNat bits).length = 1 ∧ popcount (bytesOfNat bits) = 5 ∧
      (pullFromBitfield (s.deal sha256).moverCards bits).length = 5 ∧
      spaceHandEval (pullFromBitfield (s.deal sha256).moverCards bits) (s.deal sha256).moverBoost =
        some moverHand ∧
      ∀ label, (handlerEnd sha256 valEnd endHash label (buildImageChain sha256 s.moverPre) (2 * s.stake)
        (s.toClvm sha256)).bind moveOfHandler =
        some (s.reveal (bytesOfNat bits)
          (bytesOfInt (fairShare (2 * s.stake) s.halfPot moverHand waiterHand))) := by
  obtain ⟨bits, hcalc, hone, hpop, hfive, heval⟩ := spaceHandCalc_of_isBest EndState.moverCards_length
    EndState.moverCards_lt hm
  obtain ⟨bits', hcalc', -⟩ := spaceHandCalc_of_isBest EndState.waiterCards_length
    EndState.waiterCards_lt hw
  refine ⟨bits, hone, hpop, hfive, heval, fun label => ?_⟩
  have hpre : (buildImageChain sha256 s.moverPre)[0]? = some s.moverPre := rfl
  have hstate0 : (s.toClvm sha256).nth 0 = some (.nat s.halfPot) := rfl
  have hstate2 : (s.toClvm sha256).nth 2 = some (.atom s.waiterPre) := rfl
  have hdeal : deriveAllCards sha256 s.moverPre s.waiterPre = s.deal sha256 := rfl
  simp only [handlerEnd, hpre, hstate0, hstate2, hdeal, hcalc, hcalc', Clvm.nat,
    Clvm.bytes_atom, intOfBytes_bytesOfNat, Option.bind_eq_bind, Option.bind_some]
  rfl

/-- The evidence of the other player's handler selects its best hand. -/
theorem handlerEndTheir_evidence (bits share : Bytes) (hb : bits.length = 1)
    {moverHand waiterHand : List ℕ}
    (hm : IsBest (spaceHandEval · (s.deal sha256).moverBoost) (s.deal sha256).moverCards moverHand)
    (hw : IsBest (spaceHandEval · (s.deal sha256).waiterBoost) (s.deal sha256).waiterCards waiterHand) :
    ∃ evidence, popcount (bytesOfNat evidence) = 5 ∧
      (pullFromBitfield (s.deal sha256).waiterCards evidence).length = 5 ∧
      spaceHandEval (pullFromBitfield (s.deal sha256).waiterCards evidence)
        (s.deal sha256).waiterBoost = some waiterHand ∧
      (handlerEndTheir sha256 (buildImageChain sha256 s.waiterPre)
        (s.reveal bits share).newMove).bind (Clvm.nth 1) = some (.list [.nat evidence]) := by
  obtain ⟨evidence, hcalc, -, hpop, hfive, heval⟩ := spaceHandCalc_of_isBest EndState.waiterCards_length
    EndState.waiterCards_lt hw
  have h7 : (s.deal sha256).moverCards.length = 7 := EndState.moverCards_length
  obtain ⟨bits', hcalc', -⟩ := spaceHandCalc_of_isBest h7 EndState.moverCards_lt hm
  refine ⟨evidence, hpop, hfive, heval, ?_⟩
  have hpre : (buildImageChain sha256 s.waiterPre)[0]? = some s.waiterPre := rfl
  have hdeal : deriveAllCards sha256 s.moverPre s.waiterPre = s.deal sha256 := rfl
  have hmove : (s.reveal bits share).newMove = s.moverPre ++ bits := rfl
  simp only [handlerEndTheir, hpre, hmove, (substr_append_byte s.moverPre_length hb).1, hdeal,
    hcalc, hcalc', List.getElem?_eq_getElem (show 0 < (s.deal sha256).moverCards.length by omega),
    List.getElem?_eq_getElem (show 1 < (s.deal sha256).moverCards.length by omega),
    Option.bind_eq_bind, Option.bind_some]
  rfl

theorem fairShare_eq (stake halfPot : ℕ) (hand other : List ℕ) :
    fairShare (2 * stake) halfPot hand other =
      if deepCompare (handToClvm hand) (handToClvm other) = 0 then (stake : ℤ)
      else if deepCompare (handToClvm hand) (handToClvm other) = 1 then stake + halfPot
      else stake - halfPot := by
  rw [fairShare, show (2 * (stake : ℤ)) / 2 = stake by omega]

end Proofs

/-! Two pair, sixes and fours, against a pair of fours. -/

def sixesOverFours : EndState where
  moverPre := List.replicate 16 3
  waiterPre := List.replicate 16 103
  stake := 100
  halfPot := 30
  moverPre_length := rfl
  waiterPre_length := rfl
  stake_pos := by decide
  halfPot_le := by decide

def endCoin (stake : ℕ) (infohashB : Bytes) : RefereeArgs where
  moverPubkey := List.replicate 48 3
  waiterPubkey := List.replicate 48 4
  timeout := bytesOfNat 15
  amount := bytesOfNat (2 * stake)
  modHash := List.replicate 32 5
  nonce := bytesOfNat 0
  move := List.replicate 16 103
  maxMoveSize := bytesOfNat 17
  infohashB := infohashB
  moverShare := bytesOfNat 70
  infohashA := List.replicate 32 6

theorem sixesOverFours_mover : IsBest
    (spaceHandEval · (sixesOverFours.deal Sha256.sha256).moverBoost)
    (sixesOverFours.deal Sha256.sha256).moverCards [2, 2, 1, 0, 6, 4, 12] :=
  isBest_of_spaceHandCalc 61 (by decide +kernel)
    (by rw [EndState.moverCards_length]; decide) EndState.moverCards_lt

theorem sixesOverFours_waiter : IsBest
    (spaceHandEval · (sixesOverFours.deal Sha256.sha256).waiterBoost)
    (sixesOverFours.deal Sha256.sha256).waiterCards [2, 1, 1, 1, 0, 4, 12, 10, 9] :=
  isBest_of_spaceHandCalc 47 (by decide +kernel)
    (by rw [EndState.waiterCards_length]; decide) EndState.waiterCards_lt

end ChiaGaming.Spacepoker
