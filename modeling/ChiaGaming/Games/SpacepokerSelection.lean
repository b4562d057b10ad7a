import ChiaGaming.Games.SpacepokerShowdown

namespace ChiaGaming.Spacepoker

/-- The byte selects exactly five of seven cards. -/
def PicksFive (b : UInt8) : Prop := (pullFromBitfield (List.range 7) b.toNat).length = 5

/-- Five bits, one of them beyond the seventh card. -/
def Overhang (b : UInt8) : Prop := 128 ≤ b.toNat ∧ popcount [b] = 5

instance (b : UInt8) : Decidable (PicksFive b) := inferInstanceAs (Decidable (_ = _))
instance (b : UInt8) : Decidable (Overhang b) := inferInstanceAs (Decidable (_ ∧ _))

theorem popcount_byte (b : UInt8) : popcount [b] = popcountFuel 8 b.toNat := by
  simp [popcount, natOfBytes]

/-- A byte that counts five bits selects five cards unless it overhangs. -/
theorem popcount_ne_five {b : UInt8} (hb : ¬ Overhang b) (hp : ¬ PicksFive b) :
    popcount [b] ≠ 5 := by
  intro h
  have hlt : b.toNat < 128 := by
    by_contra hge
    exact hb ⟨by omega, h⟩
  apply hp
  rw [PicksFive, ← popcountFuel_eq_length (List.range 7) 8 b.toNat (by simpa using hlt) (by simp),
    ← popcount_byte, h]

theorem not_picksFive_of_overhang {b : UInt8} (hb : Overhang b) : ¬ PicksFive b := by
  have hall : ∀ n < 256, 128 ≤ n → popcountFuel 8 n = 5 →
      (pullFromBitfield (List.range 7) n).length ≠ 5 := by decide +kernel
  exact hall b.toNat b.toNat_lt hb.1 (popcount_byte b ▸ hb.2)

section Contract

variable (sha256 : Bytes → Bytes) (run : Run) (program : Clvm)

/-- A reveal of the right preimage with selection byte `b` that the referee lets through. -/
structure Reveals (s : EndState) (coin : RefereeArgs) (m : MoveSolution) (b : UInt8) : Prop where
  amount : coin.amount = bytesOfNat (2 * s.stake)
  commits : coin.infohashB = infohash sha256 (shatree sha256 program) (s.toClvm sha256)
  accepted : coin.AcceptsMove m
  move : m.newMove = s.moverPre ++ [b]

/-- A selection of other than five cards can be slashed. -/
def SelectionContract (b : UInt8) : Prop :=
  ∀ s coin m, Reveals sha256 program s coin m b → ¬ PicksFive b →
    ∃ evidence, SlashPays sha256 run (coin.afterMove m) (s.toClvm sha256) program evidence

/-- Evidence of other than five cards slashes nothing that the best five cards do not. -/
def EvidenceContract (e : UInt8) : Prop :=
  ∀ s coin m b best, Reveals sha256 program s coin m b → PicksFive b → ¬ PicksFive e →
    (handlerEndTheir sha256 (buildImageChain sha256 s.waiterPre) m.newMove).bind (Clvm.nth 1) =
      some (.list [best]) →
    SlashPays sha256 run (coin.afterMove m) (s.toClvm sha256) program (.atom [e]) →
    SlashPays sha256 run (coin.afterMove m) (s.toClvm sha256) program best

end Contract

section Sufficient

variable {sha256 : Bytes → Bytes} {run : Run} {program : Clvm} {s : EndState} {coin : RefereeArgs}
  {m : MoveSolution} {b : UInt8}

theorem verdict_answers {deal : Deal} {amount halfPot share : ℤ} {bits ev : ℕ} {result : Clvm}
    (h : verdict deal amount halfPot share bits ev = some result) :
    result = .nil ∨ result = .list [.nil] := by
  simp only [verdict, Option.bind_eq_some_iff] at h
  obtain ⟨_, -, _, -, h⟩ := h
  split at h
  · exact .inl (Option.some.inj h).symm
  · exact .inr (Option.some.inj h).symm

/-- A reveal pays its opponent exactly on a nil answer. -/
theorem Reveals.slashPays_iff (h : Reveals sha256 program s coin m b) (hp : program.isPair)
    (hrun : Runs run program (endValidator sha256)) (evidence : Clvm) :
    SlashPays sha256 run (coin.afterMove m) (s.toClvm sha256) program evidence ↔
      m.infohashC ≠ [] ∨ popcount [b] ≠ 5 ∨
        ∃ ev, evidence = .atom ev ∧ popcount ev = 5 ∧
          verdict (s.deal sha256) (2 * s.stake) s.halfPot (intOfBytes m.newMoverShare)
            (natOfBytes [b]) (natOfBytes ev) = some .nil := by
  have hamount : intOfBytes coin.amount = 2 * s.stake := by
    rw [h.amount, intOfBytes_bytesOfNat]
    push_cast
    ring
  rw [ChiaGaming.slashPays_iff hp hrun (by rw [afterMove_infohashA, h.commits]),
    endValidator_reveal h.move rfl, hamount]
  have hnil : ∃ result, some Clvm.nil = some result ∧
      ∃ ph conds, slashConditions sha256 (coin.afterMove m) result ph = some conds :=
    ⟨.nil, rfl, [], _, slashConditions_nil []⟩
  by_cases hc : m.infohashC = []
  · by_cases h5 : popcount [b] = 5
    · rw [if_neg (by simpa using hc), if_neg (by simpa using h5)]
      simp only [hc, h5, ne_eq, not_true_eq_false, false_or]
      constructor
      · rintro ⟨result, hr, ph, conds, hcond⟩
        simp only [Option.bind_eq_some_iff, Clvm.bytes_eq_some_iff] at hr
        obtain ⟨ev, hev, hr⟩ := hr
        split at hr
        · simp at hr
        · rename_i hpop
          refine ⟨ev, hev, not_not.mp hpop, ?_⟩
          rcases verdict_answers hr with rfl | rfl
          · exact hr
          · rw [slashConditions_single] at hcond
            simp at hcond
      · rintro ⟨ev, rfl, hpop, hv⟩
        rw [Clvm.bytes_atom, Option.bind_some, if_neg (by simpa using hpop), hv]
        exact hnil
    · rw [if_neg (by simpa using hc), if_pos h5]
      exact iff_of_true hnil (.inr (.inl h5))
  · rw [if_pos hc]
    exact iff_of_true hnil (.inl hc)

theorem selectionContract_of_not_overhang (hp : program.isPair)
    (hrun : Runs run program (endValidator sha256)) (hb : ¬ Overhang b) :
    SelectionContract sha256 run program b := by
  intro s coin m h hfive
  exact ⟨.nil, (h.slashPays_iff hp hrun .nil).mpr (.inr (.inl (popcount_ne_five hb hfive)))⟩

theorem evidenceContract_of_not_overhang {e : UInt8} (hp : program.isPair)
    (hrun : Runs run program (endValidator sha256)) (he : ¬ Overhang e) :
    EvidenceContract sha256 run program e := by
  intro s coin m b best h hfive hnot hbest hpays
  rw [h.slashPays_iff hp hrun] at hpays ⊢
  rcases hpays with hc | h5 | ⟨ev, heq, hpop, -⟩
  · exact .inl hc
  · exact .inr (.inl h5)
  · rw [Clvm.atom.injEq] at heq
    exact absurd (heq ▸ hpop) (popcount_ne_five he hnot)

end Sufficient

/-! The overhang in the selection: four cards, and a share of nothing that no evidence beats. -/

section Exhibits

variable {run : Run} {program : Clvm}

def exhibitCoin (program : Clvm) (s : EndState) : RefereeArgs :=
  endCoin s.stake (infohash Sha256.sha256 (shatree Sha256.sha256 program) (s.toClvm Sha256.sha256))

theorem infohash_length (h : Bytes) (state : Clvm) :
    (infohash Sha256.sha256 h state).length = 32 := Sha256.sha256_length _

theorem exhibit_reveals (program : Clvm) (s : EndState) (b : UInt8) (share : ℕ) (hs : share ≤ 2 * s.stake) :
    Reveals Sha256.sha256 program s (exhibitCoin program s) (s.reveal [b] (bytesOfNat share)) b where
  amount := rfl
  commits := rfl
  accepted := by
    have hne : (exhibitCoin program s).infohashB ≠ [] := by
      intro h
      have := infohash_length (shatree Sha256.sha256 program) (s.toClvm Sha256.sha256)
      have hi : (exhibitCoin program s).infohashB = infohash Sha256.sha256
        (shatree Sha256.sha256 program) (s.toClvm Sha256.sha256) := rfl
      rw [← hi, h] at this
      simp at this
    have hmax : intOfBytes (exhibitCoin program s).maxMoveSize = 17 := rfl
    have hamount : intOfBytes (exhibitCoin program s).amount = (2 * s.stake : ℕ) :=
      intOfBytes_bytesOfNat _
    refine ⟨hne, ?_, by simp [EndState.reveal], ?_, ?_, .inl rfl⟩
    · simp [EndState.reveal, s.moverPre_length, hmax]
    · rw [hamount]
      simp only [EndState.reveal, intOfBytes_bytesOfNat]
      exact_mod_cast hs
    · simp [EndState.reveal]
  move := rfl

theorem fairShare_nonneg (s : EndState) (hand other : List ℕ) :
    0 ≤ fairShare (2 * s.stake) s.halfPot hand other := by
  have := s.halfPot_le
  rw [fairShare_eq]
  split_ifs <;> omega

theorem verdict_zero_ne_nil (s : EndState) (deal : Deal) (bits ev : ℕ) :
    verdict deal (2 * s.stake) s.halfPot 0 bits ev ≠ some .nil := by
  intro h
  simp only [verdict, Option.bind_eq_some_iff] at h
  obtain ⟨hand, -, other, -, h⟩ := h
  rw [if_neg (by have := fairShare_nonneg s hand other; omega)] at h
  simp at h

theorem not_selectionContract_of_overhang {b : UInt8} (hp : program.isPair)
    (hrun : Runs run program (endValidator Sha256.sha256)) (hb : Overhang b) :
    ¬ SelectionContract Sha256.sha256 run program b := by
  intro h
  have hr := exhibit_reveals program sixesOverFours b 0 (by simp)
  obtain ⟨evidence, hpays⟩ := h _ _ _ hr (not_picksFive_of_overhang hb)
  rcases (hr.slashPays_iff hp hrun evidence).mp hpays with hc | h5 | ⟨ev, -, -, hv⟩
  · exact hc rfl
  · exact h5 hb.2
  · exact verdict_zero_ne_nil _ _ _ _ hv

/-! The overhang in the evidence: with the boost of the waiter a pair among four cards counts as
`(2 1 1 1 rank ...)` and beats every pair among five, `(2 1 1 1 boost rank ...)`. -/

/-- A showdown in which the waiter's best five cards do not beat the reveal. -/
structure Exhibit where
  state : EndState
  deal : Deal
  selection : UInt8
  moverHand : List ℕ
  waiterHand : List ℕ
  deal_eq : state.deal Sha256.sha256 = deal
  halfPot_pos : 0 < state.halfPot
  picksFive : PicksFive selection
  popcount_eq : popcount [selection] = 5
  moverHand_eq : spaceHandEval (pullFromBitfield deal.moverCards selection.toNat) deal.moverBoost =
    some moverHand
  waiterBest : ∃ bits, spaceHandCalc deal.waiterCards deal.waiterBoost = some (waiterHand, bits)
  holds : deepCompare (handToClvm moverHand) (handToClvm waiterHand) ≠ -1

/-- The cards under the mask beat the reveal. -/
def Exhibit.BeatenBy (x : Exhibit) (mask : ℕ) : Prop :=
  ∃ hand ∈ spaceHandEval (pullFromBitfield x.deal.waiterCards mask) x.deal.waiterBoost,
    deepCompare (handToClvm x.moverHand) (handToClvm hand) = -1

instance (x : Exhibit) (mask : ℕ) : Decidable (x.BeatenBy mask) :=
  inferInstanceAs (Decidable (∃ hand ∈ _, _))

theorem Exhibit.not_evidenceContract (x : Exhibit) {e : UInt8} (hp : program.isPair)
    (hrun : Runs run program (endValidator Sha256.sha256)) (he : Overhang e)
    (hbeat : x.BeatenBy e.toNat) : ¬ EvidenceContract Sha256.sha256 run program e := by
  intro h
  have hr := exhibit_reveals program x.state x.selection x.state.stake (by omega)
  have h7 : (x.state.deal Sha256.sha256).moverCards.length = 7 := EndState.moverCards_length
  obtain ⟨_, _, -, hmbest, -⟩ := spaceHandCalc_spec (x.state.deal Sha256.sha256).moverBoost
    (by rw [h7]; decide) EndState.moverCards_lt
  obtain ⟨bits, hcalc⟩ := x.waiterBest
  have hwbest : IsBest (spaceHandEval · (x.state.deal Sha256.sha256).waiterBoost)
      (x.state.deal Sha256.sha256).waiterCards x.waiterHand :=
    isBest_of_spaceHandCalc bits (by rw [x.deal_eq]; exact hcalc)
      (by rw [EndState.waiterCards_length]; decide) EndState.waiterCards_lt
  obtain ⟨best, -, -, hbest, htheir⟩ := handlerEndTheir_evidence [x.selection]
    (bytesOfNat x.state.stake) rfl hmbest hwbest
  have hshare : intOfBytes (x.state.reveal [x.selection] (bytesOfNat x.state.stake)).newMoverShare =
      x.state.stake := intOfBytes_bytesOfNat _
  have hbyte : ∀ b : UInt8, natOfBytes [b] = b.toNat := by
    intro b
    simp [natOfBytes]
  have hpos := x.halfPot_pos
  have hbest_pays := h _ _ _ _ (.nat best) hr x.picksFive (not_picksFive_of_overhang he) htheir ?_
  · rcases (hr.slashPays_iff hp hrun _).mp hbest_pays with hc | h5 | ⟨ev, heq, -, hv⟩
    · exact hc rfl
    · exact h5 x.popcount_eq
    · rw [Clvm.nat, Clvm.atom.injEq] at heq
      rw [← heq, natOfBytes_bytesOfNat, hshare, hbyte, verdict, hbest, x.deal_eq, x.moverHand_eq,
        Option.bind_some, Option.bind_some, fairShare_eq] at hv
      have hholds := x.holds
      rcases deepCompare_cases (handToClvm x.moverHand) (handToClvm x.waiterHand) with h' | h' | h'
      · exact hholds h'
      · simp [h'] at hv
      · simp [h'] at hv
  · obtain ⟨hand, hhand, hlt⟩ := hbeat
    rw [hr.slashPays_iff hp hrun]
    refine .inr (.inr ⟨[e], rfl, he.2, ?_⟩)
    rw [hshare, hbyte, hbyte, verdict, x.deal_eq, x.moverHand_eq, Option.bind_some,
      Option.mem_def.mp hhand, Option.bind_some, fairShare_eq, hlt]
    simpa using hpos.ne'

end Exhibits

def pairExhibitState (a b c : UInt8) : EndState where
  moverPre := List.replicate 15 a ++ [b]
  waiterPre := List.replicate 16 c
  stake := 2
  halfPot := 1
  moverPre_length := by simp
  waiterPre_length := by simp
  stake_pos := by decide
  halfPot_le := by decide

/-! The waiter's pair in five places; every four of seven cards contain one of them. -/

def pairAtZeroOne : Exhibit where
  state := pairExhibitState 5 1 124
  deal := ⟨[7, 9, 6, 11, 14, 10, 9], [8, 8, 6, 11, 14, 10, 9], 1, 1⟩
  selection := 122
  moverHand := [2, 1, 1, 1, 1, 9, 14, 11, 10]
  waiterHand := [2, 1, 1, 1, 1, 8, 14, 11, 10]
  deal_eq := by decide +kernel
  halfPot_pos := by decide
  picksFive := by decide
  popcount_eq := by decide
  moverHand_eq := by decide
  waiterBest := ⟨59, by decide +kernel⟩
  holds := by decide

def pairAtZeroTwo : Exhibit where
  state := pairExhibitState 3 1 115
  deal := ⟨[14, 13, 13, 5, 7, 3, 9], [13, 14, 13, 5, 7, 3, 9], 1, 1⟩
  selection := 87
  moverHand := [2, 1, 1, 1, 1, 13, 14, 9, 7]
  waiterHand := [2, 1, 1, 1, 1, 13, 14, 9, 7]
  deal_eq := by decide +kernel
  halfPot_pos := by decide
  picksFive := by decide
  popcount_eq := by decide
  moverHand_eq := by decide
  waiterBest := ⟨87, by decide +kernel⟩
  holds := by decide

def pairAtOneTwo : Exhibit where
  state := pairExhibitState 1 2 127
  deal := ⟨[3, 13, 2, 11, 6, 4, 13], [9, 2, 2, 11, 6, 4, 13], 1, 1⟩
  selection := 122
  moverHand := [2, 1, 1, 1, 1, 13, 11, 6, 4]
  waiterHand := [2, 1, 1, 1, 1, 2, 13, 11, 9]
  deal_eq := by decide +kernel
  halfPot_pos := by decide
  picksFive := by decide
  popcount_eq := by decide
  moverHand_eq := by decide
  waiterBest := ⟨79, by decide +kernel⟩
  holds := by decide

def pairAtThreeFour : Exhibit where
  state := pairExhibitState 5 2 124
  deal := ⟨[3, 13, 6, 2, 2, 12, 14], [8, 10, 6, 2, 2, 12, 14], 1, 1⟩
  selection := 122
  moverHand := [2, 1, 1, 1, 1, 2, 14, 13, 12]
  waiterHand := [2, 1, 1, 1, 1, 2, 14, 12, 10]
  deal_eq := by decide +kernel
  halfPot_pos := by decide
  picksFive := by decide
  popcount_eq := by decide
  moverHand_eq := by decide
  waiterBest := ⟨122, by decide +kernel⟩
  holds := by decide

def pairAtFiveSix : Exhibit where
  state := pairExhibitState 3 1 18
  deal := ⟨[12, 5, 2, 8, 11, 10, 10], [9, 4, 2, 8, 11, 10, 10], 1, 1⟩
  selection := 121
  moverHand := [2, 1, 1, 1, 1, 10, 12, 11, 8]
  waiterHand := [2, 1, 1, 1, 1, 10, 11, 9, 8]
  deal_eq := by decide +kernel
  halfPot_pos := by decide
  picksFive := by decide
  popcount_eq := by decide
  moverHand_eq := by decide
  waiterBest := ⟨121, by decide +kernel⟩
  holds := by decide

def exhibits : List Exhibit :=
  [pairAtZeroOne, pairAtZeroTwo, pairAtOneTwo, pairAtThreeFour, pairAtFiveSix]

theorem exists_exhibit_of_overhang {e : UInt8} (he : Overhang e) :
    ∃ x ∈ exhibits, x.BeatenBy e.toNat := by
  have hall : ∀ n < 256, 128 ≤ n → popcountFuel 8 n = 5 → ∃ x ∈ exhibits, x.BeatenBy n := by
    decide +kernel
  exact hall e.toNat e.toNat_lt he.1 (popcount_byte e ▸ he.2)

def somePair : Clvm := .pair .nil .nil

end ChiaGaming.Spacepoker
