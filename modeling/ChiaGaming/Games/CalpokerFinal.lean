import ChiaGaming.Games.CalpokerDeal
import ChiaGaming.Games.CalpokerHands
import ChiaGaming.Lib.Sha256

namespace ChiaGaming.Calpoker

/-! The final cards: the discards change hands and nothing is lost. -/

theorem splitCardsInner_perm (mask : ℕ) (cards left right : List ℕ) :
    ((splitCardsInner mask cards left right).1 ++ (splitCardsInner mask cards left right).2).Perm
      (cards ++ (left ++ right)) := by
  induction cards generalizing mask left right with
  | nil => rfl
  | cons c cards ih =>
    rw [splitCardsInner]
    split
    · refine (ih _ _ _).trans ?_
      rw [← List.append_assoc, ← List.append_assoc, List.cons_append]
      exact List.perm_middle
    · exact (ih _ _ _).trans List.perm_middle

theorem splitCardsInner_snd_length (mask : ℕ) (cards left right : List ℕ) :
    (splitCardsInner mask cards left right).2.length =
      right.length + (pullFromBitfield cards mask).length := by
  induction cards generalizing mask left right with
  | nil => rfl
  | cons c cards ih =>
    rw [splitCardsInner, pullFromBitfield]
    split
    · rw [ih, List.length_cons, List.length_cons]
      omega
    · exact ih _ _ _

theorem splitCards_perm (mask : ℕ) (cards : List ℕ) :
    ((splitCards mask cards).1 ++ (splitCards mask cards).2).Perm cards := by
  have h := splitCardsInner_perm mask cards [] []
  rwa [List.append_nil, List.append_nil] at h

theorem popcount_byte (b : UInt8) {cards : List ℕ} (h8 : cards.length = 8) :
    popcount [b] = (pullFromBitfield cards b.toNat).length := by
  have hlt : b.toNat < 2 ^ cards.length := by
    rw [h8]
    exact b.toNat_lt
  rw [← popcountFuel_eq_length cards 8 b.toNat hlt (by omega)]
  simp [popcount, natOfBytes]

/-- Four discards leave four cards. -/
theorem splitCards_lengths {b : UInt8} {cards : List ℕ} (h8 : cards.length = 8)
    (h4 : popcount [b] = 4) :
    (splitCards b.toNat cards).1.length = 4 ∧ (splitCards b.toNat cards).2.length = 4 := by
  have h2 : (splitCards b.toNat cards).2.length = 4 := by
    rw [splitCards, splitCardsInner_snd_length, ← popcount_byte b h8, h4]
    rfl
  have hsum := (splitCards_perm b.toNat cards).length_eq
  rw [List.length_append] at hsum
  omega

/-- Eight different cards of the deck. -/
structure IsHand (cards : List ℕ) : Prop where
  length_eq : cards.length = 8
  nodup : cards.Nodup
  lt : ∀ c ∈ cards, c < 52

theorem getFinalCards_isHand {d b : UInt8} (randomness : ℤ) (hd : popcount [d] = 4)
    (hb : popcount [b] = 4) :
    IsHand (getFinalCards (makeCards randomness).1 [d] (makeCards randomness).2 [b]).1 ∧
      IsHand (getFinalCards (makeCards randomness).1 [d] (makeCards randomness).2 [b]).2 := by
  obtain ⟨ha8, hb8, hnodup, hlt⟩ := makeCards_spec randomness
  set aliceCards := (makeCards randomness).1
  set bobCards := (makeCards randomness).2
  obtain ⟨hkeep, hgive⟩ := splitCards_lengths ha8 hd
  obtain ⟨hkeep', hgive'⟩ := splitCards_lengths hb8 hb
  have halice : (getFinalCards aliceCards [d] bobCards [b]).1.Perm
      ((splitCards d.toNat aliceCards).1 ++ (splitCards b.toNat bobCards).2) := by
    rw [getFinalCards, natOfBytes_singleton, natOfBytes_singleton]
    exact sort_perm cardLess _
  have hbob : (getFinalCards aliceCards [d] bobCards [b]).2.Perm
      ((splitCards b.toNat bobCards).1 ++ (splitCards d.toNat aliceCards).2) := by
    rw [getFinalCards, natOfBytes_singleton, natOfBytes_singleton]
    exact sort_perm cardLess _
  -- together the final cards are the sixteen dealt ones
  have hall : ((getFinalCards aliceCards [d] bobCards [b]).1 ++
      (getFinalCards aliceCards [d] bobCards [b]).2).Perm (aliceCards ++ bobCards) := by
    refine (halice.append hbob).trans ?_
    refine List.Perm.trans ?_ ((splitCards_perm d.toNat aliceCards).append
      (splitCards_perm b.toNat bobCards))
    rw [← Multiset.coe_eq_coe]
    simp only [← Multiset.coe_add]
    abel
  have hnd := hall.nodup_iff.mpr hnodup
  have hbound : ∀ c ∈ (getFinalCards aliceCards [d] bobCards [b]).1 ++
      (getFinalCards aliceCards [d] bobCards [b]).2, c < 52 := fun c hc =>
    hlt c (hall.mem_iff.mp hc)
  constructor
  · refine ⟨?_, hnd.of_append_left, fun c hc => hbound c (List.mem_append_left _ hc)⟩
    rw [halice.length_eq, List.length_append, hkeep, hgive']
  · refine ⟨?_, hnd.of_append_right, fun c hc => hbound c (List.mem_append_right _ hc)⟩
    rw [hbob.length_eq, List.length_append, hkeep', hgive]

theorem IsHand.five {cards : List ℕ} (h : IsHand cards) {five : List ℕ} (hs : five.Sublist cards)
    (h5 : five.length = 5) : ∃ hand, onehandcalc five = some hand ∧ Shaped hand :=
  onehandcalc_shaped h5 (fun c hc => h.lt c (hs.subset hc)) (h.nodup.sublist hs)

theorem IsHand.pull {cards : List ℕ} (h : IsHand cards) {b : UInt8} (h5 : popcount [b] = 5) :
    ∃ hand, onehandcalc (pullFromBitfield cards b.toNat) = some hand ∧ Shaped hand := by
  apply h.five (pullFromBitfield_sublist cards b.toNat)
  rw [← popcount_byte b h.length_eq, h5]

/-! The evidence byte: `handcalc` lists the positions of the best hand in order. -/

theorem testBit_indicesToBitfieldInner (fuel : ℕ) (l : List ℕ) (index j : ℕ)
    (hs : l.Pairwise (· < ·)) (hl : ∀ i ∈ l, index ≤ i ∧ i < index + fuel) :
    (indicesToBitfieldInner fuel l index).testBit j = decide (index + j ∈ l) := by
  induction fuel generalizing l index j with
  | zero =>
    have hnil : l = [] := by
      apply List.eq_nil_iff_forall_not_mem.mpr
      intro i hi
      have := hl i hi
      omega
    simp [indicesToBitfieldInner, hnil]
  | succ fuel ih =>
    cases l with
    | nil => simp [indicesToBitfieldInner]
    | cons i l =>
      have hs' := List.pairwise_cons.mp hs
      rw [indicesToBitfieldInner]
      by_cases hi : i = index
      · subst hi
        have htail : ∀ k ∈ l, i + 1 ≤ k ∧ k < i + 1 + fuel := by
          intro k hk
          have h1 := hs'.1 k hk
          have h2 := hl k (List.mem_cons_of_mem _ hk)
          omega
        rw [if_pos rfl]
        cases j with
        | zero => simp [Nat.testBit_zero]
        | succ j =>
          have hdiv : (1 + 2 * indicesToBitfieldInner fuel l (i + 1)) / 2 =
              indicesToBitfieldInner fuel l (i + 1) := by omega
          rw [Nat.testBit_succ, hdiv, ih l (i + 1) j hs'.2 htail,
            show i + 1 + j = i + (j + 1) by omega]
          simp
      · have hall : ∀ k ∈ i :: l, index + 1 ≤ k ∧ k < index + 1 + fuel := by
          intro k hk
          have h2 := hl k hk
          have hki : i ≤ k := by
            rcases List.mem_cons.mp hk with rfl | hk
            · exact le_rfl
            · exact (hs'.1 k hk).le
          have h3 := hl i List.mem_cons_self
          omega
        rw [if_neg hi]
        cases j with
        | zero =>
          have hni : index ∉ i :: l := by
            intro hmem
            have := hall index hmem
            omega
          simp [Nat.testBit_zero, hni]
        | succ j =>
          have hdiv : 2 * indicesToBitfieldInner fuel (i :: l) (index + 1) / 2 =
              indicesToBitfieldInner fuel (i :: l) (index + 1) := by omega
          rw [Nat.testBit_succ, hdiv, ih (i :: l) (index + 1) j hs hall,
            show index + 1 + j = index + (j + 1) by omega]

theorem markAll_cons (l : List (ℕ × ℕ)) :
    markAll (fun i s => i :: s) ([] : List ℕ) l = l.map Prod.snd := by
  induction l with
  | nil => rfl
  | cons p l ih => exact congrArg (p.2 :: ·) ih

theorem singleByte_bytesOfNat {n : ℕ} (h : n < 256) :
    singleByte (bytesOfNat n) = [UInt8.ofNat n] := by
  have hall : ∀ n < 256, singleByte (bytesOfNat n) = [UInt8.ofNat n] := by decide +kernel
  exact hall n h

/-- The positions of a sublist become a byte that pulls the sublist. -/
theorem indicesToBitfield_pulls {cards : List ℕ} {l : List (ℕ × ℕ)} (h8 : cards.length = 8)
    (hs : l.Sublist (cards.zipIdx 0)) :
    ∃ e : UInt8, indicesToBitfield (l.map Prod.snd) = [e] ∧
      pullFromBitfield cards e.toNat = l.map Prod.fst := by
  have hsnd : (l.map Prod.snd).Sublist (List.range' 0 8) := by
    have := hs.map Prod.snd
    rwa [List.zipIdx_map_snd, h8] at this
  have hsorted : (l.map Prod.snd).Pairwise (· < ·) := (List.pairwise_lt_range' ..).sublist hsnd
  have hlt : ∀ i ∈ l.map Prod.snd, i < 8 := by
    intro i hi
    have := hsnd.subset hi
    simpa [List.mem_range'] using this
  set v := indicesToBitfieldInner 9 (l.map Prod.snd) 0 with hv
  have hbits : ∀ j, v.testBit j = decide (0 + j ∈ l.map Prod.snd) := by
    intro j
    apply testBit_indicesToBitfieldInner
    · exact hsorted
    · intro i hi
      have := hlt i hi
      omega
  have hv256 : v < 2 ^ 8 := by
    apply Nat.lt_pow_two_of_testBit
    intro j hj
    rw [hbits, decide_eq_false_iff_not]
    intro hmem
    have := hlt _ hmem
    omega
  refine ⟨UInt8.ofNat v, singleByte_bytesOfNat hv256, ?_⟩
  have htoNat : (UInt8.ofNat v).toNat = v := by
    rw [UInt8.toNat_ofNat']
    omega
  rw [htoNat]
  exact pullFromBitfield_eq cards 0 v l hs hbits

/-- The calculator finds the best hand, and its byte counts five bits and selects it. -/
theorem handcalc_spec {cards : List ℕ} (h : IsHand cards) :
    ∃ hand indices, handcalc cards = some (hand, indices) ∧ IsBest onehandcalc cards hand ∧
      ∃ e : UInt8, indicesToBitfield indices = [e] ∧ popcount [e] = 5 ∧
        onehandcalc (pullFromBitfield cards e.toNat) = some hand := by
  obtain ⟨hand, l, hcalc, hs, hl, heval, hbest⟩ := bestSelection_spec (fun i s => i :: s) []
    (fun l => Clvm.list (l.map .nat)) (by rw [h.length_eq]; omega) (fun five hf h5 => by
      obtain ⟨hand, hhand, -⟩ := h.five hf h5
      exact Option.isSome_of_mem hhand)
  obtain ⟨e, hbyte, hpull⟩ := indicesToBitfield_pulls h.length_eq hs
  rw [markAll_cons] at hcalc
  refine ⟨hand, l.map Prod.snd, hcalc, hbest, e, hbyte, ?_, ?_⟩
  · rw [popcount_byte e h.length_eq, hpull, List.length_map, hl]
  · rw [hpull]
    exact heval

/-! The state before the last move and what a last move must satisfy. -/

/-- A state that the previous validator `d.clsp` hands over. -/
structure TerminalState where
  bobDiscards : UInt8
  randomness : ℤ
  aliceCommit : Bytes
  four_discards : popcount [bobDiscards] = 4

namespace TerminalState

variable (s : TerminalState)

def aliceCards : List ℕ := (makeCards s.randomness).1
def bobCards : List ℕ := (makeCards s.randomness).2

def toClvm : Clvm :=
  .list [.atom [s.bobDiscards], .list (s.aliceCards.map .nat), .list (s.bobCards.map .nat),
    .atom s.aliceCommit]

def aliceFinal (d : UInt8) : List ℕ := (getFinalCards s.aliceCards [d] s.bobCards [s.bobDiscards]).1
def bobFinal (d : UInt8) : List ℕ := (getFinalCards s.aliceCards [d] s.bobCards [s.bobDiscards]).2

/-- The share covers what Bob is due against his best hand. -/
def CoversBob (amount share : ℤ) (d sel : UInt8) : Prop :=
  ∀ aliceHand bobHand, onehandcalc (pullFromBitfield (s.aliceFinal d) sel.toNat) = some aliceHand →
    IsBest onehandcalc (s.bobFinal d) bobHand →
    bobsDue amount (deepCompare (handToClvm aliceHand) (handToClvm bobHand)) ≤ share

end TerminalState

/-- A salt of sixteen bytes, the discards and the selection. -/
def finalMove (salt : Bytes) (d sel : UInt8) : Bytes := salt ++ [d, sel]

/-- The move is well formed, opens the commitment and leaves Bob his share. -/
def FairMove (sha256 : Bytes → Bytes) (s : TerminalState) (amount : ℤ) (m : MoveSolution) : Prop :=
  ∃ salt d sel, m.newMove = finalMove salt d sel ∧ salt.length = 16 ∧ popcount [d] = 4 ∧
    popcount [sel] = 5 ∧ sha256 (salt ++ [d]) = s.aliceCommit ∧
    s.CoversBob amount (intOfBytes m.newMoverShare) d sel

/-- The move says that the game is over. -/
def Terminal (m : MoveSolution) : Prop := m.infohashC = [] ∧ intOfBytes m.newMaxMoveSize = 0

section Contract

variable (sha256 : Bytes → Bytes) (run : Run) (program : Clvm)

/-- Alice plays `m` from a coin that commits to the terminal validator and the state. -/
structure PlaysLast (s : TerminalState) (coin : RefereeArgs) (m : MoveSolution) : Prop where
  commits : coin.infohashB = infohash sha256 (shatree sha256 program) s.toClvm
  accepted : coin.AcceptsMove m

/-- The evidence that Bob's handler offers against the move. -/
def bobEvidence (s : TerminalState) (coin : RefereeArgs) (m : MoveSolution) : List Clvm :=
  (((calpokerBobHandlerE (intOfBytes coin.amount) s.toClvm m.newMove m.newMoverShare).bind
    (Clvm.nth 1)).bind Clvm.properList).getD []

def LegalMove (s : TerminalState) (coin : RefereeArgs) (m : MoveSolution) : Prop :=
  FairMove sha256 s (intOfBytes coin.amount) m ∧ Terminal m

/-- Illegal moves can be slashed, legal ones cannot. -/
def SecurityContract (s : TerminalState) (coin : RefereeArgs) (m : MoveSolution) : Prop :=
  (¬ LegalMove sha256 s coin m → ∃ evidence ∈ Clvm.nil :: bobEvidence s coin m,
    SlashPays sha256 run (coin.afterMove m) s.toClvm program evidence) ∧
  (LegalMove sha256 s coin m → ∀ evidence,
    ¬ SlashPays sha256 run (coin.afterMove m) s.toClvm program evidence)

end Contract

section Verdict

variable {sha256 : Bytes → Bytes} {run : Run} {program : Clvm} {s : TerminalState}
  {coin : RefereeArgs} {m : MoveSolution} {salt : Bytes} {d sel : UInt8}

theorem aliceFinal_isHand (hd : popcount [d] = 4) : IsHand (s.aliceFinal d) :=
  (getFinalCards_isHand s.randomness hd s.four_discards).1

theorem bobFinal_isHand (hd : popcount [d] = 4) : IsHand (s.bobFinal d) :=
  (getFinalCards_isHand s.randomness hd s.four_discards).2

theorem substr_finalMove (hl : salt.length = 16) :
    (finalMove salt d sel).length = 18 ∧
      substr (finalMove salt d sel) 0 17 = some (salt ++ [d]) ∧
      substr (finalMove salt d sel) 16 17 = some [d] ∧
      substr (finalMove salt d sel) 17 18 = some [sel] := by
  have hlen : (finalMove salt d sel).length = 18 := by simp [finalMove, hl]
  refine ⟨hlen, ?_, ?_, ?_⟩
  · simp [substr, finalMove, hl, List.take_append]
  · simp [substr, finalMove, hl, List.take_append]
  · have htake : (salt ++ [d, sel]).take 18 = salt ++ [d, sel] := by
      apply List.take_of_length_le
      simp [hl]
    simp [substr, finalMove, hl, htake, List.drop_append]

/-- The verdict on Alice's hand against the evidence. -/
def judge (amount share : ℤ) (bobCards aliceHand : List ℕ) (ev : Bytes) : Option Clvm :=
  (pullOutCards ev bobCards).bind fun five => (onehandcalc five).bind fun bobHand =>
    (listCompare aliceHand bobHand).bind fun result =>
      if share ≥ bobsDue amount result then some (.list [.nil]) else some .nil

theorem eValidator_finalMove (hm : m.newMove = finalMove salt d sel) (hl : salt.length = 16)
    (evidence : Clvm) :
    eValidator sha256 (coin.afterMove m) s.toClvm evidence =
      if popcount [d] ≠ 4 then some .nil
      else if popcount [sel] ≠ 5 then some .nil
      else (pullOutCards [sel] (s.aliceFinal d)).bind fun five =>
        (onehandcalc five).bind fun aliceHand =>
          if sha256 (salt ++ [d]) ≠ s.aliceCommit then some .nil
          else evidence.bytes.bind fun ev =>
            judge (intOfBytes coin.amount) (intOfBytes m.newMoverShare) (s.bobFinal d) aliceHand ev := by
  obtain ⟨h18, hsalted, hdisc, hsel⟩ := @substr_finalMove salt d sel hl
  have h0 : s.toClvm.nth 0 = some (.atom [s.bobDiscards]) := rfl
  have h1 : s.toClvm.nth 1 = some (.list (s.aliceCards.map .nat)) := rfl
  have h2 : s.toClvm.nth 2 = some (.list (s.bobCards.map .nat)) := rfl
  have h3 : s.toClvm.nth 3 = some (.atom s.aliceCommit) := rfl
  rw [eValidator, afterMove_move, hm, if_neg (by simpa using h18)]
  simp only [hsalted, hdisc, hsel, h0, h1, h2, h3, Clvm.natList_list, Clvm.bytes_atom,
    Option.bind_eq_bind, Option.bind_some, afterMove_amount, afterMove_moverShare]
  rfl

theorem pullOutCards_eq_some {ev : Bytes} {cards five : List ℕ} :
    pullOutCards ev cards = some five ↔
      popcount ev = 5 ∧ pullFromBitfield cards (natOfBytes ev) = five := by
  rw [pullOutCards]
  split <;> simp_all

theorem pullOutCards_byte {e : UInt8} (h5 : popcount [e] = 5) (cards : List ℕ) :
    pullOutCards [e] cards = some (pullFromBitfield cards e.toNat) := by
  rw [pullOutCards_eq_some, natOfBytes_singleton]
  exact ⟨h5, rfl⟩

/-- The verdict on a move with the right counts. -/
theorem eValidator_counted {aliceHand : List ℕ} (hm : m.newMove = finalMove salt d sel)
    (hl : salt.length = 16) (hd : popcount [d] = 4) (hsel : popcount [sel] = 5)
    (halice : onehandcalc (pullFromBitfield (s.aliceFinal d) sel.toNat) = some aliceHand)
    (evidence : Clvm) :
    eValidator sha256 (coin.afterMove m) s.toClvm evidence =
      if sha256 (salt ++ [d]) ≠ s.aliceCommit then some .nil
      else evidence.bytes.bind fun ev =>
        judge (intOfBytes coin.amount) (intOfBytes m.newMoverShare) (s.bobFinal d) aliceHand ev := by
  rw [eValidator_finalMove hm hl, if_neg (by simpa using hd), if_neg (by simpa using hsel),
    pullOutCards_byte hsel, Option.bind_some, halice, Option.bind_some]

theorem five_le_of_onehandcalc {cards hand : List ℕ} (h : onehandcalc cards = some hand) :
    5 ≤ cards.length := by
  rcases cards with _ | ⟨a, _ | ⟨b, _ | ⟨c, _ | ⟨d, _ | ⟨e, t⟩⟩⟩⟩⟩
  · simp [onehandcalc] at h
  · simp [onehandcalc] at h
  · simp [onehandcalc] at h
  · simp [onehandcalc] at h
  · simp [onehandcalc] at h
  · simp

/-- Evidence of any length selects five cards or makes the evaluator abort. -/
theorem five_of_evidence {ev : Bytes} {cards five hand : List ℕ} (h8 : cards.length = 8)
    (hpull : pullOutCards ev cards = some five) (hhand : onehandcalc five = some hand) :
    five.Sublist cards ∧ five.length = 5 := by
  obtain ⟨hpop, rfl⟩ := pullOutCards_eq_some.mp hpull
  have hlen : cards.length ≤ 8 * ev.length := by
    cases ev with
    | nil => simp [popcount, popcountFuel] at hpop
    | cons x xs =>
      rw [h8, List.length_cons]
      omega
  have hle := length_pullFromBitfield_le cards (8 * ev.length) (natOfBytes ev) hlen
  rw [← popcount, hpop] at hle
  have hge := five_le_of_onehandcalc hhand
  exact ⟨pullFromBitfield_sublist cards _, by omega⟩

/-- A better hand of Bob's is due at least as much. -/
theorem bobsDue_mono {amount : ℤ} (h0 : 0 ≤ amount) {alice bob best : Clvm}
    (hle : deepCompare best bob ≠ -1) :
    bobsDue amount (deepCompare alice bob) ≤ bobsDue amount (deepCompare alice best) := by
  have hcases := deepCompare_cases alice best
  rcases deepCompare_cases alice bob with h | h | h
  · rcases deepCompare_lt_or h with hab | hab
    · rw [h, hab]
    · exact absurd hab hle
  · have hne : deepCompare alice best ≠ 1 := by
      intro h1
      have hlt : deepCompare best alice = -1 := by
        rw [deepCompare_swap, h1]
      rcases deepCompare_lt_or hlt with hab | hab
      · exact hle hab
      · rw [deepCompare_swap, h] at hab
        omega
    rw [h]
    simp only [bobsDue]
    split_ifs <;> omega
  · rw [h]
    simp only [bobsDue]
    split_ifs <;> omega

/-- A move that covers Bob's best hand covers every evidence. -/
theorem judge_ne_nil {amount share : ℤ} {aliceHand : List ℕ} (h0 : 0 ≤ amount)
    (hd : popcount [d] = 4) (hcover : s.CoversBob amount share d sel)
    (halice : onehandcalc (pullFromBitfield (s.aliceFinal d) sel.toNat) = some aliceHand)
    (hshaped : Shaped aliceHand) (ev : Bytes) {result : Clvm}
    (h : judge amount share (s.bobFinal d) aliceHand ev = some result) : result = .list [.nil] := by
  have hhand := @bobFinal_isHand s d hd
  simp only [judge, Option.bind_eq_some_iff] at h
  obtain ⟨five, hfive, bobHand, hbob, cmp, hcmp, hresult⟩ := h
  obtain ⟨hsub, h5⟩ := five_of_evidence hhand.length_eq hfive hbob
  obtain ⟨hand, hhand', hbobShaped⟩ := hhand.five hsub h5
  obtain rfl : hand = bobHand := Option.some.inj (hhand'.symm.trans hbob)
  obtain ⟨best, -, -, hbest, -⟩ := handcalc_spec hhand
  have hdue := hcover aliceHand best halice hbest
  have hmono : bobsDue amount (deepCompare (handToClvm aliceHand) (handToClvm hand)) ≤
      bobsDue amount (deepCompare (handToClvm aliceHand) (handToClvm best)) :=
    bobsDue_mono h0 (hbest.2 five hand hsub h5 hbob)
  rw [hshaped.listCompare_eq hbobShaped, Option.some.injEq] at hcmp
  rw [← hcmp, if_pos (hmono.trans hdue)] at hresult
  exact (Option.some.inj hresult).symm

theorem amount_nonneg (h : coin.AcceptsMove m) : 0 ≤ intOfBytes coin.amount := by
  obtain ⟨-, -, -, hle, h0, -⟩ := h
  exact h0.trans hle

theorem PlaysLast.slashPays_iff (h : PlaysLast sha256 program s coin m) (hp : program.isPair)
    (hrun : Runs run program (eValidator sha256)) (evidence : Clvm) :
    SlashPays sha256 run (coin.afterMove m) s.toClvm program evidence ↔
      ∃ result, eValidator sha256 (coin.afterMove m) s.toClvm evidence = some result ∧
        ∃ ph conds, slashConditions sha256 (coin.afterMove m) result ph = some conds :=
  ChiaGaming.slashPays_iff hp hrun (by rw [afterMove_infohashA, h.commits]) evidence

theorem PlaysLast.not_slashPays (h : PlaysLast sha256 program s coin m) (hp : program.isPair)
    (hrun : Runs run program (eValidator sha256))
    (hfair : FairMove sha256 s (intOfBytes coin.amount) m) (evidence : Clvm) :
    ¬ SlashPays sha256 run (coin.afterMove m) s.toClvm program evidence := by
  obtain ⟨salt, d, sel, hm, hl, hd, hsel, hopen, hcover⟩ := hfair
  obtain ⟨aliceHand, hhand, hshaped⟩ := (@aliceFinal_isHand s d hd).pull hsel
  rw [h.slashPays_iff hp hrun, eValidator_counted hm hl hd hsel hhand,
    if_neg (by simpa using hopen)]
  rintro ⟨result, hresult, ph, conds, hconds⟩
  obtain ⟨ev, -, hjudge⟩ := Option.bind_eq_some_iff.mp hresult
  rw [judge_ne_nil (amount_nonneg h.accepted) hd hcover hhand hshaped ev hjudge,
    slashConditions_single] at hconds
  simp at hconds

/-- Bob's handler offers the byte of his best hand. -/
theorem bobEvidence_eq {aliceHand : List ℕ} (hm : m.newMove = finalMove salt d sel)
    (hl : salt.length = 16) (hd : popcount [d] = 4) (hsel : popcount [sel] = 5)
    (halice : onehandcalc (pullFromBitfield (s.aliceFinal d) sel.toNat) = some aliceHand) :
    ∃ best, ∃ e : UInt8, bobEvidence s coin m = [.atom [e]] ∧ popcount [e] = 5 ∧
      IsBest onehandcalc (s.bobFinal d) best ∧
      onehandcalc (pullFromBitfield (s.bobFinal d) e.toNat) = some best := by
  obtain ⟨best, indices, hcalc, hbest, e, hbyte, hpop, heval⟩ :=
    handcalc_spec (@bobFinal_isHand s d hd)
  refine ⟨best, e, ?_, hpop, hbest, heval⟩
  obtain ⟨h18, -, hdisc, hsel'⟩ := @substr_finalMove salt d sel hl
  have h0 : s.toClvm.nth 0 = some (.atom [s.bobDiscards]) := rfl
  have h1 : s.toClvm.nth 1 = some (.list (s.aliceCards.map .nat)) := rfl
  have h2 : s.toClvm.nth 2 = some (.list (s.bobCards.map .nat)) := rfl
  have hpull := pullOutCards_byte hsel (s.aliceFinal d)
  rw [TerminalState.aliceFinal] at hpull halice
  rw [TerminalState.bobFinal] at hcalc
  simp only [bobEvidence, calpokerBobHandlerE, hm, h18, hdisc, hsel', h0, h1, h2, hpull, halice,
    hcalc, hbyte, Clvm.natList_list, Clvm.bytes_atom, Option.bind_eq_bind, Option.bind_some]
  rfl

theorem PlaysLast.slashPays_of_nil (h : PlaysLast sha256 program s coin m) (hp : program.isPair)
    (hrun : Runs run program (eValidator sha256)) {evidence : Clvm}
    (hnil : eValidator sha256 (coin.afterMove m) s.toClvm evidence = some .nil) :
    SlashPays sha256 run (coin.afterMove m) s.toClvm program evidence :=
  (h.slashPays_iff hp hrun evidence).mpr ⟨.nil, hnil, [], _, slashConditions_nil []⟩

theorem finalMove_of_length {move : Bytes} (h : move.length = 18) :
    ∃ salt d sel, move = finalMove salt d sel ∧ salt.length = 16 := by
  obtain ⟨d, sel, hds⟩ : ∃ d sel, move.drop 16 = [d, sel] :=
    List.length_eq_two.mp (by rw [List.length_drop, h])
  refine ⟨move.take 16, d, sel, ?_, by simp [h]⟩
  rw [finalMove, ← hds, List.take_append_drop]

/-- An unfair move is convicted by nil or by Bob's best hand. -/
theorem PlaysLast.exists_slashPays (h : PlaysLast sha256 program s coin m) (hp : program.isPair)
    (hrun : Runs run program (eValidator sha256))
    (hunfair : ¬ FairMove sha256 s (intOfBytes coin.amount) m) :
    ∃ evidence ∈ Clvm.nil :: bobEvidence s coin m,
      SlashPays sha256 run (coin.afterMove m) s.toClvm program evidence := by
  have hwithNil : eValidator sha256 (coin.afterMove m) s.toClvm .nil = some .nil →
      ∃ evidence ∈ Clvm.nil :: bobEvidence s coin m,
        SlashPays sha256 run (coin.afterMove m) s.toClvm program evidence := fun hnil =>
    ⟨.nil, List.mem_cons_self, h.slashPays_of_nil hp hrun hnil⟩
  by_cases h18 : m.newMove.length = 18
  swap
  · apply hwithNil
    rw [eValidator, afterMove_move, if_pos h18]
  obtain ⟨salt, d, sel, hm, hl⟩ := finalMove_of_length h18
  have heq := @eValidator_finalMove sha256 s coin m salt d sel hm hl
  by_cases hd : popcount [d] = 4
  swap
  · exact hwithNil (by rw [heq, if_pos hd])
  by_cases hsel : popcount [sel] = 5
  swap
  · exact hwithNil (by rw [heq, if_neg (by simpa using hd), if_pos hsel])
  obtain ⟨aliceHand, hhand, hshaped⟩ := (@aliceFinal_isHand s d hd).pull hsel
  have hcounted := @eValidator_counted sha256 s coin m salt d sel aliceHand hm hl hd hsel hhand
  by_cases hopen : sha256 (salt ++ [d]) = s.aliceCommit
  swap
  · exact hwithNil (by rw [hcounted, if_pos hopen])
  have hcover : ¬ s.CoversBob (intOfBytes coin.amount) (intOfBytes m.newMoverShare) d sel :=
    fun hcover => hunfair ⟨salt, d, sel, hm, hl, hd, hsel, hopen, hcover⟩
  simp only [TerminalState.CoversBob, not_forall, not_le] at hcover
  obtain ⟨aliceHand', bobHand, halice', hbobBest, hshort⟩ := hcover
  obtain rfl : aliceHand = aliceHand' := Option.some.inj (hhand.symm.trans halice')
  obtain ⟨best, e, hev, hpop, hbest, heval⟩ :=
    @bobEvidence_eq s coin m salt d sel aliceHand hm hl hd hsel hhand
  obtain rfl := hbest.unique hbobBest
  obtain ⟨hand, hhand', hbobShaped⟩ := (@bobFinal_isHand s d hd).pull hpop
  obtain rfl : hand = best := Option.some.inj (hhand'.symm.trans heval)
  refine ⟨.atom [e], by simp [hev], h.slashPays_of_nil hp hrun ?_⟩
  rw [hcounted, if_neg (by simpa using hopen), Clvm.bytes_atom, Option.bind_some, judge,
    pullOutCards_byte hpop, Option.bind_some, heval, Option.bind_some,
    hshaped.listCompare_eq hbobShaped, Option.bind_some, if_neg (by omega)]

end Verdict

/-- The contract fails exactly for fair moves that do not end the game: `e.clsp` does not read
INFOHASH_B and MAX_MOVE_SIZE, and its answer to a fair move makes the slash branch abort. -/
theorem security_contract_iff {sha256 : Bytes → Bytes} {run : Run} {program : Clvm}
    {s : TerminalState} {coin : RefereeArgs} {m : MoveSolution} (hp : program.isPair)
    (hrun : Runs run program (eValidator sha256)) (h : PlaysLast sha256 program s coin m) :
    SecurityContract sha256 run program s coin m ↔
      ¬ (FairMove sha256 s (intOfBytes coin.amount) m ∧ ¬ Terminal m) := by
  constructor
  · rintro ⟨hillegal, -⟩ ⟨hfair, hgoes⟩
    obtain ⟨evidence, -, hpays⟩ := hillegal fun hlegal => hgoes hlegal.2
    exact h.not_slashPays hp hrun hfair evidence hpays
  · intro hends
    constructor
    · intro hillegal
      apply h.exists_slashPays hp hrun
      intro hfair
      exact hends ⟨hfair, fun hterminal => hillegal ⟨hfair, hterminal⟩⟩
    · rintro ⟨hfair, -⟩
      exact h.not_slashPays hp hrun hfair

/-! A final move that leaves Bob everything and goes on with the game. -/

def lastSalt : Bytes := List.replicate 16 0x11

def lastState : TerminalState where
  bobDiscards := 0x0f
  randomness := 123456789
  aliceCommit := Sha256.sha256 (lastSalt ++ [0xf0])
  four_discards := by decide

def lastProgram : Clvm := .pair (.nat 1) .nil

def lastCoin : RefereeArgs where
  moverPubkey := []
  waiterPubkey := []
  timeout := [15]
  amount := [100]
  modHash := []
  nonce := []
  move := [0x0f]
  maxMoveSize := [18]
  infohashB := infohash Sha256.sha256 (shatree Sha256.sha256 lastProgram) lastState.toClvm
  moverShare := []
  infohashA := []

/-- The move gives Bob the whole amount. -/
def lastMove (infohashC newMaxMoveSize : Bytes) : MoveSolution where
  newMove := finalMove lastSalt 0xf0 0x1f
  infohashC := infohashC
  newMoverShare := [100]
  newMaxMoveSize := newMaxMoveSize

theorem lastMove_fair (infohashC newMaxMoveSize : Bytes) :
    FairMove Sha256.sha256 lastState (intOfBytes lastCoin.amount)
      (lastMove infohashC newMaxMoveSize) := by
  refine ⟨lastSalt, 0xf0, 0x1f, rfl, rfl, by decide, by decide, rfl, ?_⟩
  intro aliceHand bobHand _ _
  have h100 : intOfBytes [100] = 100 := rfl
  simp only [lastCoin, lastMove, h100, bobsDue]
  split_ifs <;> norm_num

theorem lastMove_plays {infohashC newMaxMoveSize : Bytes}
    (hc : infohashC = [] ∨ infohashC.length = 32) (hs : newMaxMoveSize.length ≤ 2) :
    PlaysLast Sha256.sha256 lastProgram lastState lastCoin (lastMove infohashC newMaxMoveSize) where
  commits := rfl
  accepted := by
    have hne : lastCoin.infohashB ≠ [] := by
      apply List.ne_nil_of_length_pos
      rw [show lastCoin.infohashB.length = 32 from Sha256.sha256_length _]
      omega
    have hlen : (lastMove infohashC newMaxMoveSize).newMove.length = 18 := rfl
    have hmax : intOfBytes lastCoin.maxMoveSize = 18 := rfl
    have hshare : intOfBytes (lastMove infohashC newMaxMoveSize).newMoverShare = 100 := rfl
    have hamount : intOfBytes lastCoin.amount = 100 := rfl
    refine ⟨hne, ?_, hs, ?_, ?_, hc⟩
    · rw [hlen, hmax]
      norm_num
    · rw [hshare, hamount]
    · rw [hshare]
      norm_num

theorem security_contract_lastMove :
    lastProgram.isPair ∧
      SecurityContract Sha256.sha256 (interpret (eValidator Sha256.sha256)) lastProgram lastState
        lastCoin (lastMove [] []) := by
  refine ⟨rfl, (security_contract_iff rfl (runs_interpret _ _)
    (lastMove_plays (.inl rfl) (by decide))).mpr ?_⟩
  rintro ⟨-, hgoes⟩
  exact hgoes ⟨rfl, rfl⟩

/-- A commitment to a next validator goes unpunished. -/
theorem next_validator_escapes_slash :
    ¬ SecurityContract Sha256.sha256 (interpret (eValidator Sha256.sha256)) lastProgram lastState
      lastCoin (lastMove (List.replicate 32 7) [18]) := by
  rintro ⟨hillegal, -⟩
  obtain ⟨evidence, -, hpays⟩ := hillegal fun hlegal => absurd hlegal.2.1 (by simp [lastMove])
  exact (lastMove_plays (.inr rfl) (by decide)).not_slashPays rfl (runs_interpret _ _)
    (lastMove_fair _ _) evidence hpays

end ChiaGaming.Calpoker
