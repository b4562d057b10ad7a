import ChiaGaming.Lib.Clvm
import Mathlib.Data.List.Sublists

namespace ChiaGaming

/-! Selections by bit mask: bit `i` of the mask selects element `i` of the list. -/

def popcountFuel : ℕ → ℕ → ℕ
  | 0, _ => 0
  | fuel + 1, n => n % 2 + popcountFuel fuel (n / 2)

/-- `(popcount mask)`; the shift reads the mask as an unsigned number. -/
def popcount (mask : Bytes) : ℕ := popcountFuel (8 * mask.length) (natOfBytes mask)

section Pull

variable {α : Type*}

def pullFromBitfield : List α → ℕ → List α
  | [], _ => []
  | c :: cs, mask =>
    if mask % 2 = 1 then c :: pullFromBitfield cs (mask / 2) else pullFromBitfield cs (mask / 2)

theorem pullFromBitfield_sublist (cards : List α) (mask : ℕ) :
    (pullFromBitfield cards mask).Sublist cards := by
  induction cards generalizing mask with
  | nil => exact .slnil
  | cons c cs ih =>
    rw [pullFromBitfield]
    split
    · exact (ih _).cons_cons c
    · exact (ih _).cons c

theorem popcountFuel_eq_length (cards : List α) (fuel mask : ℕ) (hm : mask < 2 ^ cards.length)
    (hf : cards.length ≤ fuel) :
    popcountFuel fuel mask = (pullFromBitfield cards mask).length := by
  induction cards generalizing fuel mask with
  | nil =>
    obtain rfl : mask = 0 := by simpa using hm
    have : ∀ k, popcountFuel k 0 = 0 := by
      intro k
      induction k with
      | zero => rfl
      | succ k ih => simpa [popcountFuel] using ih
    simp [this, pullFromBitfield]
  | cons c cs ih =>
    obtain ⟨fuel, rfl⟩ : ∃ k, fuel = k + 1 := ⟨fuel - 1, by simp at hf; omega⟩
    rw [popcountFuel, pullFromBitfield, ih fuel (mask / 2)]
    · split
      · rw [List.length_cons]
        omega
      · omega
    · rw [Nat.div_lt_iff_lt_mul (by norm_num)]
      simpa [pow_succ] using hm
    · simpa using hf

theorem length_pullFromBitfield_le (cards : List α) (fuel mask : ℕ) (hf : cards.length ≤ fuel) :
    (pullFromBitfield cards mask).length ≤ popcountFuel fuel mask := by
  induction cards generalizing fuel mask with
  | nil => exact Nat.zero_le _
  | cons c cs ih =>
    obtain ⟨fuel, rfl⟩ : ∃ k, fuel = k + 1 := ⟨fuel - 1, by simp at hf; omega⟩
    have hih := ih fuel (mask / 2) (by simpa using hf)
    rw [popcountFuel, pullFromBitfield]
    split
    · rw [List.length_cons]
      omega
    · omega

theorem le_snd_of_sublist {cards : List α} {i : ℕ} {l : List (α × ℕ)}
    (h : l.Sublist (cards.zipIdx i)) {j : ℕ} (hj : j ∈ l.map Prod.snd) : i ≤ j := by
  obtain ⟨⟨c, k⟩, hk, rfl⟩ := List.mem_map.mp hj
  have := List.mem_zipIdx (h.subset hk)
  exact this.1

/-- A mask whose bits are the positions of a sublist pulls that sublist. -/
theorem pullFromBitfield_eq (cards : List α) (i mask : ℕ) (l : List (α × ℕ))
    (h : l.Sublist (cards.zipIdx i)) (hm : ∀ j, mask.testBit j = decide (i + j ∈ l.map Prod.snd)) :
    pullFromBitfield cards mask = l.map Prod.fst := by
  induction cards generalizing i mask l with
  | nil =>
    have hl : l = [] := by simpa using h
    rw [hl]
    rfl
  | cons c cs ih =>
    rw [List.zipIdx_cons] at h
    have hdiv : ∀ j, (mask / 2).testBit j = mask.testBit (j + 1) := by
      intro j
      rw [Nat.testBit_succ]
    have h0 : mask % 2 = 1 ↔ i ∈ l.map Prod.snd := by
      have := hm 0
      rw [Nat.testBit_zero] at this
      simpa using this
    rw [pullFromBitfield]
    rcases List.sublist_cons_iff.mp h with hs | ⟨l', rfl, hs⟩
    · have hni : i ∉ l.map Prod.snd := by
        intro hi
        have := le_snd_of_sublist hs hi
        omega
      rw [if_neg (by rw [h0]; exact hni)]
      apply ih (i + 1) (mask / 2) l hs
      intro j
      rw [hdiv, hm, show i + (j + 1) = i + 1 + j by omega]
    · rw [if_pos (by rw [h0]; simp), List.map_cons]
      congr 1
      apply ih (i + 1) (mask / 2) l' hs
      intro j
      have hne : ¬ i + 1 + j = i := by omega
      rw [hdiv, hm, show i + (j + 1) = i + 1 + j by omega]
      simp [hne]

end Pull

/-! All selections of five.  An entry holds the selected elements, a mark of their positions and
their number; an entry that can no longer reach five is dropped. -/

section Choose

variable {α σ : Type*} (mark : ℕ → σ → σ) (start : σ)

def processEntries (card : α) (index : ℕ) : List (List α × σ × ℕ) → List (List α × σ × ℕ)
  | [] => []
  | (sel, s, count) :: entries =>
    let rest := processEntries card index entries
    let afterSkip := if count + index > 4 then (sel, s, count) :: rest else rest
    if count < 5 then (card :: sel, mark index s, count + 1) :: afterSkip else afterSkip

def chooseEntries : ℕ → List α → List (List α × σ × ℕ)
  | _, [] => [([], start, 0)]
  | index, card :: cards => processEntries mark card index (chooseEntries (index + 1) cards)

theorem mem_processEntries (card : α) (index : ℕ) (entries : List (List α × σ × ℕ))
    (e : List α × σ × ℕ) :
    e ∈ processEntries mark card index entries ↔
      (e ∈ entries ∧ e.2.2 + index > 4) ∨
      ∃ d ∈ entries, d.2.2 < 5 ∧ e = (card :: d.1, mark index d.2.1, d.2.2 + 1) := by
  induction entries with
  | nil => simp [processEntries]
  | cons d entries ih =>
    obtain ⟨sel, s, count⟩ := d
    simp only [processEntries]
    split_ifs with h1 h2 h2
    · simp only [List.mem_cons, ih, exists_eq_or_imp, h1, true_and]
      constructor
      · rintro (h | rfl | h | h)
        · exact .inr (.inl h)
        · exact .inl ⟨.inl rfl, h2⟩
        · exact .inl ⟨.inr h.1, h.2⟩
        · exact .inr (.inr h)
      · rintro (⟨rfl | h, h'⟩ | h | h)
        · exact .inr (.inl rfl)
        · exact .inr (.inr (.inl ⟨h, h'⟩))
        · exact .inl h
        · exact .inr (.inr (.inr h))
    · simp only [List.mem_cons, ih, exists_eq_or_imp, h1, true_and]
      constructor
      · rintro (h | h | h)
        · exact .inr (.inl h)
        · exact .inl ⟨.inr h.1, h.2⟩
        · exact .inr (.inr h)
      · rintro (⟨rfl | h, h'⟩ | h | h)
        · exact absurd h' h2
        · exact .inr (.inl ⟨h, h'⟩)
        · exact .inl h
        · exact .inr (.inr h)
    · simp only [List.mem_cons, ih, exists_eq_or_imp, h1, false_and, false_or]
      constructor
      · rintro (rfl | h | h)
        · exact .inl ⟨.inl rfl, h2⟩
        · exact .inl ⟨.inr h.1, h.2⟩
        · exact .inr h
      · rintro (⟨rfl | h, h'⟩ | h)
        · exact .inl rfl
        · exact .inr (.inl ⟨h, h'⟩)
        · exact .inr (.inr h)
    · omega

def markAll (mark : ℕ → σ → σ) (start : σ) (l : List (α × ℕ)) : σ :=
  l.foldr (fun p s => mark p.2 s) start

theorem mem_chooseEntries (cards : List α) (index : ℕ) (h5 : 5 ≤ index + cards.length)
    (e : List α × σ × ℕ) :
    e ∈ chooseEntries mark start index cards ↔
      ∃ l : List (α × ℕ), l.Sublist (cards.zipIdx index) ∧ l.length ≤ 5 ∧ 5 ≤ l.length + index ∧
        e = (l.map Prod.fst, markAll mark start l, l.length) := by
  induction cards generalizing index e with
  | nil =>
    simp only [chooseEntries, List.mem_singleton, List.zipIdx_nil, List.sublist_nil]
    constructor
    · rintro rfl
      exact ⟨[], rfl, by simp, by simpa using h5, rfl⟩
    · rintro ⟨l, rfl, -, -, rfl⟩
      rfl
  | cons c cs ih =>
    have hih := ih (index + 1) (by simp at h5; omega)
    rw [chooseEntries, mem_processEntries, List.zipIdx_cons]
    constructor
    · rintro (⟨he, hc⟩ | ⟨d, hd, hd5, rfl⟩)
      · obtain ⟨l, hs, hl, -, rfl⟩ := (hih e).mp he
        exact ⟨l, hs.cons _, hl, by simp only at hc; omega, rfl⟩
      · obtain ⟨l, hs, hl, hi, rfl⟩ := (hih d).mp hd
        refine ⟨(c, index) :: l, hs.cons_cons _, ?_, ?_, rfl⟩
        · simp only at hd5
          simp only [List.length_cons]
          omega
        · simp only [List.length_cons]
          omega
    · rintro ⟨l, hs, hl, hi, rfl⟩
      rcases List.sublist_cons_iff.mp hs with hs' | ⟨l', rfl, hs'⟩
      · left
        refine ⟨(hih _).mpr ⟨l, hs', hl, by omega, rfl⟩, ?_⟩
        simp only
        omega
      · right
        simp only [List.length_cons] at hl hi
        exact ⟨_, (hih _).mpr ⟨l', hs', by omega, by omega, rfl⟩, by simp only; omega, rfl⟩

def entryOf (l : List (α × ℕ)) : List α × σ × ℕ := (l.map Prod.fst, markAll mark start l, l.length)

theorem processEntries_perm (card : α) (index : ℕ) (entries : List (List α × σ × ℕ)) :
    (processEntries mark card index entries).Perm
      ((entries.filter fun e => 4 < e.2.2 + index) ++
        (entries.filter fun e => e.2.2 < 5).map fun d => (card :: d.1, mark index d.2.1, d.2.2 + 1)) := by
  induction entries with
  | nil => exact .refl _
  | cons d entries ih =>
    obtain ⟨sel, s, count⟩ := d
    simp only [processEntries, List.filter_cons, gt_iff_lt]
    by_cases hfew : count < 5
    · by_cases hreach : 4 < count + index
      · simp only [hfew, hreach, decide_true, if_true, List.map_cons, List.cons_append]
        exact ((ih.cons _).cons _).trans (((List.Perm.swap _ _ _).trans (List.perm_middle.symm.cons _)))
      · simp only [hfew, hreach, decide_true, decide_false, if_true, List.map_cons]
        exact (ih.cons _).trans List.perm_middle.symm
    · have hreach : 4 < count + index := by omega
      simp only [hfew, hreach, decide_true, decide_false, if_true, if_false, List.cons_append]
      exact ih.cons _

/-- Every selection that can still reach five is kept, and kept once. -/
theorem chooseEntries_perm (cards : List α) (index : ℕ) (h5 : 5 ≤ index + cards.length) :
    (chooseEntries mark start index cards).Perm
      (((cards.zipIdx index).sublists'.filter fun l => l.length ≤ 5 ∧ 5 ≤ l.length + index).map
        (entryOf mark start)) := by
  induction cards generalizing index with
  | nil =>
    have hstart : 5 ≤ index := h5
    simp [chooseEntries, entryOf, markAll, hstart]
  | cons c cs ih =>
    have hih := ih (index + 1) (by simp at h5; omega)
    rw [chooseEntries]
    refine (processEntries_perm mark c index _).trans ?_
    refine ((hih.filter _).append ((hih.filter _).map _)).trans (List.Perm.of_eq ?_)
    rw [List.zipIdx_cons, List.sublists'_cons, List.filter_append, List.map_append, List.filter_map, List.filter_map,
      List.filter_map, List.filter_filter, List.filter_filter, List.map_map, List.map_map]
    have hadd : (fun d : List α × σ × ℕ => (c :: d.1, mark index d.2.1, d.2.2 + 1)) ∘ entryOf mark start =
        entryOf mark start ∘ List.cons (c, index) := rfl
    rw [hadd]
    congr 1
    · congr 1
      apply List.filter_congr
      intro l _
      change (decide (4 < l.length + index) && decide (l.length ≤ 5 ∧ 5 ≤ l.length + (index + 1))) =
        decide (l.length ≤ 5 ∧ 5 ≤ l.length + index)
      rw [Bool.eq_iff_iff, Bool.and_eq_true, decide_eq_true_eq, decide_eq_true_eq, decide_eq_true_eq]
      omega
    · congr 1
      apply List.filter_congr
      intro l _
      change (decide (l.length < 5) && decide (l.length ≤ 5 ∧ 5 ≤ l.length + (index + 1))) =
        decide (l.length + 1 ≤ 5 ∧ 5 ≤ l.length + 1 + index)
      rw [Bool.eq_iff_iff, Bool.and_eq_true, decide_eq_true_eq, decide_eq_true_eq, decide_eq_true_eq]
      omega

/-- From the first position on, the entries are exactly the selections of five. -/
theorem mem_chooseEntries_zero (cards : List α) (h5 : 5 ≤ cards.length) (e : List α × σ × ℕ) :
    e ∈ chooseEntries mark start 0 cards ↔
      ∃ l : List (α × ℕ), l.Sublist (cards.zipIdx 0) ∧ l.length = 5 ∧
        e = (l.map Prod.fst, markAll mark start l, 5) := by
  rw [mem_chooseEntries mark start cards 0 (by omega)]
  constructor
  · rintro ⟨l, hs, hl, hi, rfl⟩
    have h : l.length = 5 := by omega
    exact ⟨l, hs, h, by rw [h]⟩
  · rintro ⟨l, hs, hl, rfl⟩
    exact ⟨l, hs, by omega, by omega, by rw [hl]⟩

/-- From the first position on, the entries are the selections of five, each of them once. -/
theorem chooseEntries_zero_perm (cards : List α) (h5 : 5 ≤ cards.length) :
    (chooseEntries mark start 0 cards).Perm (((cards.zipIdx 0).sublistsLen 5).map (entryOf mark start)) := by
  refine (chooseEntries_perm mark start cards 0 (by omega)).trans (List.Perm.map _ ?_)
  have hnodup : (cards.zipIdx 0).Nodup := by
    apply List.Nodup.of_map Prod.snd
    rw [List.zipIdx_map_snd]
    exact List.nodup_range'
  refine (List.perm_ext_iff_of_nodup ((List.nodup_sublists'.mpr hnodup).filter _)
    (List.nodup_sublistsLen 5 hnodup)).mpr fun l => ?_
  rw [List.mem_filter, List.mem_sublists', List.mem_sublistsLen, decide_eq_true_eq]
  refine and_congr_right fun _ => ?_
  omega

end Choose

/-! The mark as a bit mask. -/

def bitMark (index bits : ℕ) : ℕ := bits ||| 1 <<< index

section BitMark

variable {α : Type*}

theorem testBit_markAll_bitMark (l : List (α × ℕ)) (j : ℕ) :
    (markAll bitMark 0 l).testBit j = decide (j ∈ l.map Prod.snd) := by
  induction l with
  | nil => simp [markAll]
  | cons p l ih =>
    have h : markAll bitMark 0 (p :: l) = bitMark p.2 (markAll bitMark 0 l) := rfl
    rw [h, bitMark, Nat.testBit_or, ih, Nat.one_shiftLeft, Nat.testBit_two_pow]
    by_cases hj : p.2 = j
    · simp [hj]
    · have hj' : ¬ j = p.2 := fun h => hj h.symm
      simp [hj, hj']

theorem pullFromBitfield_markAll (cards : List α) (l : List (α × ℕ))
    (h : l.Sublist (cards.zipIdx 0)) :
    pullFromBitfield cards (markAll bitMark 0 l) = l.map Prod.fst := by
  apply pullFromBitfield_eq cards 0 _ l h
  intro j
  rw [testBit_markAll_bitMark, Nat.zero_add]

theorem markAll_bitMark_lt (cards : List α) (l : List (α × ℕ)) (h : l.Sublist (cards.zipIdx 0)) :
    markAll bitMark 0 l < 2 ^ cards.length := by
  apply Nat.lt_pow_two_of_testBit
  intro j hj
  rw [testBit_markAll_bitMark, decide_eq_false_iff_not]
  intro hmem
  obtain ⟨⟨c, k⟩, hk, rfl⟩ := List.mem_map.mp hmem
  have := (List.mem_zipIdx (h.subset hk)).2.1
  simp only at hj
  omega

end BitMark

end ChiaGaming
