import ChiaGaming.Games.Calpoker

namespace ChiaGaming.Calpoker

/-! Values of hands.  The first counts tell the kind of hand and with it the length, so that no
value is a proper beginning of another and both comparisons are the same. -/

def handLength : List ℕ → ℕ
  | 5 :: _ => 2
  | 4 :: _ => 4
  | 3 :: 2 :: _ => 4
  | 3 :: 1 :: 3 :: _ => 8
  | 3 :: 1 :: 2 :: _ => 4
  | 3 :: 1 :: 1 :: _ => 6
  | 2 :: 2 :: _ => 6
  | 2 :: 1 :: _ => 8
  | 1 :: _ => 10
  | _ => 0

def Shaped (hand : List ℕ) : Prop := 0 < handLength hand ∧ hand.length = handLength hand

theorem handLength_append {hand : List ℕ} (h : 0 < handLength hand) (t : List ℕ) :
    handLength (hand ++ t) = handLength hand := by
  revert h
  fun_cases handLength hand <;> simp_all [handLength]

theorem Shaped.eq_of_prefix {a b : List ℕ} (ha : Shaped a) (hb : Shaped b) (h : a <+: b) :
    a = b := by
  apply h.eq_of_length
  obtain ⟨t, rfl⟩ := h
  rw [ha.2, hb.2, handLength_append ha.1]

theorem deepCompare_nat (x y : ℕ) :
    deepCompare (.nat x) (.nat y) = if x > y then 1 else if y > x then -1 else 0 := by
  simp only [Clvm.nat, deepCompare, intOfBytes_bytesOfNat, gt_iff_lt, Nat.cast_lt]

theorem listCompare_eq_deepCompare {a b : List ℕ} (hne : a ≠ []) (hne' : b ≠ [])
    (hab : a <+: b → a = b) (hba : b <+: a → a = b) :
    listCompare a b = some (deepCompare (handToClvm a) (handToClvm b)) := by
  induction a generalizing b with
  | nil => exact absurd rfl hne
  | cons x a ih =>
    cases b with
    | nil => exact absurd rfl hne'
    | cons y b =>
      have hd : deepCompare (handToClvm (x :: a)) (handToClvm (y :: b)) =
          if deepCompare (.nat x) (.nat y) ≠ 0 then deepCompare (.nat x) (.nat y)
          else deepCompare (handToClvm a) (handToClvm b) := rfl
      rw [listCompare, hd, deepCompare_nat]
      by_cases hxy : x = y
      · subst hxy
        rw [if_pos rfl]
        simp only [gt_iff_lt, lt_irrefl, if_false, ne_eq, not_true_eq_false]
        by_cases ha : a = []
        · have hb : b = [] := by
            have := hab (by simp [ha])
            simpa [ha] using this.symm
          simp [ha, hb, handToClvm]
        · rw [if_neg ha]
          apply ih ha
          · rintro rfl
            have := hba (by simp)
            exact ha (by simpa using this)
          · intro h
            have := hab (by simpa using h)
            simpa using this
          · intro h
            have := hba (by simpa using h)
            simpa using this
      · rw [if_neg hxy]
        rcases Nat.lt_or_gt_of_ne hxy with h | h
        · simp [h, Nat.not_lt_of_gt h]
        · simp [h]

theorem Shaped.listCompare_eq {a b : List ℕ} (ha : Shaped a) (hb : Shaped b) :
    listCompare a b = some (deepCompare (handToClvm a) (handToClvm b)) := by
  apply listCompare_eq_deepCompare
  · rintro rfl
    exact absurd ha.1 (by simp [handLength])
  · rintro rfl
    exact absurd hb.1 (by simp [handLength])
  · exact ha.eq_of_prefix hb
  · intro h
    exact (hb.eq_of_prefix ha h).symm

/-- Counts of five cards, largest first, are the beginning of a value of twice their number. -/
theorem handLength_counts (counts ranks : List ℕ) (hs : counts.Pairwise (· ≥ ·))
    (h1 : ∀ c ∈ counts, 1 ≤ c) (hsum : counts.sum = 5) :
    handLength (counts ++ ranks) = 2 * counts.length := by
  rcases counts with _ | ⟨a, _ | ⟨b, _ | ⟨c, _ | ⟨d, _ | ⟨e, _ | ⟨f, t⟩⟩⟩⟩⟩⟩
  · simp at hsum
  · obtain rfl : a = 5 := by simpa using hsum
    rfl
  · simp at hs h1 hsum
    obtain ⟨rfl, rfl⟩ | ⟨rfl, rfl⟩ : (a = 4 ∧ b = 1) ∨ (a = 3 ∧ b = 2) := by omega
    · rfl
    · rfl
  · simp at hs h1 hsum
    obtain ⟨rfl, rfl, rfl⟩ | ⟨rfl, rfl, rfl⟩ :
        (a = 3 ∧ b = 1 ∧ c = 1) ∨ (a = 2 ∧ b = 2 ∧ c = 1) := by omega
    · rfl
    · rfl
  · simp at hs h1 hsum
    obtain ⟨rfl, rfl, rfl, rfl⟩ : a = 2 ∧ b = 1 ∧ c = 1 ∧ d = 1 := by omega
    rfl
  · simp at hs h1 hsum
    obtain ⟨rfl, rfl, rfl, rfl, rfl⟩ : a = 1 ∧ b = 1 ∧ c = 1 ∧ d = 1 ∧ e = 1 := by omega
    rfl
  · simp at h1 hsum
    omega

theorem straightHigh_isSome {hand : List ℕ} (h0 : 0 < hand.length)
    (h : hand[0]? = some 1 → hand.length = 10) : (straightHigh hand).isSome := by
  rw [straightHigh, List.getElem?_eq_getElem h0]
  simp only [Option.bind_eq_bind, Option.bind_some]
  split
  · rfl
  · rename_i h1
    have hlen := h (by rw [List.getElem?_eq_getElem h0, not_not.mp h1])
    rw [List.getElem?_eq_getElem (by omega), List.getElem?_eq_getElem (by omega),
      List.getElem?_eq_getElem (by omega), Option.bind_some, Option.bind_some, Option.bind_some]
    split_ifs <;> rfl

/-- Five ranks have a value of the right shape, if a flush has no two equal ranks. -/
theorem onehandcalcInner_shaped {ranks : List ℕ} {flush : Bool} (h5 : ranks.length = 5)
    (hlt : ∀ r ∈ ranks, r < 16) (hflush : flush → ranks.Nodup) :
    ∃ hand, onehandcalcInner ranks flush = some hand ∧ Shaped hand := by
  obtain ⟨groups, hgroups, hsum, hone, hcount⟩ := groups_spec (by rintro rfl; simp at h5) hlt
  have hsorted := atomsort_sorted groups
  simp only [onehandcalcInner, hgroups, Option.bind_eq_bind, Option.bind_some]
  generalize atomsort groups = raw at hsum hone hcount hsorted
  rw [h5] at hsum
  have hcs : (raw.map groupCount).Pairwise (· ≥ ·) := by
    rw [List.pairwise_map]
    exact hsorted.imp fun h => Nat.div_le_div_right h
  have hshape := handLength_counts (raw.map groupCount) (raw.map groupRank) hcs
    (by simpa using hone) hsum
  rw [List.length_map] at hshape
  obtain ⟨g, gs, hg⟩ : ∃ g gs, raw = g :: gs := by
    cases raw with
    | nil => simp at hsum
    | cons g gs => exact ⟨g, gs, rfl⟩
  have hpos : 1 ≤ raw.length := by
    rw [hg, List.length_cons]
    omega
  set hand := raw.map groupCount ++ raw.map groupRank with hhand
  have hlen : hand.length = 2 * raw.length := by
    rw [hhand, List.length_append, List.length_map, List.length_map]
    omega
  have hself : Shaped hand := ⟨by omega, by rw [hlen, hshape]⟩
  have hfirst : hand[0]? = some (groupCount g) := by
    rw [hhand, hg]
    rfl
  have hten : hand[0]? = some 1 → hand.length = 10 := by
    intro h1
    rw [hfirst, Option.some.injEq] at h1
    have hle := length_le_of_sorted_groups hg hsorted h1
    have hge : raw.length ≤ (raw.map groupCount).sum := by
      have := List.card_nsmul_le_sum (raw.map groupCount) 1 (by simpa using hone)
      simpa using this
    omega
  obtain ⟨shigh, hshigh⟩ := Option.isSome_iff_exists.mp (straightHigh_isSome (by omega) hten)
  have hsecond := List.getElem?_eq_getElem (show 1 < hand.length by omega)
  rw [hfirst, hsecond, hshigh, Option.bind_some, Option.bind_some, Option.bind_some]
  by_cases hs : shigh = 0
  · rw [if_neg (by simpa using hs)]
    by_cases hf : flush = true ∧
        (groupCount g < 3 ∨ (groupCount g = 3 ∧ hand[1] < 2))
    · -- in a flush every group is a single card
      have hg1 : groupCount g = 1 := by
        have hle := hcount g (by simp [hg])
        have hnodup := List.nodup_iff_count_le_one.mp (hflush hf.1) (groupRank g)
        have := hone g (by simp [hg])
        omega
      have h10 := hten (by rw [hfirst, hg1])
      rw [if_pos hf, if_pos (by omega)]
      refine ⟨_, rfl, by simp [handLength], ?_⟩
      simp [handLength, h10]
    · rw [if_neg hf]
      exact ⟨hand, rfl, hself⟩
  · rw [if_pos (by simpa using hs)]
    split
    · exact ⟨_, rfl, by simp [handLength], by simp [handLength]⟩
    · split
      · exact ⟨hand, rfl, hself⟩
      · exact ⟨_, rfl, by simp [handLength], by simp [handLength]⟩

/-- Five different cards of the deck have a value. -/
theorem onehandcalc_shaped {cards : List ℕ} (h5 : cards.length = 5) (hlt : ∀ c ∈ cards, c < 52)
    (hnodup : cards.Nodup) : ∃ hand, onehandcalc cards = some hand ∧ Shaped hand := by
  rcases cards with _ | ⟨a, _ | ⟨b, _ | ⟨c, _ | ⟨d, _ | ⟨e, _ | ⟨f, t⟩⟩⟩⟩⟩⟩
  any_goals simp at h5
  simp only [List.mem_cons, List.not_mem_nil, or_false, forall_eq_or_imp, forall_eq] at hlt
  apply onehandcalcInner_shaped
  · rfl
  · simp only [List.mem_cons, List.not_mem_nil, or_false, forall_eq_or_imp, forall_eq]
    omega
  · intro hflush
    simp only [decide_eq_true_eq] at hflush
    -- cards of one suit are told apart by their rank
    have hsuit : ∀ x ∈ [a, b, c, d, e], x % 4 = a % 4 := by
      simp only [List.mem_cons, List.not_mem_nil, or_false, forall_eq_or_imp, forall_eq, true_and]
      omega
    have hmap : ([a, b, c, d, e].map fun x => 2 + x / 4).Nodup := by
      apply hnodup.map_on
      intro x hx y hy (hxy : 2 + x / 4 = 2 + y / 4)
      have hx4 := hsuit x hx
      have hy4 := hsuit y hy
      omega
    exact hmap

end ChiaGaming.Calpoker
