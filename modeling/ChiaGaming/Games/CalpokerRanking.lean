import ChiaGaming.Games.CalpokerHands
import ChiaGaming.Games.Ranking

namespace ChiaGaming.Calpoker

/-! The ranking of poker hands. -/

/-- The weakest first. -/
inductive Category where
  | highCard
  | onePair
  | twoPair
  | threeOfAKind
  | straight
  | flush
  | fullHouse
  | fourOfAKind
  | straightFlush
  deriving DecidableEq

def Category.strength : Category → ℕ
  | highCard => 0
  | onePair => 1
  | twoPair => 2
  | threeOfAKind => 3
  | straight => 4
  | flush => 5
  | fullHouse => 6
  | fourOfAKind => 7
  | straightFlush => 8

def Category.counts : Category → List ℕ
  | highCard => [1, 1, 1, 1, 1]
  | onePair => [2, 1, 1, 1]
  | twoPair => [2, 2, 1]
  | threeOfAKind => [3, 1, 1]
  | straight => [3, 1, 2]
  | flush => [3, 1, 3]
  | fullHouse => [3, 2]
  | fourOfAKind => [4, 1]
  | straightFlush => [5]

def categories : Kinds Category where
  strength := Category.strength
  counts := Category.counts
  strength_injective := by
    intro c c' h
    cases c <;> cases c' <;> first | rfl | cases h
  told := by
    intro c c' h
    cases c <;> cases c' <;> first | rfl | exact absurd h (by decide)

/-- Five ranks in a row; the ace also stands below the two. -/
def IsStraight (ranks : List ℕ) (high : ℕ) : Prop :=
  (∃ low, high = low + 4 ∧ ranks.Perm [low + 4, low + 3, low + 2, low + 1, low]) ∨
    high = 5 ∧ ranks.Perm [14, 5, 4, 3, 2]

def SameSuit (suits : List ℕ) : Prop := ∀ s ∈ suits, ∀ t ∈ suits, s = t

/-- The category of a hand, and the ranks that decide between two hands of the category, the most
important first. -/
inductive Rated (ranks suits : List ℕ) : Category → List ℕ → Prop where
  | straightFlush {high : ℕ} (hsuit : SameSuit suits) (h : IsStraight ranks high) :
      Rated ranks suits .straightFlush [high]
  | fourOfAKind {quad kicker : ℕ} (h : ranks.Perm [quad, quad, quad, quad, kicker]) (hne : quad ≠ kicker) :
      Rated ranks suits .fourOfAKind [quad, kicker]
  | fullHouse {set pair : ℕ} (h : ranks.Perm [set, set, set, pair, pair]) (hne : set ≠ pair) :
      Rated ranks suits .fullHouse [set, pair]
  | flush {a b c d e : ℕ} (hsuit : SameSuit suits) (hstraight : ∀ high, ¬ IsStraight ranks high)
      (h : ranks.Perm [a, b, c, d, e]) (hdesc : a > b ∧ b > c ∧ c > d ∧ d > e) :
      Rated ranks suits .flush [a, b, c, d, e]
  | straight {high : ℕ} (hsuit : ¬ SameSuit suits) (h : IsStraight ranks high) :
      Rated ranks suits .straight [high]
  | threeOfAKind {set a b : ℕ} (h : ranks.Perm [set, set, set, a, b]) (hne : set ≠ a ∧ set ≠ b) (hdesc : a > b) :
      Rated ranks suits .threeOfAKind [set, a, b]
  | twoPair {high low kicker : ℕ} (h : ranks.Perm [high, high, low, low, kicker])
      (hne : high ≠ kicker ∧ low ≠ kicker) (hdesc : high > low) : Rated ranks suits .twoPair [high, low, kicker]
  | onePair {pair a b c : ℕ} (h : ranks.Perm [pair, pair, a, b, c]) (hne : pair ≠ a ∧ pair ≠ b ∧ pair ≠ c)
      (hdesc : a > b ∧ b > c) : Rated ranks suits .onePair [pair, a, b, c]
  | highCard {a b c d e : ℕ} (hsuit : ¬ SameSuit suits) (hstraight : ∀ high, ¬ IsStraight ranks high)
      (h : ranks.Perm [a, b, c, d, e]) (hdesc : a > b ∧ b > c ∧ c > d ∧ d > e) :
      Rated ranks suits .highCard [a, b, c, d, e]

/-! Five single cards. -/

section Singles

variable {ranks : List ℕ} {a b c d e high : ℕ}

theorem straightHigh_singles : straightHigh [1, 1, 1, 1, 1, a, b, c, d, e] =
    some (if e + 4 = a then a else if a = 14 then if b = 5 then 5 else 0 else 0) := by
  rw [straightHigh]
  simp only [List.getElem?_cons_zero, List.getElem?_cons_succ, Option.bind_eq_bind, Option.bind_some, ne_eq,
    not_true_eq_false, if_false]
  split_ifs <;> rfl

/-- A straight is told by its ends, but for the ace below the two. -/
theorem isStraight_iff (h : ranks.Perm [a, b, c, d, e]) (hdesc : a > b ∧ b > c ∧ c > d ∧ d > e) (hlow : 2 ≤ e) :
    IsStraight ranks high ↔ e + 4 = a ∧ high = a ∨ a = 14 ∧ b = 5 ∧ high = 5 := by
  have hsorted := desc_of_gt hdesc
  constructor
  · rintro (⟨low, rfl, hperm⟩ | ⟨rfl, hperm⟩)
    · have heq := eq_of_perm_desc (h.symm.trans hperm) hsorted (desc_of_gt (by omega))
      simp only [List.cons.injEq] at heq
      omega
    · have heq := eq_of_perm_desc (h.symm.trans hperm) hsorted (by decide)
      simp only [List.cons.injEq] at heq
      omega
  · rintro (⟨hend, rfl⟩ | ⟨rfl, rfl, rfl⟩)
    · obtain ⟨rfl, rfl, rfl, rfl⟩ : high = e + 4 ∧ b = e + 3 ∧ c = e + 2 ∧ d = e + 1 := by omega
      exact .inl ⟨e, rfl, h⟩
    · obtain ⟨rfl, rfl, rfl⟩ : c = 4 ∧ d = 3 ∧ e = 2 := by omega
      exact .inr ⟨rfl, h⟩

end Singles

/-! The value of a hand from its groups. -/

/-- What `onehandcalc_inner` makes of the counts and the ranks of the groups. -/
def rateGroups (hand : List ℕ) (flush : Bool) : Option (List ℕ) := do
  let firstCount ← hand[0]?
  let secondCount ← hand[1]?
  let shigh ← straightHigh hand
  if shigh ≠ 0 then
    if flush then some [5, shigh]
    else if firstCount = 4 ∨ (firstCount = 3 ∧ secondCount = 2) then some hand
    else some [3, 1, 2, shigh]
  else if flush ∧ (firstCount < 3 ∨ (firstCount = 3 ∧ secondCount < 2)) then
    if 5 ≤ hand.length then some (3 :: 1 :: 3 :: hand.drop 5) else none
  else some hand

theorem onehandcalcInner_pairs {ranks : List ℕ} (pairs : List (ℕ × ℕ)) (flush : Bool) (hne : ranks ≠ [])
    (hlt : ∀ r ∈ ranks, r < 16) (hperm : ranks.Perm (pairs.flatMap fun p => List.replicate p.1 p.2))
    (hone : ∀ p ∈ pairs, 1 ≤ p.1) (hd : (pairs.map Prod.snd).Nodup)
    (hs : (pairs.map fun p => 16 * p.1 + p.2).Pairwise (· ≥ ·)) :
    onehandcalcInner ranks flush = rateGroups (pairs.map Prod.fst ++ pairs.map Prod.snd) flush := by
  obtain ⟨raw, hraw, hcounts, hranks⟩ := groupByCount_of_pairs pairs hne hlt hperm hone hd hs
  rw [← hcounts, ← hranks, onehandcalcInner, hraw]
  rfl

/-- A group of at least two cards comes first, so that there is no straight. -/
theorem rateGroups_grouped {first second : ℕ} {rest : List ℕ} {flush : Bool} (hfirst : first ≠ 1)
    (hflush : flush = true → first = 3 ∧ 2 ≤ second ∨ 3 < first) :
    rateGroups (first :: second :: rest) flush = some (first :: second :: rest) := by
  have hshigh : straightHigh (first :: second :: rest) = some 0 := by
    rw [straightHigh]
    exact if_pos hfirst
  have hnot : ¬ (flush = true ∧ (first < 3 ∨ first = 3 ∧ second < 2)) := by
    rintro ⟨hf, hcounts⟩
    have := hflush hf
    omega
  rw [rateGroups, hshigh]
  exact if_neg hnot

theorem rateGroups_singles {a b c d e : ℕ} {flush : Bool} (shigh : ℕ)
    (h : straightHigh [1, 1, 1, 1, 1, a, b, c, d, e] = some shigh) :
    rateGroups [1, 1, 1, 1, 1, a, b, c, d, e] flush =
      if shigh ≠ 0 then if flush then some [5, shigh] else some [3, 1, 2, shigh]
      else if flush then some [3, 1, 3, a, b, c, d, e] else some [1, 1, 1, 1, 1, a, b, c, d, e] := by
  rw [rateGroups, h]
  cases flush <;> rfl

section Value

variable {ranks suits ks : List ℕ} {category : Category} {flush : Bool}

theorem rateGroups_straight {a b c d e high : ℕ} (h : ranks.Perm [a, b, c, d, e])
    (hdesc : a > b ∧ b > c ∧ c > d ∧ d > e) (hlow : 2 ≤ e) (hstraight : IsStraight ranks high) :
    rateGroups [1, 1, 1, 1, 1, a, b, c, d, e] flush = some (if flush then [5, high] else [3, 1, 2, high]) := by
  have hends := (isStraight_iff h hdesc hlow).mp hstraight
  have hshigh : (if e + 4 = a then a else if a = 14 then if b = 5 then 5 else 0 else 0) = high := by
    split_ifs <;> omega
  have hpos : high ≠ 0 := by omega
  rw [rateGroups_singles _ straightHigh_singles, hshigh, if_pos hpos]
  cases flush <;> rfl

theorem rateGroups_noStraight {a b c d e : ℕ} (h : ranks.Perm [a, b, c, d, e])
    (hdesc : a > b ∧ b > c ∧ c > d ∧ d > e) (hlow : 2 ≤ e) (hstraight : ∀ high, ¬ IsStraight ranks high) :
    rateGroups [1, 1, 1, 1, 1, a, b, c, d, e] flush =
      some (if flush then [3, 1, 3, a, b, c, d, e] else [1, 1, 1, 1, 1, a, b, c, d, e]) := by
  have hends := fun high => mt (isStraight_iff h hdesc hlow).mpr (hstraight high)
  have hshigh : (if e + 4 = a then a else if a = 14 then if b = 5 then 5 else 0 else 0) = 0 := by
    have hself := hends a
    have hwheel := hends 5
    split_ifs <;> omega
  rw [rateGroups_singles _ straightHigh_singles, hshigh, if_neg (by simp)]
  cases flush <;> rfl

/-- The ranks of a straight, from the high card down. -/
theorem IsStraight.singles {high : ℕ} (h : IsStraight ranks high) (hlow : ∀ r ∈ ranks, 2 ≤ r) :
    ∃ a b c d e, ranks.Perm [a, b, c, d, e] ∧ (a > b ∧ b > c ∧ c > d ∧ d > e) ∧ 2 ≤ e := by
  rcases h with ⟨low, rfl, hperm⟩ | ⟨rfl, hperm⟩
  · refine ⟨low + 4, low + 3, low + 2, low + 1, low, hperm, by omega, ?_⟩
    exact hlow low (hperm.mem_iff.mpr (by simp))
  · exact ⟨14, 5, 4, 3, 2, hperm, by decide, le_rfl⟩

theorem onehandcalcInner_singles {a b c d e : ℕ} (h : ranks.Perm [a, b, c, d, e])
    (hlt : ∀ r ∈ ranks, r < 16) (hdesc : a > b ∧ b > c ∧ c > d ∧ d > e) :
    onehandcalcInner ranks flush = rateGroups [1, 1, 1, 1, 1, a, b, c, d, e] flush := by
  have hne : ranks ≠ [] := by
    rintro rfl
    cases h.nil_eq
  refine onehandcalcInner_pairs [(1, a), (1, b), (1, c), (1, d), (1, e)] flush hne hlt h (by simp) ?_ ?_
  · exact (desc_of_gt hdesc).imp fun hgt => hgt.ne'
  · simp
    omega

/-- The evaluator computes the value of a hand. -/
theorem Rated.onehandcalcInner_eq (h : Rated ranks suits category ks) (hrank : ∀ r ∈ ranks, 2 ≤ r ∧ r < 16)
    (hdistinct : SameSuit suits → ranks.Nodup) (hflush : flush = true ↔ SameSuit suits) :
    onehandcalcInner ranks flush = some (categories.value category ks) := by
  have hlow : ∀ r ∈ ranks, 2 ≤ r := fun r hr => (hrank r hr).1
  have hlt : ∀ r ∈ ranks, r < 16 := fun r hr => (hrank r hr).2
  -- two cards of a rank are of different suits
  have hnot : ∀ x rest, ranks.Perm (x :: x :: rest) → flush ≠ true := by
    intro x rest hperm hf
    have hnodup := hperm.nodup_iff.mp (hdistinct (hflush.mp hf))
    simp at hnodup
  have hnil : ∀ x rest, ranks.Perm (x :: rest) → ranks ≠ [] := by
    rintro x rest hperm rfl
    cases hperm.nil_eq
  cases h with
  | @straightFlush high hsuit hstraight =>
    obtain ⟨a, b, c, d, e, hperm, hdesc, he⟩ := hstraight.singles hlow
    rw [onehandcalcInner_singles hperm hlt hdesc, rateGroups_straight hperm hdesc he hstraight,
      if_pos (hflush.mpr hsuit)]
    rfl
  | @straight high hsuit hstraight =>
    obtain ⟨a, b, c, d, e, hperm, hdesc, he⟩ := hstraight.singles hlow
    rw [onehandcalcInner_singles hperm hlt hdesc, rateGroups_straight hperm hdesc he hstraight,
      if_neg (mt hflush.mp hsuit)]
    rfl
  | @flush a b c d e hsuit hstraight hperm hdesc =>
    have he := hlow e (hperm.mem_iff.mpr (by simp))
    rw [onehandcalcInner_singles hperm hlt hdesc, rateGroups_noStraight hperm hdesc he hstraight,
      if_pos (hflush.mpr hsuit)]
    rfl
  | @highCard a b c d e hsuit hstraight hperm hdesc =>
    have he := hlow e (hperm.mem_iff.mpr (by simp))
    rw [onehandcalcInner_singles hperm hlt hdesc, rateGroups_noStraight hperm hdesc he hstraight,
      if_neg (mt hflush.mp hsuit)]
    rfl
  | @fourOfAKind quad kicker hperm hne =>
    have hq := hlt kicker (hperm.mem_iff.mpr (by simp))
    rw [onehandcalcInner_pairs [(4, quad), (1, kicker)] flush (hnil _ _ hperm) hlt hperm (by simp)
      (by simpa using hne) (by simp; omega)]
    exact rateGroups_grouped (by simp) fun _ => by omega
  | @fullHouse set pair hperm hne =>
    have hp := hlt pair (hperm.mem_iff.mpr (by simp))
    rw [onehandcalcInner_pairs [(3, set), (2, pair)] flush (hnil _ _ hperm) hlt hperm (by simp)
      (by simpa using hne) (by simp; omega)]
    exact rateGroups_grouped (by simp) fun _ => by omega
  | @threeOfAKind set a b hperm hne hdesc =>
    have ha := hlt a (hperm.mem_iff.mpr (by simp))
    rw [onehandcalcInner_pairs [(3, set), (1, a), (1, b)] flush (hnil _ _ hperm) hlt hperm (by simp)
      (by simp; omega) (by simp; omega)]
    exact rateGroups_grouped (by simp) fun hf => absurd hf (hnot _ _ hperm)
  | @twoPair high low kicker hperm hne hdesc =>
    have hk := hlt kicker (hperm.mem_iff.mpr (by simp))
    rw [onehandcalcInner_pairs [(2, high), (2, low), (1, kicker)] flush (hnil _ _ hperm) hlt hperm (by simp)
      (by simp; omega) (by simp; omega)]
    exact rateGroups_grouped (by simp) fun hf => absurd hf (hnot _ _ hperm)
  | @onePair pair a b c hperm hne hdesc =>
    have ha := hlt a (hperm.mem_iff.mpr (by simp))
    rw [onehandcalcInner_pairs [(2, pair), (1, a), (1, b), (1, c)] flush (hnil _ _ hperm) hlt hperm (by simp)
      (by simp; omega) (by simp; omega)]
    exact rateGroups_grouped (by simp) fun hf => absurd hf (hnot _ _ hperm)

end Value

/-- Five ranks, not all of them equal, are rated. -/
theorem exists_rated {ranks : List ℕ} (suits : List ℕ) (h5 : ranks.length = 5) (hlt : ∀ r ∈ ranks, r < 16)
    (hmixed : ∃ r ∈ ranks, ∃ s ∈ ranks, r ≠ s) : ∃ category ks, Rated ranks suits category ks := by
  cases pattern_of_five h5 hlt with
  | fiveAlike rank h =>
    obtain ⟨r, hr, s, hs, hne⟩ := hmixed
    have hall : ∀ x ∈ ranks, x = rank := by
      intro x hx
      simpa using h.mem_iff.mp hx
    exact absurd ((hall r hr).trans (hall s hs).symm) hne
  | fourAlike quad kicker h hne => exact ⟨_, _, .fourOfAKind h hne⟩
  | threeAndTwo set pair h hne => exact ⟨_, _, .fullHouse h hne⟩
  | threeAlike set a b h hne hdesc => exact ⟨_, _, .threeOfAKind h hne hdesc⟩
  | twoPairs high low kicker h hne hdesc => exact ⟨_, _, .twoPair h hne hdesc⟩
  | onePair pair a b c h hne hdesc => exact ⟨_, _, .onePair h hne hdesc⟩
  | singles a b c d e h hdesc =>
    by_cases hsuit : SameSuit suits
    · by_cases hstraight : ∃ high, IsStraight ranks high
      · obtain ⟨high, hhigh⟩ := hstraight
        exact ⟨_, _, .straightFlush hsuit hhigh⟩
      · exact ⟨_, _, .flush hsuit (fun high hhigh => hstraight ⟨high, hhigh⟩) h hdesc⟩
    · by_cases hstraight : ∃ high, IsStraight ranks high
      · obtain ⟨high, hhigh⟩ := hstraight
        exact ⟨_, _, .straight hsuit hhigh⟩
      · exact ⟨_, _, .highCard hsuit (fun high hhigh => hstraight ⟨high, hhigh⟩) h hdesc⟩

/-- A hand of few groups is never cut as a flush, so that even five cards that no deck has are rated. -/
theorem rateGroups_isSome {first second : ℕ} {rest : List ℕ} (flush : Bool) (hfirst : first ≠ 1)
    (hlen : first < 3 ∨ first = 3 ∧ second < 2 → 3 ≤ rest.length) :
    (rateGroups (first :: second :: rest) flush).isSome := by
  have hshigh : straightHigh (first :: second :: rest) = some 0 := by
    rw [straightHigh]
    exact if_pos hfirst
  by_cases hcut : flush = true ∧ (first < 3 ∨ first = 3 ∧ second < 2)
  · have heq : rateGroups (first :: second :: rest) flush =
        if 5 ≤ (first :: second :: rest).length then some (3 :: 1 :: 3 :: (first :: second :: rest).drop 5) else none := by
      rw [rateGroups, hshigh]
      exact if_pos hcut
    rw [heq, if_pos (by have := hlen hcut.2; simp only [List.length_cons]; omega)]
    rfl
  · have heq : rateGroups (first :: second :: rest) flush = some (first :: second :: rest) := by
      rw [rateGroups, hshigh]
      exact if_neg hcut
    rw [heq]
    rfl

theorem onehandcalcInner_isSome {ranks : List ℕ} (flush : Bool) (h5 : ranks.length = 5) (hlt : ∀ r ∈ ranks, r < 16) :
    (onehandcalcInner ranks flush).isSome := by
  have hne : ranks ≠ [] := by
    rintro rfl
    cases h5
  cases pattern_of_five h5 hlt with
  | fiveAlike rank h =>
    rw [onehandcalcInner_pairs [(5, rank)] flush hne hlt h (by simp) (by simp) (by simp)]
    exact rateGroups_isSome flush (by simp) (by simp)
  | fourAlike quad kicker h hd =>
    have hk := hlt kicker (h.mem_iff.mpr (by simp))
    rw [onehandcalcInner_pairs [(4, quad), (1, kicker)] flush hne hlt h (by simp) (by simpa using hd) (by simp; omega)]
    exact rateGroups_isSome flush (by simp) (by simp)
  | threeAndTwo set pair h hd =>
    have hp := hlt pair (h.mem_iff.mpr (by simp))
    rw [onehandcalcInner_pairs [(3, set), (2, pair)] flush hne hlt h (by simp) (by simpa using hd) (by simp; omega)]
    exact rateGroups_isSome flush (by simp) (by simp)
  | threeAlike set a b h hd hdesc =>
    have ha := hlt a (h.mem_iff.mpr (by simp))
    rw [onehandcalcInner_pairs [(3, set), (1, a), (1, b)] flush hne hlt h (by simp) (by simp; omega) (by simp; omega)]
    exact rateGroups_isSome flush (by simp) (by simp)
  | twoPairs high low kicker h hd hdesc =>
    have hk := hlt kicker (h.mem_iff.mpr (by simp))
    rw [onehandcalcInner_pairs [(2, high), (2, low), (1, kicker)] flush hne hlt h (by simp) (by simp; omega)
      (by simp; omega)]
    exact rateGroups_isSome flush (by simp) (by simp)
  | onePair pair a b c h hd hdesc =>
    have ha := hlt a (h.mem_iff.mpr (by simp))
    rw [onehandcalcInner_pairs [(2, pair), (1, a), (1, b), (1, c)] flush hne hlt h (by simp) (by simp; omega)
      (by simp; omega)]
    exact rateGroups_isSome flush (by simp) (by simp)
  | singles a b c d e h hdesc =>
    rw [onehandcalcInner_singles h hlt hdesc, rateGroups_singles _ straightHigh_singles]
    split_ifs <;> rfl

theorem onehandcalc_isSome {cards : List ℕ} (h5 : cards.length = 5) (hdeck : ∀ card ∈ cards, card < 52) :
    (onehandcalc cards).isSome := by
  rcases cards with _ | ⟨a, _ | ⟨b, _ | ⟨c, _ | ⟨d, _ | ⟨e, _ | ⟨f, t⟩⟩⟩⟩⟩⟩
  any_goals simp at h5
  simp only [List.mem_cons, List.not_mem_nil, or_false, forall_eq_or_imp, forall_eq] at hdeck
  apply onehandcalcInner_isSome
  · rfl
  · simp only [List.mem_cons, List.not_mem_nil, or_false, forall_eq_or_imp, forall_eq]
    omega

/-! Hands of the deck. -/

structure FiveCards (cards : List ℕ) : Prop where
  five : cards.length = 5
  deck : ∀ card ∈ cards, card < 52
  distinct : cards.Nodup

def ranksOf (cards : List ℕ) : List ℕ := cards.map fun card => (mod52ToPair card).1

def suitsOf (cards : List ℕ) : List ℕ := cards.map fun card => (mod52ToPair card).2

/-- The standard rating of a hand. -/
def Rates (cards : List ℕ) (category : Category) (ks : List ℕ) : Prop :=
  Rated (ranksOf cards) (suitsOf cards) category ks

theorem mod52ToPair_injective {card card' : ℕ} (h : mod52ToPair card = mod52ToPair card') : card = card' := by
  simp only [mod52ToPair, Prod.mk.injEq] at h
  omega

section Deck

variable {cards : List ℕ} {category : Category} {ks : List ℕ}

theorem FiveCards.ranks_lt (h : FiveCards cards) : ∀ r ∈ ranksOf cards, 2 ≤ r ∧ r < 16 := by
  intro r hr
  obtain ⟨card, hcard, rfl⟩ := List.mem_map.mp hr
  have := h.deck card hcard
  simp only [mod52ToPair]
  omega

/-- Cards of one suit are told apart by their rank. -/
theorem FiveCards.ranks_nodup (h : FiveCards cards) (hsuit : SameSuit (suitsOf cards)) : (ranksOf cards).Nodup := by
  apply h.distinct.map_on
  intro card hcard card' hcard' hrank
  apply mod52ToPair_injective
  exact Prod.ext hrank (hsuit _ (List.mem_map.mpr ⟨card, hcard, rfl⟩) _ (List.mem_map.mpr ⟨card', hcard', rfl⟩))

/-- There are four cards of a rank. -/
theorem FiveCards.mixed (h : FiveCards cards) : ∃ r ∈ ranksOf cards, ∃ s ∈ ranksOf cards, r ≠ s := by
  by_contra hall
  push Not at hall
  have hsub : suitsOf cards ⊆ [1, 2, 3, 4] := by
    intro s hs
    obtain ⟨card, -, rfl⟩ := List.mem_map.mp hs
    simp only [mod52ToPair, List.mem_cons, List.not_mem_nil, or_false]
    omega
  have hnodup : (suitsOf cards).Nodup := by
    apply h.distinct.map_on
    intro card hcard card' hcard' hsuit
    apply mod52ToPair_injective
    exact Prod.ext (hall _ (List.mem_map.mpr ⟨card, hcard, rfl⟩) _ (List.mem_map.mpr ⟨card', hcard', rfl⟩)) hsuit
  have hle := (List.subperm_of_subset hnodup hsub).length_le
  rw [suitsOf, List.length_map, h.five] at hle
  exact absurd hle (by decide)

theorem FiveCards.onehandcalc_eq (h : FiveCards cards) :
    ∃ flush : Bool, (flush = true ↔ SameSuit (suitsOf cards)) ∧
      onehandcalc cards = onehandcalcInner (ranksOf cards) flush := by
  have h5 := h.five
  rcases cards with _ | ⟨a, _ | ⟨b, _ | ⟨c, _ | ⟨d, _ | ⟨e, _ | ⟨f, t⟩⟩⟩⟩⟩⟩
  any_goals simp at h5
  refine ⟨_, ?_, rfl⟩
  simp only [decide_eq_true_eq, SameSuit, suitsOf, mod52ToPair, List.map_cons, List.map_nil, List.mem_cons,
    List.not_mem_nil, or_false, forall_eq_or_imp, forall_eq, true_and, and_true]
  omega

theorem Rates.onehandcalc_eq (h : Rates cards category ks) (h5 : FiveCards cards) :
    onehandcalc cards = some (categories.value category ks) := by
  obtain ⟨flush, hflush, heq⟩ := h5.onehandcalc_eq
  rw [heq]
  exact h.onehandcalcInner_eq h5.ranks_lt h5.ranks_nodup hflush

theorem FiveCards.exists_rates (h : FiveCards cards) : ∃ category ks, Rates cards category ks := by
  have hlen : (ranksOf cards).length = 5 := by
    rw [ranksOf, List.length_map, h.five]
  exact exists_rated _ hlen (fun r hr => (h.ranks_lt r hr).2) h.mixed

theorem Rates.unique {category' : Category} {ks' : List ℕ} (h : Rates cards category ks)
    (h' : Rates cards category' ks') (h5 : FiveCards cards) : category = category' ∧ ks = ks' := by
  have heq := (h.onehandcalc_eq h5).symm.trans (h'.onehandcalc_eq h5)
  exact Kinds.value_injective (Option.some.inj heq)

end Deck

end ChiaGaming.Calpoker
