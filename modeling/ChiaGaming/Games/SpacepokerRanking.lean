import ChiaGaming.Games.Ranking
import ChiaGaming.Games.SpacepokerShowdown

namespace ChiaGaming.Spacepoker

/-! The ranking of hands without suits: a straight is stronger than a full house, and no ace stands
below a two. -/

/-- The weakest first. -/
inductive Category where
  | highCard
  | onePair
  | twoPair
  | threeOfAKind
  | fullHouse
  | straight
  | fourOfAKind
  | fiveOfAKind
  deriving DecidableEq

def Category.strength : Category → ℕ
  | highCard => 0
  | onePair => 1
  | twoPair => 2
  | threeOfAKind => 3
  | fullHouse => 4
  | straight => 5
  | fourOfAKind => 6
  | fiveOfAKind => 7

def Category.counts : Category → List ℕ
  | highCard => [1, 1, 1, 1, 1]
  | onePair => [2, 1, 1, 1]
  | twoPair => [2, 2, 1]
  | threeOfAKind => [3, 1, 1]
  | fullHouse => [3, 2]
  | straight => [3, 3]
  | fourOfAKind => [4, 1]
  | fiveOfAKind => [5]

def categories : Kinds Category where
  strength := Category.strength
  counts := Category.counts
  strength_injective := by
    intro c c' h
    cases c <;> cases c' <;> first | rfl | cases h
  told := by
    intro c c' h
    cases c <;> cases c' <;> first | rfl | exact absurd h (by decide)

/-- The category of five ranks, and the ranks that decide between two hands of the category and the
same boost, the most important first. -/
inductive Rated (ranks : List ℕ) : Category → List ℕ → Prop where
  | fiveOfAKind {rank : ℕ} (h : ranks.Perm [rank, rank, rank, rank, rank]) : Rated ranks .fiveOfAKind [rank]
  | fourOfAKind {quad kicker : ℕ} (h : ranks.Perm [quad, quad, quad, quad, kicker]) (hne : quad ≠ kicker) :
      Rated ranks .fourOfAKind [quad, kicker]
  | straight {low : ℕ} (h : ranks.Perm [low + 4, low + 3, low + 2, low + 1, low]) : Rated ranks .straight [low + 4]
  | fullHouse {set pair : ℕ} (h : ranks.Perm [set, set, set, pair, pair]) (hne : set ≠ pair) :
      Rated ranks .fullHouse [set, pair]
  | threeOfAKind {set a b : ℕ} (h : ranks.Perm [set, set, set, a, b]) (hne : set ≠ a ∧ set ≠ b) (hdesc : a > b) :
      Rated ranks .threeOfAKind [set, a, b]
  | twoPair {high low kicker : ℕ} (h : ranks.Perm [high, high, low, low, kicker])
      (hne : high ≠ kicker ∧ low ≠ kicker) (hdesc : high > low) : Rated ranks .twoPair [high, low, kicker]
  | onePair {pair a b c : ℕ} (h : ranks.Perm [pair, pair, a, b, c]) (hne : pair ≠ a ∧ pair ≠ b ∧ pair ≠ c)
      (hdesc : a > b ∧ b > c) : Rated ranks .onePair [pair, a, b, c]
  | highCard {a b c d e : ℕ} (hstraight : a ≠ e + 4) (h : ranks.Perm [a, b, c, d, e])
      (hdesc : a > b ∧ b > c ∧ c > d ∧ d > e) : Rated ranks .highCard [a, b, c, d, e]

/-! The value of a hand from its groups. -/

/-- What `space_hand_eval` makes of the counts, the boost and the ranks of the groups. -/
def rateGroups (hand : List ℕ) (boost : ℕ) : Option (List ℕ) := do
  if (← hand[0]?) ≠ 1 then some hand
  else
    let r1 ← hand[6]?
    let r5 ← hand[10]?
    if r5 + 4 = r1 then some [3, 3, boost, r1] else some hand

theorem spaceHandEval_pairs {ranks : List ℕ} (pairs : List (ℕ × ℕ)) (boost : ℕ) (hne : ranks ≠ [])
    (hlt : ∀ r ∈ ranks, r < 16) (hperm : ranks.Perm (pairs.flatMap fun p => List.replicate p.1 p.2))
    (hone : ∀ p ∈ pairs, 1 ≤ p.1) (hd : (pairs.map Prod.snd).Nodup)
    (hs : (pairs.map fun p => 16 * p.1 + p.2).Pairwise (· ≥ ·)) :
    spaceHandEval ranks boost = rateGroups (pairs.map Prod.fst ++ boost :: pairs.map Prod.snd) boost := by
  obtain ⟨raw, hraw, hcounts, hranks⟩ := groupByCount_of_pairs pairs hne hlt hperm hone hd hs
  rw [← hcounts, ← hranks, spaceHandEval, hraw]
  rfl

theorem rateGroups_grouped {first : ℕ} {rest : List ℕ} (boost : ℕ) (hfirst : first ≠ 1) :
    rateGroups (first :: rest) boost = some (first :: rest) := if_pos hfirst

theorem spaceHandEval_singles {ranks : List ℕ} {a b c d e : ℕ} (boost : ℕ) (h : ranks.Perm [a, b, c, d, e])
    (hlt : ∀ r ∈ ranks, r < 16) (hdesc : a > b ∧ b > c ∧ c > d ∧ d > e) :
    spaceHandEval ranks boost =
      if e + 4 = a then some [3, 3, boost, a] else some [1, 1, 1, 1, 1, boost, a, b, c, d, e] := by
  have hne : ranks ≠ [] := by
    rintro rfl
    cases h.nil_eq
  rw [spaceHandEval_pairs [(1, a), (1, b), (1, c), (1, d), (1, e)] boost hne hlt h (by simp)]
  · rfl
  · exact (desc_of_gt hdesc).imp fun hgt => hgt.ne'
  · simp
    omega

section Value

variable {ranks ks : List ℕ} {category : Category}

/-- The evaluator computes the value of a hand, the boost before the ranks. -/
theorem Rated.spaceHandEval_eq (h : Rated ranks category ks) (boost : ℕ) (hlt : ∀ r ∈ ranks, r < 16) :
    spaceHandEval ranks boost = some (categories.value category (boost :: ks)) := by
  have hnil : ∀ x rest, ranks.Perm (x :: rest) → ranks ≠ [] := by
    rintro x rest hperm rfl
    cases hperm.nil_eq
  cases h with
  | @fiveOfAKind rank hperm =>
    rw [spaceHandEval_pairs [(5, rank)] boost (hnil _ _ hperm) hlt hperm (by simp) (by simp) (by simp)]
    exact rateGroups_grouped boost (by simp)
  | @fourOfAKind quad kicker hperm hne =>
    have hk := hlt kicker (hperm.mem_iff.mpr (by simp))
    rw [spaceHandEval_pairs [(4, quad), (1, kicker)] boost (hnil _ _ hperm) hlt hperm (by simp)
      (by simpa using hne) (by simp; omega)]
    exact rateGroups_grouped boost (by simp)
  | @straight low hperm =>
    rw [spaceHandEval_singles boost hperm hlt (by omega), if_pos rfl]
    rfl
  | @fullHouse set pair hperm hne =>
    have hp := hlt pair (hperm.mem_iff.mpr (by simp))
    rw [spaceHandEval_pairs [(3, set), (2, pair)] boost (hnil _ _ hperm) hlt hperm (by simp)
      (by simpa using hne) (by simp; omega)]
    exact rateGroups_grouped boost (by simp)
  | @threeOfAKind set a b hperm hne hdesc =>
    have ha := hlt a (hperm.mem_iff.mpr (by simp))
    rw [spaceHandEval_pairs [(3, set), (1, a), (1, b)] boost (hnil _ _ hperm) hlt hperm (by simp)
      (by simp; omega) (by simp; omega)]
    exact rateGroups_grouped boost (by simp)
  | @twoPair high low kicker hperm hne hdesc =>
    have hk := hlt kicker (hperm.mem_iff.mpr (by simp))
    rw [spaceHandEval_pairs [(2, high), (2, low), (1, kicker)] boost (hnil _ _ hperm) hlt hperm (by simp)
      (by simp; omega) (by simp; omega)]
    exact rateGroups_grouped boost (by simp)
  | @onePair pair a b c hperm hne hdesc =>
    have ha := hlt a (hperm.mem_iff.mpr (by simp))
    rw [spaceHandEval_pairs [(2, pair), (1, a), (1, b), (1, c)] boost (hnil _ _ hperm) hlt hperm (by simp)
      (by simp; omega) (by simp; omega)]
    exact rateGroups_grouped boost (by simp)
  | @highCard a b c d e hstraight hperm hdesc =>
    rw [spaceHandEval_singles boost hperm hlt hdesc, if_neg (Ne.symm hstraight)]
    rfl

theorem exists_rated (h5 : ranks.length = 5) (hlt : ∀ r ∈ ranks, r < 16) : ∃ category ks, Rated ranks category ks := by
  cases pattern_of_five h5 hlt with
  | fiveAlike rank h => exact ⟨_, _, .fiveOfAKind h⟩
  | fourAlike quad kicker h hne => exact ⟨_, _, .fourOfAKind h hne⟩
  | threeAndTwo set pair h hne => exact ⟨_, _, .fullHouse h hne⟩
  | threeAlike set a b h hne hdesc => exact ⟨_, _, .threeOfAKind h hne hdesc⟩
  | twoPairs high low kicker h hne hdesc => exact ⟨_, _, .twoPair h hne hdesc⟩
  | onePair pair a b c h hne hdesc => exact ⟨_, _, .onePair h hne hdesc⟩
  | singles a b c d e h hdesc =>
    by_cases hstraight : a = e + 4
    · obtain ⟨rfl, rfl, rfl, rfl⟩ : a = e + 4 ∧ b = e + 3 ∧ c = e + 2 ∧ d = e + 1 := by omega
      exact ⟨_, _, .straight h⟩
    · exact ⟨_, _, .highCard hstraight h hdesc⟩

theorem Rated.unique {category' : Category} {ks' : List ℕ} (h : Rated ranks category ks)
    (h' : Rated ranks category' ks') (hlt : ∀ r ∈ ranks, r < 16) : category = category' ∧ ks = ks' := by
  have heq := (h.spaceHandEval_eq 0 hlt).symm.trans (h'.spaceHandEval_eq 0 hlt)
  obtain ⟨hcat, hks⟩ := Kinds.value_injective (Option.some.inj heq)
  exact ⟨hcat, (List.cons.inj hks).2⟩

end Value

end ChiaGaming.Spacepoker
