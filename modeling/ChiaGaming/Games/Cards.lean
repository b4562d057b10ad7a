import ChiaGaming.Lib.Compare
import ChiaGaming.Lib.Select
import ChiaGaming.Lib.Sort

namespace ChiaGaming

/-! Hands of cards.  A group of equal ranks is the number `16 * count + rank`. -/

def groupByCountInner : List ℕ → ℕ → ℕ → List ℕ
  | [], last, count => [16 * count + last]
  | x :: items, last, count =>
    if x = last then groupByCountInner items last (count + 1)
    else (16 * count + last) :: groupByCountInner items x 1

/-- `(group_by_count items)` aborts on an empty list. -/
def groupByCount : List ℕ → Option (List ℕ)
  | [] => none
  | x :: items => some (groupByCountInner (x :: items) x 0)

def groupCount (code : ℕ) : ℕ := code / 16

def groupRank (code : ℕ) : ℕ := code % 16

theorem sum_groupCount_inner (items : List ℕ) (last count : ℕ) (hl : last < 16)
    (hi : ∀ x ∈ items, x < 16) :
    ((groupByCountInner items last count).map groupCount).sum = count + items.length := by
  induction items generalizing last count with
  | nil =>
    simp only [groupByCountInner, List.map_cons, List.map_nil, List.sum_cons, List.sum_nil,
      groupCount, List.length_nil]
    omega
  | cons x items ih =>
    have hx : x < 16 := hi x List.mem_cons_self
    have hr : ∀ y ∈ items, y < 16 := fun y hy => hi y (List.mem_cons_of_mem _ hy)
    rw [groupByCountInner]
    split
    · rw [ih last (count + 1) hl hr, List.length_cons]
      omega
    · rw [List.map_cons, List.sum_cons, ih x 1 hx hr, List.length_cons, groupCount]
      omega

theorem one_le_groupCount_inner (items : List ℕ) (last count : ℕ) (hl : last < 16)
    (hi : ∀ x ∈ items, x < 16) (hc : 1 ≤ count ∨ items.head? = some last) :
    ∀ g ∈ groupByCountInner items last count, 1 ≤ groupCount g := by
  induction items generalizing last count with
  | nil =>
    intro g hg
    obtain rfl : g = 16 * count + last := by simpa [groupByCountInner] using hg
    have : 1 ≤ count := by simpa using hc
    rw [groupCount]
    omega
  | cons x items ih =>
    have hx : x < 16 := hi x List.mem_cons_self
    have hr : ∀ y ∈ items, y < 16 := fun y hy => hi y (List.mem_cons_of_mem _ hy)
    rw [groupByCountInner]
    split
    · exact ih last (count + 1) hl hr (.inl (by omega))
    · rename_i hne
      have hc1 : 1 ≤ count := by simpa [hne] using hc
      intro g hg
      rcases List.mem_cons.mp hg with rfl | hg
      · rw [groupCount]
        omega
      · exact ih x 1 hx hr (.inl le_rfl) g hg

/-- A group is no larger than the number of its cards. -/
theorem groupCount_le_count (items : List ℕ) (last count : ℕ) (hl : last < 16)
    (hi : ∀ x ∈ items, x < 16) :
    ∀ g ∈ groupByCountInner items last count,
      groupCount g ≤ (List.replicate count last ++ items).count (groupRank g) := by
  have hlast : ∀ n l : ℕ, l < 16 → groupCount (16 * n + l) = n ∧ groupRank (16 * n + l) = l := by
    intro n l h
    rw [groupCount, groupRank]
    omega
  induction items generalizing last count with
  | nil =>
    intro g hg
    obtain rfl : g = 16 * count + last := by simpa [groupByCountInner] using hg
    rw [(hlast count last hl).1, (hlast count last hl).2]
    simp
  | cons x items ih =>
    have hx : x < 16 := hi x List.mem_cons_self
    have hr : ∀ y ∈ items, y < 16 := fun y hy => hi y (List.mem_cons_of_mem _ hy)
    rw [groupByCountInner]
    split
    · rename_i he
      subst he
      intro g hg
      have := ih x (count + 1) hx hr g hg
      simp only [List.count_append, List.count_cons, List.count_replicate] at this ⊢
      split_ifs at this ⊢ <;> omega
    · intro g hg
      rcases List.mem_cons.mp hg with rfl | hg
      · rw [(hlast count last hl).1, (hlast count last hl).2, List.count_append,
          List.count_replicate_self]
        omega
      · have := ih x 1 hx hr g hg
        simp only [List.count_append, List.count_cons, List.count_replicate] at this ⊢
        split_ifs at this ⊢ <;> omega

/-- If the largest group is a single card then there are as many groups as cards. -/
theorem length_le_of_sorted_groups {groups : List ℕ} {first : ℕ} {rest : List ℕ}
    (he : groups = first :: rest) (hs : groups.Pairwise (· ≥ ·)) (h1 : groupCount first = 1) :
    (groups.map groupCount).sum ≤ groups.length := by
  subst he
  have hle : ∀ g ∈ rest, groupCount g ≤ 1 := by
    intro g hg
    have : first ≥ g := (List.pairwise_cons.mp hs).1 g hg
    rw [← h1, groupCount, groupCount]
    omega
  have hr : (rest.map groupCount).sum ≤ rest.length := by
    have := List.sum_le_card_nsmul (rest.map groupCount) 1 (by simpa using hle)
    simpa using this
  rw [List.map_cons, List.sum_cons, List.length_cons, h1]
  omega

/-- The groups of some cards, largest first: they have as many cards together, none is empty,
and none has more cards than there are of its rank. -/
theorem groups_spec {cards : List ℕ} (hne : cards ≠ []) (hlt : ∀ c ∈ cards, c < 16) :
    ∃ groups, groupByCount (atomsort cards) = some groups ∧
      ((atomsort groups).map groupCount).sum = cards.length ∧
      (∀ g ∈ atomsort groups, 1 ≤ groupCount g) ∧
      ∀ g ∈ atomsort groups, groupCount g ≤ cards.count (groupRank g) := by
  have hp := atomsort_perm cards
  generalize atomsort cards = sorted at hp
  obtain ⟨x, items, rfl⟩ : ∃ x items, sorted = x :: items := by
    cases sorted with
    | nil => exact absurd hp.nil_eq.symm hne
    | cons x items => exact ⟨x, items, rfl⟩
  have hlt' : ∀ c ∈ x :: items, c < 16 := fun c hc => hlt c (hp.mem_iff.mp hc)
  have hx := hlt' x List.mem_cons_self
  have hg := atomsort_perm (groupByCountInner (x :: items) x 0)
  refine ⟨groupByCountInner (x :: items) x 0, rfl, ?_, ?_, ?_⟩
  · rw [(hg.map groupCount).sum_eq, sum_groupCount_inner _ x 0 hx hlt', hp.length_eq, Nat.zero_add]
  · intro g hmem
    exact one_le_groupCount_inner _ x 0 hx hlt' (.inr rfl) g (hg.mem_iff.mp hmem)
  · intro g hmem
    have := groupCount_le_count _ x 0 hx hlt' g (hg.mem_iff.mp hmem)
    rwa [List.replicate_zero, List.nil_append, hp.count_eq] at this

/-! The best selection of five.  Selections are compared with their marks, the value first. -/

def handToClvm (hand : List ℕ) : Clvm := .list (hand.map .nat)

section Best

variable {σ : Type} (eval : List ℕ → Option (List ℕ)) (mark : ℕ → σ → σ) (start : σ)
  (markToClvm : σ → Clvm)

def evalAll : List (List ℕ × σ × ℕ) → Option (List (List ℕ × σ))
  | [] => some []
  | (cards, s, _) :: entries => do
    let hand ← eval cards
    let rest ← evalAll entries
    some ((hand, s) :: rest)

def entryToClvm (e : List ℕ × σ) : Clvm := .list [handToClvm e.1, markToClvm e.2]

def deepLess (a b : List ℕ × σ) : Bool :=
  deepCompare (entryToClvm markToClvm a) (entryToClvm markToClvm b) = -1

def bestSelection (cards : List ℕ) : Option (List ℕ × σ) := do
  maxOf (deepLess markToClvm) (← evalAll eval (chooseEntries mark start 0 cards))

/-- The value of the best selection of five. -/
def IsBest (cards : List ℕ) (hand : List ℕ) : Prop :=
  (∃ five, five.Sublist cards ∧ five.length = 5 ∧ eval five = some hand) ∧
  ∀ five other, five.Sublist cards → five.length = 5 → eval five = some other →
    deepCompare (handToClvm hand) (handToClvm other) ≠ -1

variable {eval}

theorem IsBest.unique {cards hand hand' : List ℕ} (h : IsBest eval cards hand)
    (h' : IsBest eval cards hand') : hand = hand' := by
  obtain ⟨five, hs, hl, he⟩ := h.1
  obtain ⟨five', hs', hl', he'⟩ := h'.1
  have h1 := h.2 five' hand' hs' hl' he'
  have h2 := h'.2 five hand hs hl he
  rw [deepCompare_swap] at h2
  have h0 : deepCompare (handToClvm hand) (handToClvm hand') = 0 := by
    rcases deepCompare_cases (handToClvm hand) (handToClvm hand') with h | h | h <;> omega
  exact (deepCompare_list_nat hand hand').mp h0

theorem mem_evalAll {entries : List (List ℕ × σ × ℕ)} {evals : List (List ℕ × σ)}
    (h : evalAll eval entries = some evals) (r : List ℕ × σ) :
    r ∈ evals ↔ ∃ e ∈ entries, eval e.1 = some r.1 ∧ r.2 = e.2.1 := by
  induction entries generalizing evals with
  | nil =>
    obtain rfl : evals = [] := by simpa [evalAll, eq_comm] using h
    simp
  | cons e entries ih =>
    obtain ⟨cards, s, n⟩ := e
    simp only [evalAll, Option.bind_eq_bind, Option.bind_eq_some_iff, Option.some.injEq] at h
    obtain ⟨hand, hhand, rest, hrest, rfl⟩ := h
    simp only [List.mem_cons, ih hrest, exists_eq_or_imp, hhand, Option.some.injEq]
    constructor
    · rintro (rfl | h)
      · exact .inl ⟨rfl, rfl⟩
      · exact .inr h
    · rintro (⟨h1, h2⟩ | h)
      · exact .inl (Prod.ext h1.symm h2)
      · exact .inr h

theorem evalAll_isSome {entries : List (List ℕ × σ × ℕ)}
    (h : ∀ e ∈ entries, (eval e.1).isSome) :
    ∃ evals, evalAll eval entries = some evals ∧ evals.length = entries.length := by
  induction entries with
  | nil => exact ⟨[], rfl, rfl⟩
  | cons e entries ih =>
    obtain ⟨cards, s, n⟩ := e
    obtain ⟨hand, hhand⟩ := Option.isSome_iff_exists.mp (h _ List.mem_cons_self)
    obtain ⟨rest, hrest, hlen⟩ := ih fun e he => h e (List.mem_cons_of_mem _ he)
    refine ⟨(hand, s) :: rest, ?_, by simp [hlen]⟩
    simp only at hhand
    simp [evalAll, hhand, hrest]

theorem maxOf_deepLess {evals : List (List ℕ × σ)} (hne : evals ≠ []) :
    ∃ best ∈ evals, maxOf (deepLess markToClvm) evals = some best ∧
      ∀ r ∈ evals, deepCompare (handToClvm best.1) (handToClvm r.1) ≠ -1 := by
  cases evals with
  | nil => exact absurd rfl hne
  | cons x xs =>
    obtain ⟨hmem, hmax⟩ := maxInner_spec (deepLess markToClvm)
      (by
        intro a b c hab hbc
        simp only [deepLess, decide_eq_true_eq] at *
        exact deepCompare_lt_trans hab hbc)
      (by
        intro a b c hac
        simp only [deepLess, decide_eq_true_eq] at *
        exact deepCompare_lt_or hac)
      (by simp [deepLess]) x xs
    refine ⟨_, hmem, rfl, ?_⟩
    intro r hr hlt
    apply hmax r hr
    simp [deepLess, entryToClvm, deepCompare, hlt]

/-- If all selections of five have a value then a best one is found, with its mark. -/
theorem bestSelection_spec {cards : List ℕ} (h5 : 5 ≤ cards.length)
    (heval : ∀ five, five.Sublist cards → five.length = 5 → (eval five).isSome) :
    ∃ hand l, bestSelection eval mark start markToClvm cards = some (hand, markAll mark start l) ∧
      l.Sublist (cards.zipIdx 0) ∧ l.length = 5 ∧ eval (l.map Prod.fst) = some hand ∧
      IsBest eval cards hand := by
  have hfst : (cards.zipIdx 0).map Prod.fst = cards := by simp
  have hmem := mem_chooseEntries_zero mark start cards h5
  have hall : ∀ e ∈ chooseEntries mark start 0 cards, (eval e.1).isSome := by
    intro e he
    obtain ⟨l, hs, hl, rfl⟩ := (hmem e).mp he
    exact heval _ (hfst ▸ hs.map Prod.fst) (by simpa using hl)
  obtain ⟨evals, hevals, hlen⟩ := evalAll_isSome hall
  have hne : evals ≠ [] := by
    have h0 : ((cards.zipIdx 0).take 5).length = 5 := by simp [h5]
    have hin := (hmem _).mpr ⟨(cards.zipIdx 0).take 5, List.take_sublist _ _, h0, rfl⟩
    intro h
    rw [h, List.length_nil, eq_comm, List.length_eq_zero_iff] at hlen
    simp [hlen] at hin
  obtain ⟨⟨hand, s⟩, hbest, hcalc, hmax⟩ := maxOf_deepLess markToClvm hne
  obtain ⟨e, he, hhand, hs'⟩ := (mem_evalAll hevals _).mp hbest
  obtain ⟨l, hs, hl, rfl⟩ := (hmem e).mp he
  simp only at hhand hs'
  refine ⟨hand, l, by simp [bestSelection, hevals, hcalc, hs'], hs, hl, hhand, ?_, ?_⟩
  · exact ⟨l.map Prod.fst, hfst ▸ hs.map Prod.fst, by simpa using hl, hhand⟩
  · intro five other hfive hfl hother
    rw [← hfst, List.sublist_map_iff] at hfive
    obtain ⟨l', hs', rfl⟩ := hfive
    apply hmax (other, markAll mark start l')
    rw [mem_evalAll hevals]
    exact ⟨_, (hmem _).mpr ⟨l', hs', by simpa using hfl, rfl⟩, hother, rfl⟩

end Best

end ChiaGaming
