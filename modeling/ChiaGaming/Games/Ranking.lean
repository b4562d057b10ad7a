import ChiaGaming.Games.Groups
import Mathlib.Data.List.Lex

namespace ChiaGaming

/-! Rankings: hands are compared by kind first, and hands of a kind by a list of numbers. -/

/-- Lists of numbers are compared as in a dictionary. -/
theorem deepCompare_eq_neg_one_iff (xs ys : List ℕ) :
    deepCompare (handToClvm xs) (handToClvm ys) = -1 ↔ xs < ys := by
  induction xs generalizing ys with
  | nil =>
    cases ys with
    | nil => simp [handToClvm]
    | cons y ys => simp [handToClvm, deepCompare]
  | cons x xs ih =>
    cases ys with
    | nil => simp [handToClvm, deepCompare]
    | cons y ys =>
      have hcons : deepCompare (handToClvm (x :: xs)) (handToClvm (y :: ys)) =
          if deepCompare (.nat x) (.nat y) ≠ 0 then deepCompare (.nat x) (.nat y)
          else deepCompare (handToClvm xs) (handToClvm ys) := rfl
      have hnat : deepCompare (.nat x) (.nat y) = if x > y then 1 else if y > x then -1 else 0 := by
        simp only [Clvm.nat, deepCompare, intOfBytes_bytesOfNat, gt_iff_lt, Nat.cast_lt]
      rw [hcons, hnat, List.cons_lt_cons_iff, ← ih ys]
      rcases lt_trichotomy x y with hlt | rfl | hgt
      · simp [hlt, hlt.not_gt]
      · simp
      · simp [hgt, hgt.not_gt, hgt.ne']

/-- The first list is smaller at a place that both have. -/
def before : List ℕ → List ℕ → Bool
  | x :: xs, y :: ys => x < y || (x = y && before xs ys)
  | _, _ => false

theorem append_lt_append_of_before {xs ys : List ℕ} (h : before xs ys) (as bs : List ℕ) : xs ++ as < ys ++ bs := by
  induction xs generalizing ys with
  | nil => cases h
  | cons x xs ih =>
    cases ys with
    | nil => cases h
    | cons y ys =>
      rw [before, Bool.or_eq_true, Bool.and_eq_true, decide_eq_true_eq, decide_eq_true_eq] at h
      rw [List.cons_append, List.cons_append, List.cons_lt_cons_iff]
      rcases h with hlt | ⟨heq, hrest⟩
      · exact .inl hlt
      · exact .inr ⟨heq, ih hrest⟩

theorem append_lt_append_left_iff (xs as bs : List ℕ) : xs ++ as < xs ++ bs ↔ as < bs := by
  induction xs with
  | nil => exact Iff.rfl
  | cons x xs ih => rw [List.cons_append, List.cons_append, List.cons_lt_cons_iff, ih]; simp

/-- Kinds of hands by their strength; the counts that a value begins with tell them apart. -/
structure Kinds (κ : Type) where
  strength : κ → ℕ
  counts : κ → List ℕ
  strength_injective : Function.Injective strength
  told : ∀ {c c' : κ}, strength c < strength c' → before (counts c) (counts c')

section Kinds

variable {κ : Type} (K : Kinds κ)

def Kinds.value (c : κ) (ks : List ℕ) : List ℕ := K.counts c ++ ks

/-- A hand of a stronger kind beats one of a weaker, and in a kind the first number that differs decides. -/
def Kinds.Beats (c : κ) (ks : List ℕ) (c' : κ) (ks' : List ℕ) : Prop :=
  K.strength c' < K.strength c ∨ c = c' ∧ ks' < ks

variable {K} {c c' : κ} {ks ks' : List ℕ}

theorem Kinds.value_lt_iff : K.value c' ks' < K.value c ks ↔ K.Beats c ks c' ks' := by
  rw [Kinds.value, Kinds.value, Kinds.Beats]
  rcases lt_trichotomy (K.strength c') (K.strength c) with hlt | heq | hgt
  · exact iff_of_true (append_lt_append_of_before (K.told hlt) ks' ks) (.inl hlt)
  · obtain rfl := K.strength_injective heq
    rw [append_lt_append_left_iff]
    simp
  · refine iff_of_false (append_lt_append_of_before (K.told hgt) ks ks').not_gt ?_
    rintro (hlt | ⟨rfl, -⟩)
    · omega
    · omega

theorem Kinds.value_injective (h : K.value c ks = K.value c' ks') : c = c' ∧ ks = ks' := by
  rcases lt_trichotomy (K.strength c') (K.strength c) with hlt | heq | hgt
  · have := append_lt_append_of_before (K.told hlt) ks' ks
    rw [← Kinds.value, ← Kinds.value, h] at this
    exact absurd this (lt_irrefl _)
  · obtain rfl := K.strength_injective heq
    exact ⟨rfl, List.append_cancel_left h⟩
  · have := append_lt_append_of_before (K.told hgt) ks ks'
    rw [← Kinds.value, ← Kinds.value, h] at this
    exact absurd this (lt_irrefl _)

/-- The comparison of two values is the comparison of the hands. -/
theorem Kinds.deepCompare_value :
    (deepCompare (handToClvm (K.value c ks)) (handToClvm (K.value c' ks')) = 1 ↔ K.Beats c ks c' ks') ∧
    (deepCompare (handToClvm (K.value c ks)) (handToClvm (K.value c' ks')) = -1 ↔ K.Beats c' ks' c ks) ∧
    (deepCompare (handToClvm (K.value c ks)) (handToClvm (K.value c' ks')) = 0 ↔ c = c' ∧ ks = ks') := by
  refine ⟨?_, ?_, ?_⟩
  · rw [← Kinds.value_lt_iff, ← deepCompare_eq_neg_one_iff, deepCompare_swap (handToClvm (K.value c ks))]
    omega
  · rw [deepCompare_eq_neg_one_iff, Kinds.value_lt_iff]
  · refine (deepCompare_list_nat _ _).trans ⟨Kinds.value_injective, ?_⟩
    rintro ⟨rfl, rfl⟩
    rfl

/-- An evaluator and a comparison order some hands by their ratings: every hand has one rating, and the
comparison of two values tells which hand beats the other. -/
structure Orders {α : Type} (K : Kinds κ) (hands : Set α) (rates : α → κ → List ℕ → Prop)
    (eval : α → Option (List ℕ)) (compare : List ℕ → List ℕ → Option ℤ) : Prop where
  rated : ∀ x ∈ hands, ∃ c ks, rates x c ks ∧ ∀ c' ks', rates x c' ks' → c' = c ∧ ks' = ks
  compares : ∀ x ∈ hands, ∀ y ∈ hands, ∀ c ks c' ks', rates x c ks → rates y c' ks' →
    ∃ v w, eval x = some v ∧ eval y = some w ∧
      compare v w = some (deepCompare (handToClvm v) (handToClvm w)) ∧
      (compare v w = some 1 ↔ K.Beats c ks c' ks') ∧
      (compare v w = some (-1) ↔ K.Beats c' ks' c ks) ∧
      (compare v w = some 0 ↔ c = c' ∧ ks = ks')
  total : ∀ x ∈ hands, ∀ y ∈ hands, ∀ v w, eval x = some v → eval y = some w →
    compare v w ≠ some (-1) ∨ compare w v ≠ some (-1)
  trans : ∀ x ∈ hands, ∀ y ∈ hands, ∀ z ∈ hands, ∀ u v w, eval x = some u → eval y = some v → eval z = some w →
    compare u v ≠ some (-1) → compare v w ≠ some (-1) → compare u w ≠ some (-1)

theorem orders_of_value {α : Type} {K : Kinds κ} {hands : Set α} {rates : α → κ → List ℕ → Prop}
    {eval : α → Option (List ℕ)} {compare : List ℕ → List ℕ → Option ℤ}
    (hrated : ∀ x ∈ hands, ∃ c ks, rates x c ks)
    (hvalue : ∀ x ∈ hands, ∀ c ks, rates x c ks → eval x = some (K.value c ks))
    (hcompare : ∀ x ∈ hands, ∀ y ∈ hands, ∀ v w, eval x = some v → eval y = some w →
      compare v w = some (deepCompare (handToClvm v) (handToClvm w))) :
    Orders K hands rates eval compare where
  rated := by
    intro x hx
    obtain ⟨c, ks, h⟩ := hrated x hx
    refine ⟨c, ks, h, fun c' ks' h' => ?_⟩
    exact Kinds.value_injective (Option.some.inj ((hvalue x hx c' ks' h').symm.trans (hvalue x hx c ks h)))
  compares := by
    intro x hx y hy c ks c' ks' h h'
    have hv := hvalue x hx c ks h
    have hw := hvalue y hy c' ks' h'
    have heq := hcompare x hx y hy _ _ hv hw
    refine ⟨_, _, hv, hw, heq, ?_⟩
    rw [heq, Option.some.injEq, Option.some.injEq, Option.some.injEq]
    exact Kinds.deepCompare_value
  total := by
    intro x hx y hy v w hv hw
    rw [hcompare x hx y hy v w hv hw, hcompare y hy x hx w v hw hv, ne_eq, ne_eq, Option.some.injEq,
      Option.some.injEq, deepCompare_eq_neg_one_iff, deepCompare_eq_neg_one_iff, not_lt, not_lt]
    exact (le_total v w).symm
  trans := by
    intro x hx y hy z hz u v w hu hv hw
    rw [hcompare x hx y hy u v hu hv, hcompare y hy z hz v w hv hw, hcompare x hx z hz u w hu hw, ne_eq, ne_eq, ne_eq,
      Option.some.injEq, Option.some.injEq, Option.some.injEq, deepCompare_eq_neg_one_iff, deepCompare_eq_neg_one_iff,
      deepCompare_eq_neg_one_iff, not_lt, not_lt, not_lt]
    exact fun hvu hwv => hwv.trans hvu

end Kinds

end ChiaGaming
