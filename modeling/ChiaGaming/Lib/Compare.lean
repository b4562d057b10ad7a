import ChiaGaming.Lib.Clvm

namespace ChiaGaming

/-- `(deep_compare a b)`: first elements first, a pair above every atom, atoms as numbers. -/
def deepCompare : Clvm → Clvm → ℤ
  | .pair a b, .pair c d => if deepCompare a c ≠ 0 then deepCompare a c else deepCompare b d
  | .pair _ _, .atom _ => 1
  | .atom _, .pair _ _ => -1
  | .atom a, .atom b =>
    if intOfBytes a > intOfBytes b then 1 else if intOfBytes b > intOfBytes a then -1 else 0

theorem deepCompare_atom_le (a b : Bytes) :
    deepCompare (.atom a) (.atom b) ≤ 0 ↔ intOfBytes a ≤ intOfBytes b := by
  rw [deepCompare]
  split_ifs <;> simp <;> omega

theorem deepCompare_atom_eq (a b : Bytes) :
    deepCompare (.atom a) (.atom b) = 0 ↔ intOfBytes a = intOfBytes b := by
  rw [deepCompare]
  split_ifs <;> simp <;> omega

theorem deepCompare_cases (a b : Clvm) :
    deepCompare a b = -1 ∨ deepCompare a b = 0 ∨ deepCompare a b = 1 := by
  induction a generalizing b with
  | atom x =>
    cases b with
    | atom y =>
      rw [deepCompare]
      split_ifs <;> simp
    | pair c d => simp [deepCompare]
  | pair f r ihf ihr =>
    cases b with
    | atom y => simp [deepCompare]
    | pair c d =>
      rw [deepCompare]
      split_ifs
      · exact ihf c
      · exact ihr d

theorem deepCompare_swap (a b : Clvm) : deepCompare b a = - deepCompare a b := by
  induction a generalizing b with
  | atom x =>
    cases b with
    | atom y =>
      rw [deepCompare, deepCompare]
      split_ifs <;> first | rfl | omega
    | pair c d => rfl
  | pair f r ihf ihr =>
    cases b with
    | atom y => rfl
    | pair c d =>
      rw [deepCompare, deepCompare, ihf c, ihr d]
      split_ifs <;> omega

@[simp] theorem deepCompare_self (a : Clvm) : deepCompare a a = 0 := by
  have := deepCompare_swap a a
  omega

/-- Transitivity, with the only way to lose strictness. -/
theorem deepCompare_trans_le (a b c : Clvm) (hab : deepCompare a b ≤ 0)
    (hbc : deepCompare b c ≤ 0) :
    deepCompare a c ≤ 0 ∧
      (deepCompare a c = 0 → deepCompare a b = 0 ∧ deepCompare b c = 0) := by
  induction a generalizing b c with
  | atom x =>
    cases b with
    | atom y =>
      cases c with
      | atom z =>
        rw [deepCompare_atom_le] at hab hbc ⊢
        rw [deepCompare_atom_eq, deepCompare_atom_eq, deepCompare_atom_eq]
        omega
      | pair c d => simp [deepCompare]
    | pair b b' =>
      cases c with
      | atom z => simp [deepCompare] at hbc
      | pair c d => simp [deepCompare]
  | pair f r ihf ihr =>
    cases b with
    | atom y => simp [deepCompare] at hab
    | pair b b' =>
      cases c with
      | atom z => simp [deepCompare] at hbc
      | pair c d =>
        rw [deepCompare] at hab hbc ⊢
        rw [deepCompare, deepCompare]
        have hf : deepCompare f b ≤ 0 := by
          split_ifs at hab <;> omega
        have hb : deepCompare b c ≤ 0 := by
          split_ifs at hbc <;> omega
        obtain ⟨h1, h2⟩ := ihf b c hf hb
        by_cases h0 : deepCompare f c = 0
        · obtain ⟨hfb, hbc0⟩ := h2 h0
          rw [if_neg (by omega)] at hab hbc ⊢
          rw [if_neg (by omega), if_neg (by omega)]
          exact ihr b' d hab hbc
        · rw [if_pos h0]
          exact ⟨h1, fun h => absurd h h0⟩

theorem deepCompare_lt_trans {a b c : Clvm} (hab : deepCompare a b = -1)
    (hbc : deepCompare b c = -1) : deepCompare a c = -1 := by
  obtain ⟨hle, hz⟩ := deepCompare_trans_le a b c (by omega) (by omega)
  rcases deepCompare_cases a c with h | h | h
  · exact h
  · have := hz h
    omega
  · omega

theorem deepCompare_lt_or {a b c : Clvm} (hac : deepCompare a c = -1) :
    deepCompare a b = -1 ∨ deepCompare b c = -1 := by
  by_contra h
  rw [not_or] at h
  have hba : deepCompare b a ≤ 0 := by
    have := deepCompare_swap a b
    rcases deepCompare_cases a b with h' | h' | h' <;> omega
  have hcb : deepCompare c b ≤ 0 := by
    have := deepCompare_swap b c
    rcases deepCompare_cases b c with h' | h' | h' <;> omega
  have := (deepCompare_trans_le c b a hcb hba).1
  have := deepCompare_swap a c
  omega

/-- Lists of numbers are compared from the left. -/
theorem deepCompare_list_nat (xs ys : List ℕ) :
    deepCompare (.list (xs.map .nat)) (.list (ys.map .nat)) = 0 ↔ xs = ys := by
  induction xs generalizing ys with
  | nil =>
    cases ys with
    | nil => simp
    | cons y ys => simp [deepCompare]
  | cons x xs ih =>
    cases ys with
    | nil => simp [deepCompare]
    | cons y ys =>
      have hxy : deepCompare (.nat x) (.nat y) = 0 ↔ x = y := by
        rw [Clvm.nat, Clvm.nat, deepCompare_atom_eq, intOfBytes_bytesOfNat, intOfBytes_bytesOfNat]
        exact Nat.cast_inj
      simp only [List.map_cons, Clvm.list_cons, deepCompare, List.cons.injEq, ← ih ys, ← hxy]
      split_ifs with h
      · simp [h]
      · simp [not_not.mp h]

section Max

variable {α : Type*} (less : α → α → Bool)

def maxInner : α → List α → α
  | best, [] => best
  | best, x :: xs => if less best x then maxInner x xs else maxInner best xs

/-- `(max less L)` aborts on an empty list. -/
def maxOf : List α → Option α
  | [] => none
  | x :: xs => some (maxInner less x xs)

theorem maxInner_spec (htrans : ∀ a b c, less a b → less b c → less a c)
    (hor : ∀ a b c, less a c → less a b ∨ less b c) (hirr : ∀ a, ¬ less a a) (best : α) (xs : List α) :
    maxInner less best xs ∈ best :: xs ∧ ∀ x ∈ best :: xs, ¬ less (maxInner less best xs) x := by
  induction xs generalizing best with
  | nil => simp [maxInner, hirr]
  | cons y ys ih =>
    rw [maxInner]
    split
    · rename_i hlt
      obtain ⟨hmem, hmax⟩ := ih y
      refine ⟨List.mem_cons_of_mem _ hmem, ?_⟩
      intro x hx hless
      rcases List.mem_cons.mp hx with rfl | hx
      · exact hmax y List.mem_cons_self (htrans _ _ _ hless hlt)
      · exact hmax x hx hless
    · rename_i hlt
      obtain ⟨hmem, hmax⟩ := ih best
      refine ⟨by simp only [List.mem_cons] at hmem ⊢; tauto, ?_⟩
      intro x hx hless
      rcases List.mem_cons.mp hx with rfl | hx
      · exact hmax x List.mem_cons_self hless
      rcases List.mem_cons.mp hx with rfl | hx
      · rcases hor _ best _ hless with h | h
        · exact hmax best List.mem_cons_self h
        · exact hlt h
      · exact hmax x (List.mem_cons_of_mem _ hx) hless

end Max

end ChiaGaming
