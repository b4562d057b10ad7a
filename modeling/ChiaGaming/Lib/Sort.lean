import Mathlib.Data.List.Sort
import Mathlib.Tactic

namespace ChiaGaming

/-- The step of `mergeDesc` for a first list `x :: xs`; `merged` merges `xs`. -/
def mergeDescAux (x : ℕ) (xs : List ℕ) (merged : List ℕ → List ℕ) : List ℕ → List ℕ
  | [] => x :: xs
  | y :: ys => if x > y then x :: merged (y :: ys) else y :: mergeDescAux x xs merged ys

/-- `(merge a b)` of two descending lists. -/
def mergeDesc : List ℕ → List ℕ → List ℕ
  | [], b => b
  | x :: xs, b => mergeDescAux x xs (mergeDesc xs) b

/-- `(atomsort L)`: descending, three at a time. -/
def atomsort : List ℕ → List ℕ
  | [] => []
  | [x] => [x]
  | [x, y] => if x > y then [x, y] else [y, x]
  | x :: y :: z :: rest =>
    mergeDesc
      (if x > y then
        if y > z then [x, y, z] else if x > z then [x, z, y] else [z, x, y]
      else
        if x > z then [y, x, z] else if y > z then [y, z, x] else [z, y, x])
      (atomsort rest)

theorem mergeDesc_perm (a b : List ℕ) : (mergeDesc a b).Perm (a ++ b) := by
  induction a generalizing b with
  | nil => exact .refl b
  | cons x xs ih =>
    rw [mergeDesc]
    induction b with
    | nil => simp [mergeDescAux]
    | cons y ys ihb =>
      rw [mergeDescAux]
      split
      · exact (ih (y :: ys)).cons x
      · exact (ihb.cons y).trans List.perm_middle.symm

theorem mergeDesc_sorted {a b : List ℕ} (ha : a.Pairwise (· ≥ ·)) (hb : b.Pairwise (· ≥ ·)) :
    (mergeDesc a b).Pairwise (· ≥ ·) := by
  induction a generalizing b with
  | nil => exact hb
  | cons x xs ih =>
    rw [mergeDesc]
    rw [List.pairwise_cons] at ha
    induction b with
    | nil =>
      rw [mergeDescAux]
      exact List.pairwise_cons.mpr ha
    | cons y ys ihb =>
      have hb' := List.pairwise_cons.mp hb
      rw [mergeDescAux]
      split
      · rename_i hxy
        refine List.pairwise_cons.mpr ⟨?_, ih ha.2 hb⟩
        intro z hz
        rcases List.mem_append.mp ((mergeDesc_perm xs (y :: ys)).mem_iff.mp hz) with hz | hz
        · exact ha.1 z hz
        · rcases List.mem_cons.mp hz with rfl | hz
          · omega
          · have := hb'.1 z hz
            omega
      · rename_i hxy
        refine List.pairwise_cons.mpr ⟨?_, ihb hb'.2⟩
        intro z hz
        have hp : (mergeDescAux x xs (mergeDesc xs) ys).Perm (x :: xs ++ ys) :=
          mergeDesc_perm (x :: xs) ys
        rcases List.mem_append.mp (hp.mem_iff.mp hz) with hz | hz
        · rcases List.mem_cons.mp hz with rfl | hz
          · omega
          · have := ha.1 z hz
            omega
        · exact hb'.1 z hz

theorem atomsort_perm (l : List ℕ) : (atomsort l).Perm l := by
  induction l using atomsort.induct with
  | case1 => exact .refl _
  | case2 x => exact .refl _
  | case3 x y hxy =>
    rw [atomsort, if_pos hxy]
  | case4 x y hxy =>
    rw [atomsort, if_neg hxy]
    exact .swap x y []
  | case5 x y z rest ih =>
    rw [atomsort]
    refine (mergeDesc_perm _ _).trans ?_
    refine (List.Perm.append ?_ ih : (_ ++ atomsort rest).Perm ([x, y, z] ++ rest))
    split_ifs
    · exact .refl _
    · exact .cons x (.swap y z [])
    · exact (List.Perm.swap x z [y]).trans (.cons x (.swap y z []))
    · exact .swap x y [z]
    · exact (List.Perm.cons y (.swap x z [])).trans (.swap x y [z])
    · exact (List.Perm.cons z (.swap x y [])).trans
        ((List.Perm.swap x z [y]).trans (.cons x (.swap y z [])))

theorem atomsort_sorted (l : List ℕ) : (atomsort l).Pairwise (· ≥ ·) := by
  induction l using atomsort.induct with
  | case1 => exact .nil
  | case2 x => simp [atomsort]
  | case3 x y hxy =>
    rw [atomsort, if_pos hxy]
    simp
    omega
  | case4 x y hxy =>
    rw [atomsort, if_neg hxy]
    simp
    omega
  | case5 x y z rest ih =>
    rw [atomsort]
    apply mergeDesc_sorted _ ih
    split_ifs <;> simp <;> omega

/-! Merge sort by any comparison. -/

section MergeSort

variable {α : Type*} (less : α → α → Bool)

def splitInner : List α → List α → List α → List α × List α
  | [], left, right => (left, right)
  | x :: rest, left, right => splitInner rest right (x :: left)

/-- The merged elements are collected in reverse; the fuel is the length of both lists. -/
def mergeInner : ℕ → List α → List α → List α → List α
  | 0, a, b, agg => agg.reverse ++ (a ++ b)
  | _ + 1, [], b, agg => agg.reverse ++ b
  | _ + 1, x :: a, [], agg => agg.reverse ++ (x :: a)
  | n + 1, x :: a, y :: b, agg =>
    if less x y then mergeInner n a (y :: b) (x :: agg) else mergeInner n (x :: a) b (y :: agg)

def sortFuel : ℕ → List α → List α
  | 0, l => l
  | _ + 1, [] => []
  | _ + 1, [x] => [x]
  | n + 1, x :: y :: l =>
    let (a, b) := splitInner (x :: y :: l) [] []
    mergeInner less (a.length + b.length) (sortFuel n a) (sortFuel n b) []

def sort (l : List α) : List α := sortFuel less l.length l

theorem splitInner_perm (l left right : List α) :
    ((splitInner l left right).1 ++ (splitInner l left right).2).Perm (l ++ (left ++ right)) := by
  induction l generalizing left right with
  | nil => exact .refl _
  | cons x rest ih =>
    rw [splitInner]
    refine (ih right (x :: left)).trans ?_
    have h : (right ++ x :: left).Perm (x :: (left ++ right)) :=
      List.perm_middle.trans (List.perm_append_comm.cons x)
    exact (h.append_left rest).trans List.perm_middle

theorem mergeInner_perm (n : ℕ) (a b agg : List α) :
    (mergeInner less n a b agg).Perm (agg ++ (a ++ b)) := by
  induction n generalizing a b agg with
  | zero => exact (List.reverse_perm agg).append_right _
  | succ n ih =>
    cases a with
    | nil => exact (List.reverse_perm agg).append_right _
    | cons x a =>
      cases b with
      | nil =>
        rw [mergeInner, List.append_nil]
        exact (List.reverse_perm agg).append_right _
      | cons y b =>
        rw [mergeInner]
        split
        · exact (ih a (y :: b) (x :: agg)).trans List.perm_middle.symm
        · refine (ih (x :: a) b (y :: agg)).trans ?_
          have h : (y :: (x :: a ++ b)).Perm (x :: a ++ y :: b) := List.perm_middle.symm
          exact List.perm_middle.symm.trans (h.append_left agg)

theorem sortFuel_perm (n : ℕ) (l : List α) : (sortFuel less n l).Perm l := by
  induction n generalizing l with
  | zero => exact .refl _
  | succ n ih =>
    match l with
    | [] => exact .refl _
    | [x] => exact .refl _
    | x :: y :: l =>
      have hs := splitInner_perm (x :: y :: l) [] []
      rw [List.append_nil, List.append_nil] at hs
      rw [sortFuel]
      refine (mergeInner_perm less _ _ _ []).trans ?_
      exact ((ih _).append (ih _)).trans hs

theorem sort_perm (l : List α) : (sort less l).Perm l := sortFuel_perm less l.length l

end MergeSort

end ChiaGaming
