import ChiaGaming.Games.KrunkReveal
import Mathlib.Data.Nat.Digits.Lemmas

namespace ChiaGaming

/-! The colouring of a guess.  A letter in its place is two; the others are one, from left to right,
as long as the word has copies of the letter that are not in place and not used up, then zero. -/

namespace Colouring

variable {α : Type} [DecidableEq α]

/-- The pairs of letters that differ. -/
def missed (pairs : List (α × α)) : List (α × α) := pairs.filter fun p => p.1 ≠ p.2

/-- The letters of the word that no guessed letter meets in its place. -/
def unmet (pairs : List (α × α)) : List α := (missed pairs).map Prod.fst

/-- The guessed letters that are not in place. -/
def misplaced (pairs : List (α × α)) : List α := (missed pairs).map Prod.snd

def colour (pairs : List (α × α)) (i : ℕ) (p : α × α) : ℕ :=
  if p.1 = p.2 then 2
  else if (misplaced (pairs.take i)).count p.2 < (unmet pairs).count p.2 then 1
  else 0

def colours (word guess : List α) : List ℕ :=
  (word.zip guess).mapIdx (colour (word.zip guess))

theorem unmet_cons (w g : α) (pairs : List (α × α)) :
    unmet ((w, g) :: pairs) = if w = g then unmet pairs else w :: unmet pairs := by
  rw [unmet, missed, List.filter_cons]
  by_cases h : w = g
  · simp [h, unmet, missed]
  · simp [h, unmet, missed]

theorem misplaced_cons (w g : α) (pairs : List (α × α)) :
    misplaced ((w, g) :: pairs) = if w = g then misplaced pairs else g :: misplaced pairs := by
  rw [misplaced, missed, List.filter_cons]
  by_cases h : w = g
  · simp [h, misplaced, missed]
  · simp [h, misplaced, missed]

/-- The colours of the pairs after some guessed letters that are not in place. -/
def coloursFrom (left seen : List α) : List (α × α) → List ℕ
  | [] => []
  | (w, g) :: pairs =>
    if w = g then 2 :: coloursFrom left seen pairs
    else (if seen.count g < left.count g then 1 else 0) :: coloursFrom left (g :: seen) pairs

theorem coloursFrom_getElem? (left seen : List α) (pairs : List (α × α)) (i : ℕ) :
    (coloursFrom left seen pairs)[i]? = pairs[i]?.map fun p =>
      if p.1 = p.2 then 2
      else if seen.count p.2 + (misplaced (pairs.take i)).count p.2 < left.count p.2 then 1 else 0 := by
  induction pairs generalizing seen i with
  | nil => rfl
  | cons p pairs ih =>
    obtain ⟨w, g⟩ := p
    rw [coloursFrom]
    by_cases h : w = g
    · rw [if_pos h]
      cases i with
      | zero => simp [h]
      | succ i =>
        rw [List.getElem?_cons_succ, ih, List.getElem?_cons_succ, List.take_succ_cons, misplaced_cons,
          if_pos h]
    · rw [if_neg h]
      cases i with
      | zero => simp [h, misplaced, missed]
      | succ i =>
        rw [List.getElem?_cons_succ, ih, List.getElem?_cons_succ, List.take_succ_cons, misplaced_cons,
          if_neg h]
        congr 1
        funext p
        simp only [List.count_cons, Nat.add_assoc, Nat.add_comm]

theorem colours_eq (word guess : List α) :
    colours word guess = coloursFrom (unmet (word.zip guess)) [] (word.zip guess) := by
  apply List.ext_getElem?
  intro i
  rw [coloursFrom_getElem?, colours, List.getElem?_mapIdx]
  simp only [List.count_nil, Nat.zero_add]
  rfl

theorem length_colours {word guess : List α} (h : word.length = guess.length) :
    (colours word guess).length = word.length := by
  rw [colours, List.length_mapIdx, List.length_zip, h, Nat.min_self]

theorem colours_lt (word guess : List α) : ∀ d ∈ colours word guess, d < 3 := by
  intro d hd
  rw [colours, List.mem_mapIdx] at hd
  obtain ⟨i, hi, rfl⟩ := hd
  rw [colour]
  split_ifs <;> decide

/-- All letters are in place just when the word is guessed. -/
theorem colours_eq_replicate {word guess : List α} (h : word.length = guess.length) :
    colours word guess = List.replicate word.length 2 ↔ word = guess := by
  rw [colours_eq]
  generalize unmet (word.zip guess) = left
  generalize ([] : List α) = seen
  induction word generalizing guess seen with
  | nil =>
    cases guess with
    | nil => simp [coloursFrom]
    | cons g guess => cases h
  | cons w word ih =>
    cases guess with
    | nil => cases h
    | cons g guess =>
      have hlength : word.length = guess.length := Nat.succ_injective h
      rw [List.zip_cons_cons, coloursFrom, List.length_cons, List.replicate_succ]
      by_cases hw : w = g
      · rw [if_pos hw, List.cons.injEq, List.cons.injEq, ih hlength]
        simp [hw]
      · rw [if_neg hw, List.cons.injEq, List.cons.injEq]
        have hgrey : (if seen.count g < left.count g then 1 else 0) ≠ 2 := by
          split_ifs <;> decide
        simp [hw, hgrey]

end Colouring

namespace Krunk

open Colouring

theorem makeGreen_zip (word guess : Bytes) (h : word.length ≤ guess.length) :
    makeGreen word guess = some (unmet (word.zip guess), misplaced (word.zip guess),
      (word.zip guess).map fun p => decide (p.1 = p.2)) := by
  induction word generalizing guess with
  | nil => rfl
  | cons w word ih =>
    cases guess with
    | nil => cases h
    | cons g guess =>
      simp only [makeGreen, ih guess (Nat.le_of_succ_le_succ h), Option.bind_eq_bind, Option.bind_some]
      by_cases hw : w = g
      · rw [if_pos hw, List.zip_cons_cons, unmet_cons, misplaced_cons, if_pos hw, if_pos hw,
          List.map_cons, decide_eq_true hw]
      · rw [if_neg hw, List.zip_cons_cons, unmet_cons, misplaced_cons, if_neg hw, if_neg hw,
          List.map_cons, decide_eq_false hw]

theorem isYellow_iff {word : Bytes} {letter : UInt8} : isYellow word letter = true ↔ letter ∈ word := by
  induction word with
  | nil => simp [isYellow]
  | cons w word ih =>
    rw [isYellow]
    split_ifs with h
    · simp [h]
    · rw [ih, List.mem_cons, or_iff_right (Ne.symm h)]

theorem elideOne_eq {word : Bytes} {letter : UInt8} (h : letter ∈ word) :
    elideOne word letter = some (word.erase letter) := by
  induction word with
  | nil => cases h
  | cons w word ih =>
    rw [elideOne]
    by_cases hw : w = letter
    · rw [if_pos hw, hw, List.erase_cons_head]
    · rw [if_neg hw, List.erase_cons_tail (by simpa using hw)]
      rw [List.mem_cons, or_iff_right (Ne.symm hw)] at h
      rw [ih h]
      rfl

/-- The letters that are left over say of each letter how many copies are not used up. -/
theorem mergeColors_makeYellow (left : Bytes) (pairs : List (UInt8 × UInt8)) (seen rest : Bytes)
    (hrest : ∀ x, rest.count x = left.count x - seen.count x) :
    ∃ yellow, makeYellow rest (misplaced pairs) = some yellow ∧ ∀ val : ℕ,
      mergeColors (pairs.map fun p => decide (p.1 = p.2)) yellow val =
        some ↑((coloursFrom left seen pairs).foldl (fun v d => d + 3 * v) val) := by
  induction pairs generalizing seen rest with
  | nil => exact ⟨[], by cases rest <;> rfl, fun val => rfl⟩
  | cons p pairs ih =>
    obtain ⟨w, g⟩ := p
    rw [coloursFrom]
    by_cases hw : w = g
    · obtain ⟨yellow, hyellow, hmerge⟩ := ih seen rest hrest
      refine ⟨yellow, ?_, fun val => ?_⟩
      · rw [misplaced_cons, if_pos hw]
        exact hyellow
      · rw [if_pos hw, List.foldl_cons, List.map_cons, ← hmerge, decide_eq_true hw, mergeColors]
        rfl
    · rw [if_neg hw]
      -- a copy of the letter is left just when fewer were seen than the word has out of place
      have hyellow : isYellow rest g = true ↔ seen.count g < left.count g := by
        rw [isYellow_iff, ← List.count_pos_iff, hrest]
        exact Nat.sub_pos_iff_lt
      have hmisplaced : misplaced ((w, g) :: pairs) = g :: misplaced pairs := by
        rw [misplaced_cons, if_neg hw]
      by_cases hleft : seen.count g < left.count g
      · have hmem : g ∈ rest := isYellow_iff.mp (hyellow.mpr hleft)
        obtain ⟨yellow, hrestYellow, hmerge⟩ := ih (g :: seen) (rest.erase g) fun x => by
          rw [List.count_erase, hrest, List.count_cons]
          omega
        refine ⟨1 :: yellow, ?_, fun val => ?_⟩
        · rw [hmisplaced, makeYellow, if_pos (hyellow.mpr hleft), elideOne_eq hmem]
          simp only [Option.bind_eq_bind, Option.bind_some, hrestYellow]
        · rw [List.map_cons, decide_eq_false hw, mergeColors, if_pos hleft, List.foldl_cons, ← hmerge]
          congr 1
      · obtain ⟨yellow, hrestYellow, hmerge⟩ := ih (g :: seen) rest fun x => by
          rw [hrest, List.count_cons]
          by_cases hx : g = x
          · subst hx
            simp only [beq_self_eq_true, if_true]
            omega
          · simp [hx]
        refine ⟨0 :: yellow, ?_, fun val => ?_⟩
        · rw [hmisplaced, makeYellow, if_neg (hyellow.not.mpr hleft)]
          simp only [Option.bind_eq_bind, Option.bind_some, hrestYellow]
        · rw [List.map_cons, decide_eq_false hw, mergeColors, if_neg hleft, List.foldl_cons, ← hmerge]
          congr 1

/-- The number that stands for a colouring: base three, first letter most significant. -/
def clueNumber (colouring : List ℕ) : ℕ := Nat.ofDigits 3 colouring.reverse

theorem clueNumber_eq_foldl (colouring : List ℕ) :
    clueNumber colouring = colouring.foldl (fun v d => d + 3 * v) 0 := by
  rw [clueNumber, Nat.ofDigits_eq_foldr, List.foldr_reverse]
  rfl

/-- The clue that stands for a colouring. -/
def clueOf (colouring : List ℕ) : ℤ := (clueNumber colouring : ℤ) - 128

theorem makeClue_eq {word guess : Bytes} (hword : word.length = 5) (hguess : guess.length = 5) :
    makeClue word guess = some (clueOf (colours word guess)) := by
  obtain ⟨yellow, hyellow, hmerge⟩ := mergeColors_makeYellow (unmet (word.zip guess))
    (word.zip guess) [] (unmet (word.zip guess)) fun x => by rw [List.count_nil, Nat.sub_zero]
  have hgreen := makeGreen_zip word guess (hword.trans hguess.symm).le
  have hmerged := hmerge 0
  rw [← colours_eq, ← clueNumber_eq_foldl, Nat.cast_zero] at hmerged
  simp only [makeClue, expandWord_eq hword, expandWord_eq hguess, hgreen, hyellow, hmerged,
    Option.bind_eq_bind, Option.bind_some]
  rfl

theorem expandClueInner_ofDigits {digits : List ℕ} (h : ∀ d ∈ digits, d < 3) :
    expandClueInner (Nat.ofDigits 3 digits : ℕ) digits.length = digits.map Clvm.nat := by
  induction digits with
  | nil => rfl
  | cons d digits ih =>
    have hd : d < 3 := h d List.mem_cons_self
    have hcons : ((Nat.ofDigits 3 (d :: digits) : ℕ) : ℤ) = d + 3 * (Nat.ofDigits 3 digits : ℕ) := by
      rw [Nat.ofDigits_cons]
      push_cast
      rfl
    have hmod : ((Nat.ofDigits 3 (d :: digits) : ℕ) : ℤ).fmod 3 = d := by
      rw [hcons, Int.fmod_eq_emod_of_nonneg _ (by decide)]
      omega
    have hdiv : ((Nat.ofDigits 3 (d :: digits) : ℕ) : ℤ).fdiv 3 = (Nat.ofDigits 3 digits : ℕ) := by
      rw [hcons, Int.fdiv_eq_ediv_of_nonneg _ (by decide)]
      omega
    rw [List.length_cons, expandClueInner, hmod, hdiv, ih fun d hd => h d (List.mem_cons_of_mem _ hd)]
    rfl

theorem expandClue_clueNumber {colouring : List ℕ} (hlength : colouring.length = 5)
    (h : ∀ d ∈ colouring, d < 3) :
    expandClue (clueOf colouring) = .list (colouring.map Clvm.nat) := by
  have hinner := @expandClueInner_ofDigits colouring.reverse fun d hd =>
    h d (List.mem_reverse.mp hd)
  rw [List.length_reverse, hlength] at hinner
  rw [expandClue, clueOf, sub_add_cancel, clueNumber, hinner, ← List.map_reverse, List.reverse_reverse]

theorem clueNumber_injective {a b : List ℕ} (hlength : a.length = b.length) (ha : ∀ d ∈ a, d < 3)
    (hb : ∀ d ∈ b, d < 3) (h : clueNumber a = clueNumber b) : a = b := by
  refine List.reverse_injective (Nat.ofDigits_inj_of_len_eq (by decide) ?_ ?_ ?_ h)
  · rw [List.length_reverse, List.length_reverse, hlength]
  · exact fun d hd => ha d (List.mem_reverse.mp hd)
  · exact fun d hd => hb d (List.mem_reverse.mp hd)

/-- A word of five bytes. -/
structure Word where
  bytes : Bytes
  five : bytes.length = 5

/-- The clue of a guess stands for its colouring, from which it can be read again, as each of the
colourings can, and all are in place just when the word is guessed. -/
theorem makeClue_colours (word guess : Word) :
    makeClue word.bytes guess.bytes =
        some (clueOf (colours word.bytes guess.bytes)) ∧
      (makeClue word.bytes guess.bytes = some (clueOf [2, 2, 2, 2, 2]) ↔
        word.bytes = guess.bytes) ∧
      ∀ colouring : Fin 5 → Fin 3,
        expandClue (clueOf ((List.ofFn colouring).map Fin.val)) =
          .list (((List.ofFn colouring).map Fin.val).map Clvm.nat) := by
  have hlength : word.bytes.length = guess.bytes.length := word.five.trans guess.five.symm
  refine ⟨makeClue_eq word.five guess.five, ?_, fun colouring => ?_⟩
  · rw [makeClue_eq word.five guess.five, ← colours_eq_replicate hlength, word.five]
    constructor
    · intro h
      refine clueNumber_injective ?_ (colours_lt _ _) (by decide) ?_
      · rw [length_colours hlength, word.five]
        rfl
      · have hclue := Option.some.inj h
        simp only [clueOf, sub_left_inj, Nat.cast_inj] at hclue
        exact hclue
    · intro h
      rw [h]
      rfl
  · refine expandClue_clueNumber ?_ fun d hd => ?_
    · rw [List.length_map, List.length_ofFn]
    · obtain ⟨c, -, rfl⟩ := List.mem_map.mp hd
      exact c.isLt

end Krunk

end ChiaGaming
