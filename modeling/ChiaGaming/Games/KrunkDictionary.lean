import ChiaGaming.Games.KrunkClue
import ChiaGaming.Lib.Canonical
import ChiaGaming.Lib.Gaps
import ChiaGaming.Lib.Serialize

namespace ChiaGaming

/-! Byte strings of one length as numbers. -/

/-- Byte strings of one length are in the order of their numbers. -/
theorem bytesLe_iff {a b : Bytes} (hlength : a.length = b.length) :
    bytesLe a b = true ↔ natOfBytes a ≤ natOfBytes b := by
  induction a generalizing b with
  | nil =>
    rw [List.length_eq_zero_iff.mp hlength.symm]
    exact iff_of_true rfl le_rfl
  | cons x a ih =>
    cases b with
    | nil => cases hlength
    | cons y b =>
      have hlength' : a.length = b.length := Nat.succ_injective hlength
      have ha := natOfBytes_lt a
      have hb := natOfBytes_lt b
      rw [hlength'] at ha
      rw [bytesLe_cons, natOfBytes_cons, natOfBytes_cons, ih hlength', hlength']
      rcases lt_trichotomy x.toNat y.toNat with hlt | heq | hlt
      · exact iff_of_true (.inl hlt) (by nlinarith)
      · rw [UInt8.toNat_inj.mp heq]
        simp
      · refine iff_of_false ?_ (by nlinarith)
        rintro (h | ⟨rfl, -⟩)
        · exact absurd h (lt_asymm hlt)
        · exact absurd hlt (lt_irrefl _)

theorem intOfBytes_eq_of_lt {b : Bytes} (h : 2 * natOfBytes b < 256 ^ b.length) :
    intOfBytes b = natOfBytes b := by
  cases b with
  | nil => rfl
  | cons x xs =>
    rw [intOfBytes, if_pos]
    rw [natOfBytes_cons, List.length_cons, pow_succ] at h
    have := natOfBytes_lt xs
    by_contra hx
    rw [not_lt] at hx
    nlinarith

theorem intOfBytes_eq_of_ge {b : Bytes} (hne : b ≠ []) (h : 256 ^ b.length ≤ 2 * natOfBytes b) :
    intOfBytes b = natOfBytes b - 256 ^ b.length := by
  cases b with
  | nil => exact absurd rfl hne
  | cons x xs =>
    rw [intOfBytes, if_neg, List.length_cons]
    rw [natOfBytes_cons, List.length_cons, pow_succ] at h
    have := natOfBytes_lt xs
    intro hx
    nlinarith

/-- The canonical string of a number that needs all five bytes. -/
theorem bytesOfInt_eq {b : Bytes} {n : ℕ} (hlength : b.length = 5) (hvalue : natOfBytes b = n)
    (hlow : 128 * 256 ^ 3 ≤ n) (hhigh : n < 128 * 256 ^ 4) : bytesOfInt n = b := by
  refine natOfBytes_inj ?_ ((natOfBytes_bytesOfNat n).trans hvalue.symm)
  rw [hlength, bytesOfInt_natCast]
  by_cases hbig : 256 ^ 4 ≤ n
  · exact Krunk.bytesOfNat_length_five hbig hhigh
  · -- four digits whose first one has the sign bit get a zero in front
    have hlog : 4 ≤ n.log2 + 1 := by
      have : 31 ≤ n.log2 := (Nat.le_log2 (by omega)).mpr (by omega)
      omega
    have hdigits := digitsOfNat_length 4 (n.log2 + 1) n [] hlog (by omega) (.inr (by omega))
    have hspec := digitsOfNat_spec (n.log2 + 1) n [] (lt_pow_log2 n)
    rw [bytesOfNat]
    generalize digitsOfNat (n.log2 + 1) n [] = digits at hdigits hspec
    cases digits with
    | nil => cases hdigits
    | cons x xs =>
      have hxs : xs.length = 3 := by simpa using hdigits
      have hrest := natOfBytes_lt xs
      rw [natOfBytes_cons, hxs] at hspec
      rw [hxs] at hrest
      simp only [List.length_nil, pow_zero, mul_one, natOfBytes_nil, add_zero] at hspec
      rw [padSign, if_neg (by omega), List.length_cons, List.length_cons, hxs]

namespace Krunk

/-! Words and the numbers next to them. -/

/-- Adds one from the right; the carry comes out on the left. -/
def addCarry : Bytes → Bytes × Bool
  | [] => ([], true)
  | x :: xs => if (addCarry xs).2 then ((x + 1) :: (addCarry xs).1, x = 255) else (x :: (addCarry xs).1, false)

def wordAddOne (word : Bytes) : Bytes := (addCarry word).1

def subBorrow : Bytes → Bytes × Bool
  | [] => ([], true)
  | x :: xs => if (subBorrow xs).2 then ((x - 1) :: (subBorrow xs).1, x = 0) else (x :: (subBorrow xs).1, false)

def wordSubOne (word : Bytes) : Bytes := (subBorrow word).1

theorem addCarry_spec (word : Bytes) : (addCarry word).1.length = word.length ∧
    natOfBytes (addCarry word).1 + (if (addCarry word).2 then 256 ^ word.length else 0) =
      natOfBytes word + 1 := by
  induction word with
  | nil => exact ⟨rfl, rfl⟩
  | cons x xs ih =>
    obtain ⟨hlength, hvalue⟩ := ih
    rw [addCarry]
    cases hcarry : (addCarry xs).2 with
    | false =>
      rw [hcarry] at hvalue
      refine ⟨congrArg (· + 1) hlength, ?_⟩
      simp only [Bool.false_eq_true, if_false, Nat.add_zero] at hvalue ⊢
      rw [natOfBytes_cons, natOfBytes_cons, hlength, hvalue, Nat.add_assoc]
    | true =>
      rw [hcarry, if_pos rfl] at hvalue
      refine ⟨congrArg (· + 1) hlength, ?_⟩
      simp only [if_true]
      rw [natOfBytes_cons, natOfBytes_cons, hlength, List.length_cons]
      by_cases hx : x = 255
      · subst hx
        simp only [decide_true, if_true]
        have h0 : ((255 : UInt8) + 1).toNat = 0 := rfl
        have h255 : (255 : UInt8).toNat = 255 := rfl
        rw [h0, h255, pow_succ]
        omega
      · have hsucc : (x + 1).toNat = x.toNat + 1 := by
          have hne : x.toNat ≠ 255 := fun h => hx (UInt8.toNat_inj.mp h)
          have := x.toNat_lt
          rw [UInt8.toNat_add, Nat.mod_eq_of_lt]
          · rfl
          · change x.toNat + 1 < 256
            omega
        simp only [hx, decide_false, Bool.false_eq_true, if_false]
        rw [hsucc, Nat.add_mul]
        omega

theorem subBorrow_spec (word : Bytes) : (subBorrow word).1.length = word.length ∧
    natOfBytes (subBorrow word).1 + 1 =
      natOfBytes word + (if (subBorrow word).2 then 256 ^ word.length else 0) := by
  induction word with
  | nil => exact ⟨rfl, rfl⟩
  | cons x xs ih =>
    obtain ⟨hlength, hvalue⟩ := ih
    rw [subBorrow]
    cases hborrow : (subBorrow xs).2 with
    | false =>
      rw [hborrow] at hvalue
      refine ⟨congrArg (· + 1) hlength, ?_⟩
      simp only [Bool.false_eq_true, if_false, Nat.add_zero] at hvalue ⊢
      rw [natOfBytes_cons, natOfBytes_cons, hlength, Nat.add_assoc, hvalue]
    | true =>
      rw [hborrow, if_pos rfl] at hvalue
      refine ⟨congrArg (· + 1) hlength, ?_⟩
      simp only [if_true]
      rw [natOfBytes_cons, natOfBytes_cons, hlength, List.length_cons]
      by_cases hx : x = 0
      · subst hx
        simp only [decide_true, if_true]
        have h255 : ((0 : UInt8) - 1).toNat = 255 := rfl
        have h0 : (0 : UInt8).toNat = 0 := rfl
        rw [h0, h255, pow_succ]
        omega
      · have hpred : x.toNat = (x - 1).toNat + 1 := by
          have hne : x.toNat ≠ 0 := fun h => hx (UInt8.toNat_inj.mp h)
          rw [UInt8.toNat_sub_of_le]
          · change x.toNat = x.toNat - 1 + 1
            omega
          · rw [UInt8.le_iff_toNat_le]
            change 1 ≤ x.toNat
            omega
        simp only [hx, decide_false, Bool.false_eq_true, if_false]
        rw [hpred, Nat.add_mul]
        omega

/-! The gap evidence of a dictionary, as it is signed, and the tree with the signatures. -/

def generateGapEvidence (sortedWords : List Bytes) : List Bytes :=
  let n := sortedWords.length
  if n = 0 then [minWord ++ maxWord]
  else
    let first := sortedWords.getD 0 []
    let last := sortedWords.getD (n - 1) []
    (if first ≠ minWord then [minWord ++ wordSubOne first] else []) ++
      ((List.range' 1 (n - 1)).flatMap fun i =>
        let left := wordAddOne (sortedWords.getD (i - 1) [])
        let right := wordSubOne (sortedWords.getD i [])
        if bytesLe left right then [left ++ right] else []) ++
      (if last ≠ maxWord then [wordAddOne last ++ maxWord] else [])

def reachableGapMask (sortedWords : List Bytes) : List Bool :=
  let n := sortedWords.length
  if n = 0 then [true]
  else
    decide (sortedWords.getD 0 [] ≠ minWord) ::
      ((List.range' 1 (n - 1)).map fun i =>
        bytesLe (wordAddOne (sortedWords.getD (i - 1) [])) (wordSubOne (sortedWords.getD i []))) ++
      [decide (sortedWords.getD (n - 1) [] ≠ maxWord)]

/-- The signatures of the reachable gaps at their places; there must be one for each. -/
def expandSignatures {S : Type} (default : S) : List Bool → List S → Option (List S)
  | [], _ => some []
  | true :: _, [] => none
  | true :: mask, sig :: sigs => (expandSignatures default mask sigs).map (sig :: ·)
  | false :: mask, sigs => (expandSignatures default mask sigs).map (default :: ·)

def expandSignaturesForTree {S : Type} (default : S) (sortedWords : List Bytes) (reachableSigs : List S) :
    Option (List S) :=
  expandSignatures default (reachableGapMask sortedWords) reachableSigs

/-- The bounds of the gap between the words before and after a place. -/
def lowBound (before : List Bytes) : Bytes := before.getLast?.elim minWord wordAddOne

def highBound (after : List Bytes) : Bytes := after.head?.elim maxWord wordSubOne

def reachable (before after : List Bytes) : Bool :=
  match before.getLast?, after.head? with
  | none, none => true
  | none, some first => first ≠ minWord
  | some last, none => last ≠ maxWord
  | some prev, some curr => bytesLe (wordAddOne prev) (wordSubOne curr)

theorem flatMap_ite {α β : Type} (l : List α) (c : α → Bool) (e : α → β) :
    (l.flatMap fun a => if c a then [e a] else []) = (l.filter c).map e := by
  induction l with
  | nil => rfl
  | cons a l ih =>
    rw [List.flatMap_cons, ih, List.filter_cons]
    cases c a with
    | true => rfl
    | false => rfl

theorem range_ends (n : ℕ) : List.range (n + 2) = 0 :: List.range' 1 n ++ [n + 1] := by
  rw [List.range_eq_range', List.range'_succ, List.range'_concat]
  simp [Nat.add_comm]

theorem getLast?_take_succ {words : List Bytes} {i : ℕ} (h : i < words.length) :
    (words.take (i + 1)).getLast? = some (words.getD i []) := by
  rw [List.getLast?_take, if_neg (Nat.succ_ne_zero i), Nat.add_sub_cancel, List.getD_eq_getElem?_getD,
    List.getElem?_eq_getElem h]
  rfl

theorem head?_drop_of_lt {words : List Bytes} {i : ℕ} (h : i < words.length) :
    (words.drop i).head? = some (words.getD i []) := by
  rw [List.head?_drop, List.getD_eq_getElem?_getD, List.getElem?_eq_getElem h]
  rfl

section Places

variable (words : List Bytes)

/-- The places of the gaps of a dictionary that has words: the first, those between words, the last. -/
theorem places_eq {α : Type} (f : List Bytes → List Bytes → α) {n : ℕ} (hn : words.length = n + 1) :
    (List.range (n + 2)).map (fun k => f (words.take k) (words.drop k)) =
      f [] words :: (List.range' 1 n).map (fun i => f (words.take i) (words.drop i)) ++ [f words []] := by
  rw [range_ends, List.map_append, List.map_cons, List.map_singleton, List.take_zero, List.drop_zero,
    ← hn, List.take_length, List.drop_length]

theorem reachable_interior {n i : ℕ} (hn : words.length = n + 1) (hi : i ∈ List.range' 1 n) :
    reachable (words.take i) (words.drop i) =
        bytesLe (wordAddOne (words.getD (i - 1) [])) (wordSubOne (words.getD i [])) ∧
      lowBound (words.take i) = wordAddOne (words.getD (i - 1) []) ∧
      highBound (words.drop i) = wordSubOne (words.getD i []) := by
  rw [List.mem_range'_1] at hi
  obtain ⟨j, rfl⟩ : ∃ j, i = j + 1 := ⟨i - 1, by omega⟩
  have hlast := @getLast?_take_succ words j (by omega)
  have hhead := @head?_drop_of_lt words (j + 1) (by omega)
  rw [reachable, lowBound, highBound, hlast, hhead]
  exact ⟨rfl, rfl, rfl⟩

theorem reachable_ends {n : ℕ} (hn : words.length = n + 1) :
    (reachable [] words = decide (words.getD 0 [] ≠ minWord) ∧
      highBound words = wordSubOne (words.getD 0 [])) ∧
    reachable words [] = decide (words.getD n [] ≠ maxWord) ∧
      lowBound words = wordAddOne (words.getD n []) := by
  have hlast := @getLast?_take_succ words n (by omega)
  have hhead := @head?_drop_of_lt words 0 (by omega)
  rw [← hn, List.take_length] at hlast
  rw [List.drop_zero] at hhead
  rw [reachable, reachable, lowBound, highBound, hlast, hhead]
  exact ⟨⟨rfl, rfl⟩, rfl, rfl⟩

theorem reachableGapMask_eq : reachableGapMask words =
    (List.range (words.length + 1)).map fun k => reachable (words.take k) (words.drop k) := by
  rw [reachableGapMask]
  cases hn : words.length with
  | zero =>
    rw [List.length_eq_zero_iff.mp hn]
    rfl
  | succ n =>
    obtain ⟨⟨hfirst, -⟩, hlast, -⟩ := reachable_ends words hn
    rw [places_eq words reachable hn, hfirst, hlast, if_neg (Nat.succ_ne_zero n), Nat.add_sub_cancel]
    refine congrArg (fun l => decide (words.getD 0 [] ≠ minWord) :: l ++ _) ?_
    exact List.map_congr_left fun i hi => (reachable_interior words hn hi).1.symm

theorem generateGapEvidence_eq : generateGapEvidence words =
    ((List.range (words.length + 1)).filter fun k => reachable (words.take k) (words.drop k)).map
      fun k => lowBound (words.take k) ++ highBound (words.drop k) := by
  rw [generateGapEvidence]
  cases hn : words.length with
  | zero =>
    rw [List.length_eq_zero_iff.mp hn]
    rfl
  | succ n =>
    obtain ⟨⟨hfirst, hhigh⟩, hlast, hlow⟩ := reachable_ends words hn
    have hplaces := congrArg List.flatten (places_eq words (fun before after =>
      if reachable before after then [lowBound before ++ highBound after] else []) hn)
    rw [List.flatten_append, List.flatten_cons, List.flatten_singleton, hfirst, hlast, hhigh, hlow]
      at hplaces
    rw [← flatMap_ite, if_neg (Nat.succ_ne_zero n), Nat.add_sub_cancel]
    refine Eq.trans ?_ hplaces.symm
    simp only [decide_eq_true_eq]
    refine congrArg₂ (· ++ ·) (congrArg₂ (· ++ ·) rfl ?_) rfl
    refine congrArg List.flatten (List.map_congr_left fun i hi => ?_)
    obtain ⟨hreach, hlowi, hhighi⟩ := reachable_interior words hn hi
    rw [hreach, hlowi, hhighi]

end Places

/-- Signatures made for the reachable places stand at those places. -/
theorem expandSignatures_map {α S : Type} (default : S) (places : List α) (open? : α → Bool)
    (sig : α → S) : expandSignatures default (places.map open?) ((places.filter open?).map sig) =
      some (places.map fun a => if open? a then sig a else default) := by
  induction places with
  | nil => rfl
  | cons a places ih =>
    rw [List.map_cons, List.filter_cons]
    cases ha : open? a with
    | true => simp only [if_true, List.map_cons, expandSignatures, ih, ha, Option.map_some]
    | false =>
      simp only [Bool.false_eq_true, if_false, expandSignatures, ih, ha, List.map_cons, Option.map_some]

/-! The words of a dictionary as numbers. -/

/-- A word that a dictionary may hold. -/
structure Listable (w : Bytes) : Prop where
  five : w.length = 5
  low : 256 ^ 4 ≤ natOfBytes w
  high : natOfBytes w < 128 * 256 ^ 4

theorem natOfBytes_maxWord : natOfBytes maxWord = 128 * 256 ^ 4 - 1 := rfl

namespace Listable

variable {w : Bytes} (h : Listable w)
include h

theorem int_eq : intOfBytes w = natOfBytes w := by
  refine intOfBytes_eq_of_lt ?_
  rw [h.five]
  have := h.high
  omega

theorem natOfBytes_sub : (wordSubOne w).length = 5 ∧ natOfBytes (wordSubOne w) + 1 = natOfBytes w := by
  obtain ⟨hlength, hvalue⟩ := subBorrow_spec w
  refine ⟨hlength.trans h.five, ?_⟩
  cases hborrow : (subBorrow w).2 with
  | false =>
    rw [hborrow] at hvalue
    simp only [Bool.false_eq_true, if_false, Nat.add_zero] at hvalue
    exact hvalue
  | true =>
    -- a borrow would need more than five bytes
    rw [hborrow, if_pos rfl, h.five] at hvalue
    have hlt := natOfBytes_lt (subBorrow w).1
    rw [hlength, h.five] at hlt
    have := h.low
    omega

theorem int_sub : intOfBytes (wordSubOne w) = intOfBytes w - 1 := by
  obtain ⟨hlength, hvalue⟩ := h.natOfBytes_sub
  rw [h.int_eq, intOfBytes_eq_of_lt]
  · omega
  · rw [hlength]
    have := h.high
    omega

theorem bytesOfInt_sub : bytesOfInt (intOfBytes w - 1) = wordSubOne w := by
  obtain ⟨hlength, hvalue⟩ := h.natOfBytes_sub
  have hlow := h.low
  have hhigh := h.high
  have hint : intOfBytes w - 1 = ((natOfBytes w - 1 : ℕ) : ℤ) := by
    rw [h.int_eq]
    omega
  rw [hint]
  exact bytesOfInt_eq hlength (by omega) (by omega) (by omega)

theorem ne_maxWord_iff : w ≠ maxWord ↔ natOfBytes w + 1 < 128 * 256 ^ 4 := by
  have hhigh := h.high
  constructor
  · intro hne
    have : natOfBytes w ≠ natOfBytes maxWord := fun heq =>
      hne (natOfBytes_inj (h.five.trans rfl) heq)
    rw [natOfBytes_maxWord] at this
    omega
  · rintro hlt rfl
    rw [natOfBytes_maxWord] at hlt
    omega

theorem natOfBytes_add (hmax : w ≠ maxWord) :
    (wordAddOne w).length = 5 ∧ natOfBytes (wordAddOne w) = natOfBytes w + 1 := by
  obtain ⟨hlength, hvalue⟩ := addCarry_spec w
  have hlt := h.ne_maxWord_iff.mp hmax
  refine ⟨hlength.trans h.five, ?_⟩
  cases hcarry : (addCarry w).2 with
  | false =>
    rw [hcarry] at hvalue
    simp only [Bool.false_eq_true, if_false, Nat.add_zero] at hvalue
    exact hvalue
  | true =>
    rw [hcarry, if_pos rfl, h.five] at hvalue
    omega

theorem int_add (hmax : w ≠ maxWord) : intOfBytes (wordAddOne w) = intOfBytes w + 1 := by
  obtain ⟨hlength, hvalue⟩ := h.natOfBytes_add hmax
  have hlt := h.ne_maxWord_iff.mp hmax
  rw [h.int_eq, intOfBytes_eq_of_lt, hvalue]
  · push_cast
    rfl
  · rw [hlength, hvalue]
    omega

theorem bytesOfInt_add (hmax : w ≠ maxWord) : bytesOfInt (intOfBytes w + 1) = wordAddOne w := by
  obtain ⟨hlength, hvalue⟩ := h.natOfBytes_add hmax
  have hlow := h.low
  have hlt := h.ne_maxWord_iff.mp hmax
  have hint : intOfBytes w + 1 = ((natOfBytes w + 1 : ℕ) : ℤ) := by
    rw [h.int_eq]
    push_cast
    rfl
  rw [hint]
  exact bytesOfInt_eq hlength hvalue (by omega) (by omega)

end Listable

/-- Every word lies between the least and the greatest, and tells its bytes by its number. -/
theorem Word.bounds (w : Word) :
    intOfBytes minWord ≤ intOfBytes w.bytes ∧ intOfBytes w.bytes ≤ intOfBytes maxWord := by
  have hmin : intOfBytes minWord = -(128 * 256 ^ 4) := rfl
  have hmax : intOfBytes maxWord = 128 * 256 ^ 4 - 1 := rfl
  have hlt := natOfBytes_lt w.bytes
  rw [w.five] at hlt
  rw [hmin, hmax]
  by_cases hpos : 2 * natOfBytes w.bytes < 256 ^ w.bytes.length
  · rw [intOfBytes_eq_of_lt hpos]
    rw [w.five] at hpos
    omega
  · have hne : w.bytes ≠ [] := List.ne_nil_of_length_eq_add_one w.five
    rw [not_lt] at hpos
    rw [intOfBytes_eq_of_ge hne hpos, w.five]
    rw [w.five] at hpos
    omega

theorem Word.eq_of_int {w : Word} {b : Bytes} (hlength : b.length = 5)
    (h : intOfBytes w.bytes = intOfBytes b) : w.bytes = b := by
  have hvalue : ∀ {c : Bytes}, c.length = 5 →
      intOfBytes c = if natOfBytes c < 128 * 256 ^ 4 then (natOfBytes c : ℤ) else natOfBytes c - 256 ^ 5 := by
    intro c hc
    split_ifs with hlt
    · refine intOfBytes_eq_of_lt ?_
      rw [hc]
      omega
    · rw [intOfBytes_eq_of_ge (List.ne_nil_of_length_eq_add_one hc) ?_, hc]
      rw [hc]
      omega
  have hw := natOfBytes_lt w.bytes
  have hb := natOfBytes_lt b
  rw [w.five] at hw
  rw [hlength] at hb
  refine natOfBytes_inj (w.five.trans hlength.symm) ?_
  rw [hvalue w.five, hvalue hlength] at h
  split_ifs at h <;> omega

/-- A dictionary: words of five bytes in order, led by a byte from 0x01 to 0x7f. -/
structure Dictionary where
  words : List Bytes
  sorted : words.Pairwise fun a b => natOfBytes a < natOfBytes b
  five : ∀ w ∈ words, w.length = 5
  leading : ∀ w ∈ words, ∃ x xs, w = x :: xs ∧ 0x01 ≤ x.toNat ∧ x.toNat ≤ 0x7f

namespace Dictionary

variable (d : Dictionary)

theorem listable {w : Bytes} (hw : w ∈ d.words) : Listable w := by
  obtain ⟨x, xs, rfl, hlow, hhigh⟩ := d.leading w hw
  have hfive := d.five _ hw
  have hxs : xs.length = 4 := Nat.succ_injective hfive
  have hrest := natOfBytes_lt xs
  rw [hxs] at hrest
  have hvalue : natOfBytes (x :: xs) = x.toNat * 256 ^ 4 + natOfBytes xs := by
    rw [natOfBytes_cons, hxs]
  exact ⟨hfive, by omega, by omega⟩

def keys : List ℤ := d.words.map intOfBytes

theorem keys_sorted : d.keys.Pairwise (· < ·) := by
  rw [keys, List.pairwise_map]
  refine d.sorted.imp_of_mem fun ha hb hab => ?_
  rw [(d.listable ha).int_eq, (d.listable hb).int_eq]
  exact_mod_cast hab

def IsGap (low high : ℤ) : Prop :=
  Gaps.IsGap (intOfBytes minWord) (intOfBytes maxWord) d.keys low high

theorem keys_bounds : ∀ k ∈ d.keys, intOfBytes minWord ≤ k ∧ k ≤ intOfBytes maxWord := by
  intro k hk
  obtain ⟨w, hw, rfl⟩ := List.mem_map.mp hk
  exact Word.bounds ⟨w, d.five w hw⟩

end Dictionary

/-! The bounds of a place as numbers. -/

section Bounds

variable {before after : List Bytes}

theorem int_highBound (h : ∀ w ∈ after, Listable w) : (highBound after).length = 5 ∧
    intOfBytes (highBound after) = Gaps.highEnd (intOfBytes maxWord) (after.map intOfBytes) := by
  cases after with
  | nil => exact ⟨rfl, rfl⟩
  | cons first rest =>
    have hfirst := h first List.mem_cons_self
    exact ⟨hfirst.natOfBytes_sub.1, hfirst.int_sub⟩

theorem int_lowBound (h : ∀ w ∈ before, Listable w) (hmax : before.getLast? ≠ some maxWord) :
    (lowBound before).length = 5 ∧
      intOfBytes (lowBound before) = Gaps.lowEnd (intOfBytes minWord) (before.map intOfBytes) := by
  rw [lowBound, Gaps.lowEnd, List.getLast?_map]
  cases hlast : before.getLast? with
  | none => exact ⟨rfl, rfl⟩
  | some last =>
    have hlistable := h last (List.mem_of_getLast? hlast)
    have hne : last ≠ maxWord := fun heq => hmax (hlast.trans (congrArg some heq))
    exact ⟨(hlistable.natOfBytes_add hne).1, hlistable.int_add hne⟩

/-- A place is reachable just when its bounds leave room. -/
theorem reachable_iff (hbefore : ∀ w ∈ before, Listable w) (hafter : ∀ w ∈ after, Listable w)
    (hsorted : ∀ a ∈ before, ∀ b ∈ after, natOfBytes a < natOfBytes b) :
    reachable before after = true ↔ Gaps.lowEnd (intOfBytes minWord) (before.map intOfBytes) ≤
      Gaps.highEnd (intOfBytes maxWord) (after.map intOfBytes) := by
  rw [reachable, Gaps.lowEnd, Gaps.highEnd, List.getLast?_map, List.head?_map]
  have hmin : intOfBytes minWord = -(128 * 256 ^ 4) := rfl
  have hmax : intOfBytes maxWord = 128 * 256 ^ 4 - 1 := rfl
  rw [hmin, hmax]
  cases hlast : before.getLast? with
  | none =>
    cases hfirst : after.head? with
    | none => simp
    | some first =>
      have hlistable := hafter first (List.mem_of_head? hfirst)
      have hne : first ≠ minWord := by
        rintro rfl
        exact absurd hlistable.high (by decide)
      have hlow := hlistable.low
      simp only [decide_eq_true_eq, Option.map_some, Option.map_none, Option.elim]
      refine iff_of_true hne ?_
      rw [hlistable.int_eq]
      omega
  | some last =>
    have hlistable := hbefore last (List.mem_of_getLast? hlast)
    cases hfirst : after.head? with
    | none =>
      simp only [decide_eq_true_eq, Option.map_some, Option.map_none, Option.elim]
      rw [hlistable.ne_maxWord_iff, hlistable.int_eq]
      omega
    | some first =>
      have hfirst' := hafter first (List.mem_of_head? hfirst)
      have hlt := hsorted last (List.mem_of_getLast? hlast) first (List.mem_of_head? hfirst)
      have hhigh := hfirst'.high
      have hne : last ≠ maxWord := hlistable.ne_maxWord_iff.mpr (by omega)
      obtain ⟨haddLength, hadd⟩ := hlistable.natOfBytes_add hne
      obtain ⟨hsubLength, hsub⟩ := hfirst'.natOfBytes_sub
      simp only [Option.map_some, Option.elim]
      rw [bytesLe_iff (haddLength.trans hsubLength.symm), hlistable.int_eq, hfirst'.int_eq]
      omega

/-- The last word is no bound of a reachable place. -/
theorem getLast?_ne_maxWord (hafter : ∀ w ∈ after, Listable w)
    (hsorted : ∀ a ∈ before, ∀ b ∈ after, natOfBytes a < natOfBytes b)
    (h : reachable before after = true) : before.getLast? ≠ some maxWord := by
  intro hlast
  rw [reachable, hlast] at h
  cases hfirst : after.head? with
  | none =>
    rw [hfirst] at h
    simp at h
  | some first =>
    have hmem := List.mem_of_head? hfirst
    have hlt := hsorted maxWord (List.mem_of_getLast? hlast) first hmem
    have hhigh := (hafter first hmem).high
    rw [natOfBytes_maxWord] at hlt
    omega

end Bounds

/-! Both lookups come to the place of the word. -/

/-- A tree holds its words in order, whatever its shape, with the signatures between them. -/
theorem buildSignedDictTree_induction {sigs : List Bytes} {motive : List Bytes → ℕ → Clvm → Prop}
    (leaf : ∀ gapOffset, motive [] gapOffset (.atom (sigs.getD gapOffset [])))
    (node : ∀ before word after gapOffset left right, motive before gapOffset left →
      motive after (gapOffset + before.length + 1) right →
        motive (before ++ word :: after) gapOffset (.list [left, right, .atom word]))
    (words : List Bytes) : motive words 0 (buildSignedDictTree words sigs) := by
  have hinner : ∀ fuel (words : List Bytes) gapOffset, words.length ≤ fuel →
      motive words gapOffset (buildSignedDictTreeInner fuel words sigs gapOffset) := by
    intro fuel
    induction fuel with
    | zero =>
      intro words gapOffset hfuel
      rw [List.length_eq_zero_iff.mp (Nat.le_zero.mp hfuel)]
      exact leaf gapOffset
    | succ fuel ih =>
      intro words gapOffset hfuel
      rw [buildSignedDictTreeInner]
      by_cases hwords : words = []
      · rw [if_pos hwords, hwords]
        exact leaf gapOffset
      · rw [if_neg hwords]
        have hpos := List.length_pos_iff.mpr hwords
        have hmid : words.length / 2 < words.length := Nat.div_lt_self hpos (by decide)
        have hlength : (words.take (words.length / 2)).length = words.length / 2 := by
          rw [List.length_take]
          exact Nat.min_eq_left hmid.le
        have hsplit : words = words.take (words.length / 2) ++
            words.getD (words.length / 2) [] :: words.drop (words.length / 2 + 1) := by
          rw [List.getD_eq_getElem?_getD, List.getElem?_eq_getElem hmid, Option.getD_some,
            ← List.drop_eq_getElem_cons hmid, List.take_append_drop]
        have hleft := ih (words.take (words.length / 2)) gapOffset (by omega)
        have hright := ih (words.drop (words.length / 2 + 1)) (gapOffset + words.length / 2 + 1) (by
          rw [List.length_drop]
          omega)
        have hnode := node (words.take (words.length / 2)) (words.getD (words.length / 2) [])
          (words.drop (words.length / 2 + 1)) gapOffset _ _ hleft (by rw [hlength]; exact hright)
        rw [← hsplit] at hnode
        exact hnode
  exact hinner words.length words 0 le_rfl

/-- The words before a place have smaller keys, those after it larger ones. -/
structure Split (key : Bytes → ℤ) (words : List Bytes) (x : ℤ) (before after : List Bytes) : Prop where
  eq : words = before ++ after
  below : ∀ w ∈ before, key w < x
  above : ∀ w ∈ after, x < key w

section Split

variable {key : Bytes → ℤ} {before after : List Bytes} {word : Bytes} {x : ℤ}

theorem Split.right {before' after' : List Bytes}
    (hsorted : (before ++ word :: after).Pairwise fun a b => key a < key b) (hx : key word < x)
    (h : Split key after x before' after') :
    Split key (before ++ word :: after) x (before ++ word :: before') after' := by
  obtain ⟨-, -, hacross⟩ := List.pairwise_append.mp hsorted
  refine ⟨by rw [h.eq, List.append_assoc, List.cons_append], fun w hw => ?_, h.above⟩
  rcases List.mem_append.mp hw with hw | hw
  · exact (hacross w hw word List.mem_cons_self).trans hx
  · rcases List.mem_cons.mp hw with rfl | hw
    · exact hx
    · exact h.below w hw

theorem Split.left {before' after' : List Bytes}
    (hsorted : (before ++ word :: after).Pairwise fun a b => key a < key b) (hx : x < key word)
    (h : Split key before x before' after') :
    Split key (before ++ word :: after) x before' (after' ++ word :: after) := by
  obtain ⟨-, hafter, -⟩ := List.pairwise_append.mp hsorted
  refine ⟨by rw [h.eq, List.append_assoc], h.below, fun w hw => ?_⟩
  rcases List.mem_append.mp hw with hw | hw
  · exact h.above w hw
  · rcases List.mem_cons.mp hw with rfl | hw
    · exact hx
    · exact hx.trans ((List.pairwise_cons.mp hafter).1 w hw)

theorem Split.before_eq {words : List Bytes} (h : Split key words x before after) :
    before = words.filter fun w => decide (key w < x) := by
  rw [h.eq, List.filter_append, List.filter_eq_self.mpr fun w hw => decide_eq_true (h.below w hw),
    List.filter_eq_nil_iff.mpr fun w hw => ?_, List.append_nil]
  simpa using (h.above w hw).le

end Split

section Lookup

variable (d : Dictionary) (sigs : List Bytes)

/-- The lookup in the handlers gives the bounds of the place and the signature there. -/
theorem dictLookup_eq (w : Word) (tree : Clvm) (htree : tree = buildSignedDictTree d.words sigs) :
    (w.bytes ∈ d.words → dictLookup minWord maxWord w.bytes tree = some .nil) ∧
      (w.bytes ∉ d.words → ∃ before after, Split intOfBytes d.words (intOfBytes w.bytes) before after ∧
        dictLookup minWord maxWord w.bytes tree = some (.list [.atom (lowBound before),
          .atom (highBound after), .atom (sigs.getD before.length [])])) := by
  have hall : ∀ left right, (∀ v ∈ d.words, Listable v) →
      d.words.Pairwise (fun a b => intOfBytes a < intOfBytes b) →
      (w.bytes ∈ d.words → dictLookup left right w.bytes tree = some .nil) ∧
        (w.bytes ∉ d.words → ∃ before after, Split intOfBytes d.words (intOfBytes w.bytes) before after ∧
          dictLookup left right w.bytes tree = some (.list
            [.atom (before.getLast?.elim left wordAddOne), .atom (after.head?.elim right wordSubOne),
              .atom (sigs.getD (0 + before.length) [])])) := by
    rw [htree]
    refine buildSignedDictTree_induction (motive := fun words gapOffset tree => ∀ left right,
      (∀ v ∈ words, Listable v) → words.Pairwise (fun a b => intOfBytes a < intOfBytes b) →
      (w.bytes ∈ words → dictLookup left right w.bytes tree = some .nil) ∧
        (w.bytes ∉ words → ∃ before after, Split intOfBytes words (intOfBytes w.bytes) before after ∧
          dictLookup left right w.bytes tree = some (.list
            [.atom (before.getLast?.elim left wordAddOne), .atom (after.head?.elim right wordSubOne),
              .atom (sigs.getD (gapOffset + before.length) [])]))) ?_ ?_ d.words
    · intro gapOffset left right _ _
      exact ⟨fun h => (List.not_mem_nil h).elim,
        fun _ => ⟨[], [], ⟨rfl, by simp, by simp⟩, rfl⟩⟩
    · intro before word after gapOffset leftTree rightTree ihleft ihright left right hlistable hsorted
      have hword := hlistable word (List.mem_append_right _ List.mem_cons_self)
      obtain ⟨hbefore, hrest, hacross⟩ := List.pairwise_append.mp hsorted
      obtain ⟨hfirst, hafter⟩ := List.pairwise_cons.mp hrest
      by_cases heq : w.bytes = word
      · refine ⟨fun _ => ?_, fun hnot => ?_⟩
        · rw [Clvm.list_cons, Clvm.list_cons, Clvm.list_cons, dictLookup, if_pos heq]
        · exact (hnot (heq ▸ List.mem_append_right _ List.mem_cons_self)).elim
      · by_cases hgt : intOfBytes w.bytes > intOfBytes word
        · -- to the right, where no word is the greatest of all
          have hmax : word ≠ maxWord := by
            rintro rfl
            exact absurd (w.bounds.2) (not_le.mpr hgt)
          have hmem : w.bytes ∈ before ++ word :: after ↔ w.bytes ∈ after := by
            rw [List.mem_append, List.mem_cons, or_iff_right, or_iff_right heq]
            intro hin
            exact lt_asymm hgt (hacross _ hin word List.mem_cons_self)
          obtain ⟨hin, hout⟩ := ihright (wordAddOne word) right
            (fun v hv => hlistable v (List.mem_append_right _ (List.mem_cons_of_mem _ hv))) hafter
          rw [hmem, Clvm.list_cons, Clvm.list_cons, Clvm.list_cons, dictLookup, if_neg heq, if_pos hgt,
            hword.bytesOfInt_add hmax]
          refine ⟨hin, fun hnot => ?_⟩
          obtain ⟨before', after', hsplit, hlookup⟩ := hout hnot
          refine ⟨before ++ word :: before', after', hsplit.right hsorted hgt, ?_⟩
          rw [hlookup]
          have hoffset : gapOffset + before.length + 1 + before'.length =
              gapOffset + (before ++ word :: before').length := by
            rw [List.length_append, List.length_cons]
            omega
          rw [hoffset, List.getLast?_append, List.getLast?_cons]
          cases before'.getLast? <;> rfl
        · have hlt : intOfBytes w.bytes < intOfBytes word := by
            refine lt_of_le_of_ne (not_lt.mp hgt) fun hint => heq ?_
            have hnonneg : 0 ≤ intOfBytes w.bytes := by
              rw [hint, hword.int_eq]
              exact Int.natCast_nonneg _
            rw [intOfBytes_of_nonneg hnonneg, hword.int_eq, Nat.cast_inj] at hint
            exact natOfBytes_inj (w.five.trans hword.five.symm) hint
          have hmem : w.bytes ∈ before ++ word :: after ↔ w.bytes ∈ before := by
            rw [List.mem_append, List.mem_cons, or_iff_left]
            rintro (hin | hin)
            · exact heq hin
            · exact lt_asymm hlt (hfirst _ hin)
          obtain ⟨hin, hout⟩ := ihleft left (wordSubOne word)
            (fun v hv => hlistable v (List.mem_append_left _ hv)) hbefore
          rw [hmem, Clvm.list_cons, Clvm.list_cons, Clvm.list_cons, dictLookup, if_neg heq, if_neg hgt,
            hword.bytesOfInt_sub]
          refine ⟨hin, fun hnot => ?_⟩
          obtain ⟨before', after', hsplit, hlookup⟩ := hout hnot
          refine ⟨before', after' ++ word :: after, hsplit.left hsorted hlt, ?_⟩
          rw [hlookup, List.head?_append]
          cases after'.head? <;> rfl
  have hsorted : d.words.Pairwise fun a b => intOfBytes a < intOfBytes b :=
    List.pairwise_map.mp d.keys_sorted
  have h := hall minWord maxWord (fun v hv => d.listable hv) hsorted
  simp only [Nat.zero_add] at h
  exact h

variable {S : Type} (fromBytes : Bytes → Option S)

/-- The signature at a leaf. -/
def leafSignature (sig : Bytes) : Option S := if sig.length = 96 then fromBytes sig else none

/-- The lookup for a slash; the words are compared byte by byte. -/
def lookupGapSignature (word : Bytes) : Clvm → Option S
  | .atom sig => leafSignature fromBytes sig
  | .pair left (.pair right (.pair (.atom wordHere) _)) =>
    if wordHere = word then none
    else if bytesLe word wordHere = false then lookupGapSignature word right
    else lookupGapSignature word left
  | .pair _ _ => none

theorem lookupGapSignature_eq (w : Word) (tree : Clvm) (htree : tree = buildSignedDictTree d.words sigs) :
    (w.bytes ∈ d.words → lookupGapSignature fromBytes w.bytes tree = none) ∧
      (w.bytes ∉ d.words → ∃ before after,
        Split (fun v => natOfBytes v) d.words (natOfBytes w.bytes) before after ∧
          lookupGapSignature fromBytes w.bytes tree =
            leafSignature fromBytes (sigs.getD before.length [])) := by
  have hall : (∀ v ∈ d.words, Listable v) →
      d.words.Pairwise (fun a b => (natOfBytes a : ℤ) < natOfBytes b) →
      (w.bytes ∈ d.words → lookupGapSignature fromBytes w.bytes tree = none) ∧
        (w.bytes ∉ d.words → ∃ before after,
          Split (fun v => natOfBytes v) d.words (natOfBytes w.bytes) before after ∧
            lookupGapSignature fromBytes w.bytes tree =
              leafSignature fromBytes (sigs.getD (0 + before.length) [])) := by
    rw [htree]
    refine buildSignedDictTree_induction (motive := fun words gapOffset tree =>
      (∀ v ∈ words, Listable v) → words.Pairwise (fun a b => (natOfBytes a : ℤ) < natOfBytes b) →
      (w.bytes ∈ words → lookupGapSignature fromBytes w.bytes tree = none) ∧
        (w.bytes ∉ words → ∃ before after,
          Split (fun v => natOfBytes v) words (natOfBytes w.bytes) before after ∧
            lookupGapSignature fromBytes w.bytes tree =
              leafSignature fromBytes (sigs.getD (gapOffset + before.length) []))) ?_ ?_ d.words
    · intro gapOffset _ _
      exact ⟨fun h => (List.not_mem_nil h).elim,
        fun _ => ⟨[], [], ⟨rfl, by simp, by simp⟩, rfl⟩⟩
    · intro before word after gapOffset leftTree rightTree ihleft ihright hlistable hsorted
      have hword := hlistable word (List.mem_append_right _ List.mem_cons_self)
      obtain ⟨hbefore, hrest, hacross⟩ := List.pairwise_append.mp hsorted
      obtain ⟨hfirst, hafter⟩ := List.pairwise_cons.mp hrest
      have hle : bytesLe w.bytes word = true ↔ natOfBytes w.bytes ≤ natOfBytes word :=
        bytesLe_iff (w.five.trans hword.five.symm)
      by_cases heq : word = w.bytes
      · refine ⟨fun _ => ?_, fun hnot => ?_⟩
        · rw [Clvm.list_cons, Clvm.list_cons, Clvm.list_cons, lookupGapSignature, if_pos heq]
        · exact (hnot (heq ▸ List.mem_append_right _ List.mem_cons_self)).elim
      · by_cases hgt : bytesLe w.bytes word = false
        · have hlt : (natOfBytes word : ℤ) < natOfBytes w.bytes := by
            rw [← Bool.not_eq_true, hle, not_le] at hgt
            exact_mod_cast hgt
          have hmem : w.bytes ∈ before ++ word :: after ↔ w.bytes ∈ after := by
            rw [List.mem_append, List.mem_cons, or_iff_right, or_iff_right (Ne.symm heq)]
            intro hin
            exact lt_asymm hlt (hacross _ hin word List.mem_cons_self)
          obtain ⟨hin, hout⟩ := ihright
            (fun v hv => hlistable v (List.mem_append_right _ (List.mem_cons_of_mem _ hv))) hafter
          rw [hmem, Clvm.list_cons, Clvm.list_cons, Clvm.list_cons, lookupGapSignature, if_neg heq,
            if_pos hgt]
          refine ⟨hin, fun hnot => ?_⟩
          obtain ⟨before', after', hsplit, hlookup⟩ := hout hnot
          refine ⟨before ++ word :: before', after', hsplit.right hsorted hlt, ?_⟩
          have hoffset : gapOffset + before.length + 1 + before'.length =
              gapOffset + (before ++ word :: before').length := by
            rw [List.length_append, List.length_cons]
            omega
          rw [hlookup, hoffset]
        · have hlt : (natOfBytes w.bytes : ℤ) < natOfBytes word := by
            rw [Bool.not_eq_false, hle] at hgt
            have hne : natOfBytes w.bytes ≠ natOfBytes word := fun h =>
              heq (natOfBytes_inj (w.five.trans hword.five.symm) h).symm
            exact_mod_cast lt_of_le_of_ne hgt hne
          have hmem : w.bytes ∈ before ++ word :: after ↔ w.bytes ∈ before := by
            rw [List.mem_append, List.mem_cons, or_iff_left]
            rintro (hin | hin)
            · exact heq hin.symm
            · exact lt_asymm hlt (hfirst _ hin)
          obtain ⟨hin, hout⟩ := ihleft (fun v hv => hlistable v (List.mem_append_left _ hv)) hbefore
          rw [hmem, Clvm.list_cons, Clvm.list_cons, Clvm.list_cons, lookupGapSignature, if_neg heq,
            if_neg hgt]
          refine ⟨hin, fun hnot => ?_⟩
          obtain ⟨before', after', hsplit, hlookup⟩ := hout hnot
          exact ⟨before', after' ++ word :: after, hsplit.left hsorted hlt, hlookup⟩
  have hsorted : d.words.Pairwise fun a b => (natOfBytes a : ℤ) < natOfBytes b :=
    d.sorted.imp fun h => by exact_mod_cast h
  have h := hall (fun v hv => d.listable hv) hsorted
  simp only [Nat.zero_add] at h
  exact h

end Lookup

/-- Signatures and their strings of 96 bytes; one of them stands where no signature is needed. -/
structure SignatureCoding (S : Type) where
  toBytes : S → Bytes
  fromBytes : Bytes → Option S
  default : S
  other : S
  length_toBytes : ∀ s, (toBytes s).length = 96
  fromBytes_toBytes : ∀ s, fromBytes (toBytes s) = some s
  other_ne : other ≠ default

/-- The tree that is made of a dictionary and the signatures of its gap evidence. -/
def signedDictTree {S : Type} (C : SignatureCoding S) (words : List Bytes) (sign : Bytes → S) :
    Option Clvm := do
  let sigs ← expandSignaturesForTree C.default words ((generateGapEvidence words).map sign)
  some (buildSignedDictTree words (sigs.map C.toBytes))

section Exact

variable {S : Type} (C : SignatureCoding S) (d : Dictionary) (sign : Bytes → S)

/-- The evidence is that of the gaps, each once. -/
structure ExactEvidence : Prop where
  gaps : ∀ g, g ∈ generateGapEvidence d.words ↔ ∃ low high : Word, g = low.bytes ++ high.bytes ∧
    d.IsGap (intOfBytes low.bytes) (intOfBytes high.bytes)
  once : (generateGapEvidence d.words).Nodup

/-- A word is found, or the gap that it lies in with the signature of the gap. -/
structure Finds (tree : Clvm) (w : Word) : Prop where
  listed : w.bytes ∈ d.words → dictLookup minWord maxWord w.bytes tree = some .nil
  absent : w.bytes ∉ d.words → ∃ low high : Word,
    d.IsGap (intOfBytes low.bytes) (intOfBytes high.bytes) ∧
    intOfBytes low.bytes ≤ intOfBytes w.bytes ∧ intOfBytes w.bytes ≤ intOfBytes high.bytes ∧
    dictLookup minWord maxWord w.bytes tree = some (.list [.atom low.bytes, .atom high.bytes,
      .atom (C.toBytes (sign (low.bytes ++ high.bytes)))])

/-- The lookup for a slash gives the signature of the gap that the lookup in the handlers gave. -/
structure Mirrors (tree : Clvm) (w : Word) : Prop where
  listed : dictLookup minWord maxWord w.bytes tree = some .nil →
    lookupGapSignature C.fromBytes w.bytes tree = none
  absent : ∀ low high sig,
    dictLookup minWord maxWord w.bytes tree = some (.list [.atom low, .atom high, sig]) →
      lookupGapSignature C.fromBytes w.bytes tree = some (sign (low ++ high))

/-- The evidence, the tree with its signatures and the lookup in it are exact, and so is the lookup of
this word for a slash. -/
def Exact (w : Word) : Prop := ExactEvidence d ∧ ∃ tree, signedDictTree C d.words sign = some tree ∧
  (∀ v, Finds C d sign tree v) ∧ Mirrors C sign tree w

variable {d}

/-- The words before and after a place. -/
theorem Dictionary.place {before after : List Bytes} (h : d.words = before ++ after) :
    (∀ w ∈ before, Listable w) ∧ (∀ w ∈ after, Listable w) ∧
      ∀ a ∈ before, ∀ b ∈ after, natOfBytes a < natOfBytes b := by
  refine ⟨fun w hw => d.listable ?_, fun w hw => d.listable ?_, ?_⟩
  · rw [h]
    exact List.mem_append_left _ hw
  · rw [h]
    exact List.mem_append_right _ hw
  · exact (List.pairwise_append.mp (h ▸ d.sorted)).2.2

/-- A reachable place is a gap. -/
theorem Dictionary.isGap_of_reachable {before after : List Bytes} (h : d.words = before ++ after)
    (hreach : reachable before after = true) : ∃ low high : Word, low.bytes = lowBound before ∧
      high.bytes = highBound after ∧ d.IsGap (intOfBytes low.bytes) (intOfBytes high.bytes) := by
  obtain ⟨hbefore, hafter, hsorted⟩ := d.place h
  obtain ⟨hlowLength, hlow⟩ := int_lowBound hbefore (getLast?_ne_maxWord hafter hsorted hreach)
  obtain ⟨hhighLength, hhigh⟩ := int_highBound hafter
  refine ⟨⟨_, hlowLength⟩, ⟨_, hhighLength⟩, rfl, rfl, ?_⟩
  refine (Gaps.isGap_iff d.keys_sorted d.keys_bounds).mpr
    ⟨before.map intOfBytes, after.map intOfBytes, ?_, hlow, hhigh, ?_⟩
  · rw [Dictionary.keys, h, List.map_append]
  · dsimp only
    rw [hlow, hhigh]
    exact (reachable_iff hbefore hafter hsorted).mp hreach

/-- The place of a word that is not listed is reachable. -/
theorem Dictionary.reachable_of_split {w : Word} {before after : List Bytes}
    (h : Split intOfBytes d.words (intOfBytes w.bytes) before after) :
    reachable before after = true ∧ ∃ low high : Word, low.bytes = lowBound before ∧
      high.bytes = highBound after ∧ d.IsGap (intOfBytes low.bytes) (intOfBytes high.bytes) ∧
      intOfBytes low.bytes ≤ intOfBytes w.bytes ∧ intOfBytes w.bytes ≤ intOfBytes high.bytes := by
  obtain ⟨hbefore, hafter, hsorted⟩ := d.place h.eq
  obtain ⟨hmin, hmax⟩ := w.bounds
  have hlowEnd : Gaps.lowEnd (intOfBytes minWord) (before.map intOfBytes) ≤ intOfBytes w.bytes := by
    refine Gaps.lowEnd_le hmin fun k hk => ?_
    obtain ⟨v, hv, rfl⟩ := List.mem_map.mp hk
    exact h.below v hv
  have hhighEnd : intOfBytes w.bytes ≤ Gaps.highEnd (intOfBytes maxWord) (after.map intOfBytes) := by
    refine Gaps.le_highEnd hmax fun k hk => ?_
    obtain ⟨v, hv, rfl⟩ := List.mem_map.mp hk
    exact h.above v hv
  have hreach := (reachable_iff hbefore hafter hsorted).mpr (hlowEnd.trans hhighEnd)
  obtain ⟨low, high, hlow, hhigh, hgap⟩ := d.isGap_of_reachable h.eq hreach
  refine ⟨hreach, low, high, hlow, hhigh, hgap, ?_, ?_⟩
  · rw [hlow, (int_lowBound hbefore (getLast?_ne_maxWord hafter hsorted hreach)).2]
    exact hlowEnd
  · rw [hhigh, (int_highBound hafter).2]
    exact hhighEnd

theorem exactEvidence : ExactEvidence d := by
  refine ⟨fun g => ?_, ?_⟩
  · rw [generateGapEvidence_eq]
    constructor
    · intro hg
      obtain ⟨k, hk, rfl⟩ := List.mem_map.mp hg
      obtain ⟨low, high, hlow, hhigh, hgap⟩ :=
        d.isGap_of_reachable (List.take_append_drop k d.words).symm (List.mem_filter.mp hk).2
      exact ⟨low, high, by rw [hlow, hhigh], hgap⟩
    · rintro ⟨low, high, rfl, hgap⟩
      obtain ⟨before, after, hkeys, hlow, hhigh, hle⟩ :=
        (Gaps.isGap_iff d.keys_sorted d.keys_bounds).mp hgap
      obtain ⟨before, after, hwords, rfl, rfl⟩ := List.map_eq_append_iff.mp hkeys
      obtain ⟨hbefore, hafter, hsorted⟩ := d.place hwords
      have hreach := (reachable_iff hbefore hafter hsorted).mpr (hlow ▸ hhigh ▸ hle)
      obtain ⟨hlowLength, hlowInt⟩ := int_lowBound hbefore (getLast?_ne_maxWord hafter hsorted hreach)
      obtain ⟨hhighLength, hhighInt⟩ := int_highBound hafter
      have htake : d.words.take before.length = before := by
        rw [hwords]
        exact List.take_left
      have hdrop : d.words.drop before.length = after := by
        rw [hwords]
        exact List.drop_left
      refine List.mem_map.mpr ⟨before.length, List.mem_filter.mpr ⟨?_, ?_⟩, ?_⟩
      · rw [List.mem_range, hwords, List.length_append]
        omega
      · rw [htake, hdrop]
        exact hreach
      · rw [htake, hdrop]
        rw [← hlowInt] at hlow
        rw [← hhighInt] at hhigh
        rw [Word.eq_of_int (w := low) hlowLength hlow, Word.eq_of_int (w := high) hhighLength hhigh]
  · rw [generateGapEvidence_eq, List.Nodup, List.pairwise_map]
    refine (List.pairwise_lt_range.filter _).imp_of_mem fun {k k'} hk hk' hlt heq => ?_
    obtain ⟨hk, hreach⟩ := List.mem_filter.mp hk
    obtain ⟨hk', hreach'⟩ := List.mem_filter.mp hk'
    obtain ⟨hbefore, hafter, hsorted⟩ := d.place (List.take_append_drop k d.words).symm
    obtain ⟨hbefore', hafter', hsorted'⟩ := d.place (List.take_append_drop k' d.words).symm
    obtain ⟨hlength, hint⟩ := int_lowBound hbefore (getLast?_ne_maxWord hafter hsorted hreach)
    obtain ⟨hlength', hint'⟩ := int_lowBound hbefore' (getLast?_ne_maxWord hafter' hsorted' hreach')
    have hlow := (List.append_inj heq (hlength.trans hlength'.symm)).1
    have hroom := (reachable_iff hbefore hafter hsorted).mp hreach
    rw [← hint, hlow, hint'] at hroom
    -- the word after the one place comes before the other
    have hin : k < d.words.length := by
      have := List.mem_range.mp hk'
      omega
    have hword : d.words[k] ∈ d.words.drop k := by
      rw [List.drop_eq_getElem_cons hin]
      exact List.mem_cons_self
    have hword' : d.words[k] ∈ d.words.take k' := List.mem_take_iff_getElem.mpr
      ⟨k, lt_min hlt hin, rfl⟩
    have hints := List.pairwise_map.mp d.keys_sorted
    have hhigh := @Gaps.highEnd_lt (intOfBytes maxWord) _
      (List.pairwise_map.mpr (hints.drop (i := k))) _ (List.mem_map_of_mem hword)
    have hlow' := @Gaps.lt_lowEnd (intOfBytes minWord) _
      (List.pairwise_map.mpr (hints.take (i := k'))) _ (List.mem_map_of_mem hword')
    omega

/-- The signature at a place is that of the gap, if it is reachable. -/
theorem signedDictTree_eq : ∃ sigs, signedDictTree C d.words sign = some (buildSignedDictTree d.words sigs) ∧
    ∀ before after, d.words = before ++ after → sigs.getD before.length [] =
      C.toBytes (if reachable before after then sign (lowBound before ++ highBound after)
        else C.default) := by
  let sigAt := fun k => if reachable (d.words.take k) (d.words.drop k) then
    sign (lowBound (d.words.take k) ++ highBound (d.words.drop k)) else C.default
  have hexpand := expandSignatures_map C.default (List.range (d.words.length + 1))
    (fun k => reachable (d.words.take k) (d.words.drop k))
    (fun k => sign (lowBound (d.words.take k) ++ highBound (d.words.drop k)))
  have hgaps : ((List.range (d.words.length + 1)).filter fun k =>
      reachable (d.words.take k) (d.words.drop k)).map
        (fun k => sign (lowBound (d.words.take k) ++ highBound (d.words.drop k))) =
      (generateGapEvidence d.words).map sign := by
    rw [generateGapEvidence_eq, List.map_map]
    rfl
  rw [hgaps, ← reachableGapMask_eq] at hexpand
  refine ⟨((List.range (d.words.length + 1)).map sigAt).map C.toBytes, ?_, fun before after h => ?_⟩
  · rw [signedDictTree, expandSignaturesForTree, hexpand]
    rfl
  have hin : before.length < d.words.length + 1 := by
    rw [h, List.length_append]
    omega
  rw [List.getD_eq_getElem?_getD, List.getElem?_map, List.getElem?_map, List.getElem?_range hin]
  simp only [Option.map_some, Option.getD_some, sigAt]
  rw [h, List.take_left, List.drop_left]

theorem leafSignature_toBytes (s : S) : leafSignature C.fromBytes (C.toBytes s) = some s := by
  rw [leafSignature, if_pos (C.length_toBytes s), C.fromBytes_toBytes]

/-- Among the words that are not negative both lookups come to one place. -/
theorem Split.same_place {w : Word} (hnonneg : 0 ≤ intOfBytes w.bytes) {before after before' after' : List Bytes}
    (h : Split intOfBytes d.words (intOfBytes w.bytes) before after)
    (h' : Split (fun v => natOfBytes v) d.words (natOfBytes w.bytes) before' after') :
    before = before' := by
  rw [h.before_eq, h'.before_eq, intOfBytes_of_nonneg hnonneg]
  refine List.filter_congr fun v hv => ?_
  rw [(d.listable hv).int_eq]

/-- A negative word comes before all words as a number, and after all of them byte by byte. -/
theorem Split.of_neg {w : Word} (hneg : intOfBytes w.bytes < 0) {before after before' after' : List Bytes}
    (h : Split intOfBytes d.words (intOfBytes w.bytes) before after)
    (h' : Split (fun v => natOfBytes v) d.words (natOfBytes w.bytes) before' after') :
    before = [] ∧ before' = d.words := by
  have hbig : 128 * 256 ^ 4 ≤ natOfBytes w.bytes := by
    by_contra hsmall
    rw [intOfBytes_eq_of_lt (by rw [w.five]; omega)] at hneg
    omega
  rw [h.before_eq, h'.before_eq, List.filter_eq_nil_iff, List.filter_eq_self]
  refine ⟨fun v hv => ?_, fun v hv => ?_⟩
  · rw [decide_eq_true_eq, (d.listable hv).int_eq]
    omega
  · have := (d.listable hv).high
    rw [decide_eq_true_eq]
    omega

theorem finds_of_sigs {sigs : List Bytes} (hsigs : ∀ before after, d.words = before ++ after →
    sigs.getD before.length [] = C.toBytes (if reachable before after then
      sign (lowBound before ++ highBound after) else C.default)) (v : Word) :
    Finds C d sign (buildSignedDictTree d.words sigs) v := by
  obtain ⟨hlisted, habsent⟩ := dictLookup_eq d sigs v _ rfl
  refine ⟨hlisted, fun hnot => ?_⟩
  obtain ⟨before, after, hsplit, hlookup⟩ := habsent hnot
  obtain ⟨hreach, low, high, hlow, hhigh, hgap, hle, hge⟩ := Dictionary.reachable_of_split hsplit
  refine ⟨low, high, hgap, hle, hge, ?_⟩
  rw [hlookup, hsigs before after hsplit.eq, if_pos hreach, hlow, hhigh]

/-- A negative word lies in the first gap, and is looked up in the last. -/
theorem not_exact_of_neg {w : Word} (hne : d.words ≠ []) (hneg : intOfBytes w.bytes < 0) :
    ¬ ∀ sign, Exact C d sign w := by
  intro h
  have habsent : w.bytes ∉ d.words := by
    intro hw
    rw [(d.listable hw).int_eq] at hneg
    omega
  -- only the first gap is given a signature of its own
  let sign : Bytes → S := fun g => if g = lowBound [] ++ highBound d.words then C.other else C.default
  obtain ⟨-, tree, htree, -, hmirrors⟩ := h sign
  obtain ⟨sigs, hsigned, hsigs⟩ := signedDictTree_eq C sign (d := d)
  rw [hsigned, Option.some.injEq] at htree
  obtain ⟨before, after, hsplit, hlookup⟩ := (dictLookup_eq d sigs w tree htree.symm).2 habsent
  obtain ⟨before', after', hsplit', hlookup'⟩ :=
    (lookupGapSignature_eq d sigs C.fromBytes w tree htree.symm).2 habsent
  obtain ⟨rfl, hall⟩ := hsplit.of_neg hneg hsplit'
  have hwords : d.words = after := hsplit.eq
  have hafter' : after' = [] := by
    have hlength := congrArg List.length hsplit'.eq
    rw [List.length_append, hall] at hlength
    exact List.length_eq_zero_iff.mp (by omega)
  have hmirror := hmirrors.absent _ _ _ hlookup
  rw [hlookup', hsigs before' after' hsplit'.eq, leafSignature_toBytes, Option.some.injEq] at hmirror
  have hfirst : sign (lowBound [] ++ highBound after) = C.other := by
    rw [← hwords]
    exact if_pos rfl
  have hlast : ∀ g, g ≠ lowBound [] ++ highBound d.words → sign g = C.default := fun g hg => if_neg hg
  rw [hfirst] at hmirror
  split_ifs at hmirror with hreach
  · -- the last gap begins above the words, the first one below them
    refine C.other_ne (hmirror.symm.trans (hlast _ fun heq => ?_))
    obtain ⟨hbefore, hafter, hsorted⟩ := Dictionary.place hsplit'.eq
    obtain ⟨hlength, hint⟩ := int_lowBound hbefore (getLast?_ne_maxWord hafter hsorted hreach)
    have hbound := (List.append_inj heq (hlength.trans rfl)).1
    rw [hbound, hall] at hint
    have hmin : intOfBytes (lowBound []) = intOfBytes minWord := rfl
    obtain ⟨first, rest, hcons⟩ := List.exists_cons_of_ne_nil hne
    have hmem : first ∈ d.words := hcons ▸ List.mem_cons_self
    have hlt := @Gaps.lt_lowEnd (intOfBytes minWord) _ d.keys_sorted _
      (List.mem_map_of_mem hmem)
    have hge := (d.keys_bounds _ (List.mem_map_of_mem hmem)).1
    rw [hmin] at hint
    rw [Dictionary.keys] at hlt
    omega
  · exact C.other_ne hmirror.symm

theorem exact_of_nonneg {w : Word} (h : d.words = [] ∨ 0 ≤ intOfBytes w.bytes) : Exact C d sign w := by
  obtain ⟨sigs, hsigned, hsigs⟩ := signedDictTree_eq C sign (d := d)
  refine ⟨exactEvidence, _, hsigned, finds_of_sigs C sign hsigs, ?_, fun low high sig hlookup => ?_⟩
  · intro hnil
    by_contra hsome
    have habsent : w.bytes ∉ d.words := fun hw =>
      hsome ((lookupGapSignature_eq d sigs C.fromBytes w _ rfl).1 hw)
    obtain ⟨before, after, -, hlookup⟩ := (dictLookup_eq d sigs w _ rfl).2 habsent
    rw [hlookup] at hnil
    cases hnil
  · have habsent : w.bytes ∉ d.words := by
      intro hw
      rw [(dictLookup_eq d sigs w _ rfl).1 hw] at hlookup
      cases hlookup
    obtain ⟨before, after, hsplit, hfound⟩ := (dictLookup_eq d sigs w _ rfl).2 habsent
    obtain ⟨before', after', hsplit', hfound'⟩ :=
      (lookupGapSignature_eq d sigs C.fromBytes w _ rfl).2 habsent
    obtain ⟨hreach, -⟩ := Dictionary.reachable_of_split hsplit
    have hplace : before = before' := by
      rcases h with hempty | hnonneg
      · have hnil := hsplit.eq.symm.trans hempty
        have hnil' := hsplit'.eq.symm.trans hempty
        rw [(List.append_eq_nil_iff.mp hnil).1, (List.append_eq_nil_iff.mp hnil').1]
      · exact hsplit.same_place hnonneg hsplit'
    rw [hfound, Option.some.injEq, Clvm.list_injective.eq_iff] at hlookup
    injection hlookup with hlow hlookup
    injection hlookup with hhigh hlookup
    injection hlow with hlow
    injection hhigh with hhigh
    rw [hfound', ← hplace, hsigs before after hsplit.eq, if_pos hreach, leafSignature_toBytes, hlow, hhigh]


/-- Everything is exact, whatever the signatures, but the lookup for a slash of a word with a leading
byte from 0x80 on, unless the dictionary is empty. -/
theorem exact_iff (d : Dictionary) (w : Word) :
    (∀ sign, Exact C d sign w) ↔ d.words = [] ∨ 0 ≤ intOfBytes w.bytes := by
  constructor
  · intro h
    by_contra hnot
    rw [not_or, not_le] at hnot
    exact not_exact_of_neg C hnot.1 hnot.2 h
  · exact fun h sign => exact_of_nonneg C sign h

end Exact

namespace TwoWords

theorem words_sorted : [crane, slate].Pairwise fun a b => natOfBytes a < natOfBytes b := by decide

theorem words_five : ∀ w ∈ [crane, slate], w.length = 5 := by decide

def dictionary : Dictionary where
  words := [crane, slate]
  sorted := words_sorted
  five := words_five
  leading := by
    intro w hw
    rcases List.mem_pair.mp hw with rfl | rfl
    · exact ⟨67, _, rfl, by decide, by decide⟩
    · exact ⟨83, _, rfl, by decide, by decide⟩

/-- The point at infinity and strings of its length. -/
def coding : SignatureCoding {b : Bytes // b.length = 96} where
  toBytes := Subtype.val
  fromBytes b := if h : b.length = 96 then some ⟨b, h⟩ else none
  default := ⟨0xc0 :: List.replicate 95 0, by decide⟩
  other := ⟨0x93 :: List.replicate 95 0, by decide⟩
  length_toBytes s := s.2
  fromBytes_toBytes s := dif_pos s.2
  other_ne := by decide

/-- The least of the words is not in the gap whose signature the slash would show. -/
theorem least_word_misplaced : ¬ ∀ sign, Exact coding dictionary sign ⟨minWord, rfl⟩ :=
  not_exact_of_neg coding (by decide) (by decide)

end TwoWords

end Krunk

end ChiaGaming
