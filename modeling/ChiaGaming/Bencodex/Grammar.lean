import ChiaGaming.Bencodex.De
import ChiaGaming.Lib.Readings

namespace ChiaGaming

/-! What the decoder of messages reads, as a reading of tokens. -/

namespace Bencodex

open Bencode (Value Lexicon Mirror Mirrors)

def integerToken (digits : Bytes) : Option ℤ :=
  if validUtf8 digits then
    if [45, 48].isPrefixOf digits ∨ [48].isPrefixOf digits ∧ 1 < digits.length then none else parseI128 digits
  else none

section Lexicon

variable (bits : ℕ)

def sizeToken (len : Bytes) : Option ℕ := if validUtf8 len then parseUsize bits len else none

/-- A length that fits, but not together with the header that it stands in. -/
def overflows (len : Bytes) : Bool :=
  match sizeToken bits len with
  | some n => 2 ^ bits ≤ len.length + 1 + n
  | none => false

def deLexicon : Lexicon where
  int := integerToken
  size := sizeToken bits
  textSize := sizeToken bits
  text data := if validUtf8 data then some data else none
  isKey _ := true
  collect := some
  stops := overflows bits

end Lexicon

/-! Canonical tokens are taken, and for the numbers that they spell. -/

section Canonical

variable {bits : ℕ} {tok : Bytes}

theorem digit_ne_plus {d : UInt8} (h : isDigit d = true) : d.toNat ≠ 43 := by
  have := isDigit_iff.mp h
  omega

theorem parseSigned_canonicalInt (h : isCanonicalInt tok = true) : parseSigned tok = some (intValue tok) := by
  cases tok with
  | nil => cases h
  | cons d ds =>
    rw [isCanonicalInt] at h
    rw [parseSigned, intValue]
    split at h
    · rename_i hd
      rw [if_neg (by omega), if_pos hd, if_pos hd, readNat_canonicalNat (isCanonicalNat_of_isPositive h)]
      rfl
    · rename_i hd
      have hdigit := List.all_eq_true.mp (isCanonicalNat_iff.mp h).2.1 d List.mem_cons_self
      rw [if_neg (digit_ne_plus hdigit), if_neg hd, if_neg hd, readNat_canonicalNat h]
      rfl

theorem parseUnsigned_canonicalNat (h : isCanonicalNat tok = true) :
    parseUnsigned tok = some (numeralValue tok) := by
  obtain ⟨hne, hall, -⟩ := isCanonicalNat_iff.mp h
  cases tok with
  | nil => exact absurd rfl hne
  | cons d ds =>
    rw [parseUnsigned, if_neg (digit_ne_plus (List.all_eq_true.mp hall d List.mem_cons_self)),
      readNat_canonicalNat h]

theorem parseI128_canonicalInt (h : isCanonicalInt tok = true) (hlow : -2 ^ 127 ≤ intValue tok)
    (hhigh : intValue tok < 2 ^ 127) : parseI128 tok = some (intValue tok) := by
  rw [parseI128, parseSigned_canonicalInt h, Option.filter_some, if_pos (decide_eq_true ⟨hlow, hhigh⟩)]

theorem integerToken_canonicalInt (h : isCanonicalInt tok = true) (hlow : -2 ^ 127 ≤ intValue tok)
    (hhigh : intValue tok < 2 ^ 127) : integerToken tok = some (intValue tok) := by
  rw [integerToken, if_pos (validUtf8_of_ascii tok (ascii_canonicalInt h)), if_neg (no_leading_zero h),
    parseI128_canonicalInt h hlow hhigh]

theorem sizeToken_canonicalNat (h : isCanonicalNat tok = true) (hfits : numeralValue tok < 2 ^ bits) :
    sizeToken bits tok = some (numeralValue tok) := by
  rw [sizeToken, if_pos (validUtf8_of_ascii tok (ascii_canonicalNat h)), parseUsize, parseUnsigned_canonicalNat h,
    Option.filter_some, if_pos (decide_eq_true hfits)]

theorem range_of_integerToken {z : ℤ} (h : integerToken tok = some z) : -2 ^ 127 ≤ z ∧ z < 2 ^ 127 := by
  rw [integerToken, Option.ite_none_right_eq_some] at h
  obtain ⟨-, h⟩ := h
  split at h
  · cases h
  · exact of_decide_eq_true (Option.filter_eq_some_iff.mp h).2

/-- What is read in a canonical length is the number it spells. -/
theorem eq_numeralValue_of_sizeToken {n : ℕ} (h : isCanonicalNat tok = true) (hn : sizeToken bits tok = some n) :
    n = numeralValue tok := by
  obtain ⟨-, hparse⟩ := Option.ite_none_right_eq_some.mp hn
  have hparse := (Option.filter_eq_some_iff.mp hparse).1
  rw [parseUnsigned_canonicalNat h] at hparse
  exact (Option.some.inj hparse).symm

theorem range_of_sizeToken {n : ℕ} (h : sizeToken bits tok = some n) : n < 2 ^ bits := by
  rw [sizeToken, Option.ite_none_right_eq_some] at h
  exact of_decide_eq_true (Option.filter_eq_some_iff.mp h.2).2

end Canonical

def verdict : Failure → Bencode.Verdict
  | .error _ => .refused
  | .panic => .stopped
  | .unfinished => .unfinished

/-! Tokens are found by their end. -/

theorem cut_eq_findIdx? (b : UInt8) (s : Bytes) :
    Bencode.cut b s = (s.findIdx? (· = b)).map fun i => (s.take i, s.drop (i + 1)) := by
  induction s with
  | nil => rfl
  | cons x xs ih =>
    rw [Bencode.cut, List.findIdx?_cons]
    by_cases hx : x = b
    · simp [hx]
    · rw [if_neg hx, ih]
      simp [hx, Function.comp_def]

section Tokens

variable {s tok rest : Bytes}

theorem position_of_cut {b : UInt8} (h : Bencode.cut b s = some (tok, rest)) :
    position b s = .ok (some tok.length) s ∧ slice 0 tok.length s = .ok tok s ∧
      advance (tok.length + 1) s = .ok () rest := by
  obtain ⟨hs, hmem⟩ := Bencode.cut_eq_some h
  rw [cut_eq_findIdx?] at h
  obtain ⟨i, hi, heq⟩ := Option.map_eq_some_iff.mp h
  obtain ⟨htok, hrest⟩ := Prod.mk.inj heq
  have hlen : s.length = tok.length + 1 + rest.length := by
    rw [hs, List.length_append, List.length_cons]
    omega
  have hlt : i < s.length := (List.findIdx?_eq_some_iff_findIdx_eq.mp hi).1
  have htok' : tok.length = i := by
    rw [← htok, List.length_take]
    omega
  refine ⟨?_, ?_, ?_⟩
  · rw [position, hi, htok']
  · rw [slice, if_pos ⟨Nat.zero_le _, by omega⟩, htok', htok, List.drop_zero]
  · rw [advance, if_neg (by omega), htok', hrest]

theorem position_of_cut_none {b : UInt8} (h : Bencode.cut b s = none) : position b s = .ok none s := by
  rw [cut_eq_findIdx?, Option.map_eq_none_iff] at h
  rw [position, h]

theorem delimited_of_cut {b : UInt8} (h : Bencode.cut b s = some (tok, rest)) :
    Bencode.delimited b s = .ok tok rest := by
  rw [Bencode.delimited, h]

theorem delimited_of_cut_none {b : UInt8} (h : Bencode.cut b s = none) :
    Bencode.delimited b s = .error .refused s := by
  rw [Bencode.delimited, h]

theorem parseIntValue_of_cut_none (h : Bencode.cut 101 s = none) :
    parseIntValue s = .error (.error (.invalidData .unterminatedInteger)) s := by
  rw [parseIntValue, Act.bind_of_ok (position_of_cut_none h)]
  rfl

theorem parseIntValue_of_cut (h : Bencode.cut 101 s = some (tok, rest)) :
    parseIntValue s = (do
      let val ← integerOf tok
      advance (tok.length + 1)
      pure val : De ℤ) s := by
  obtain ⟨hposition, hslice, -⟩ := position_of_cut h
  have hsome : (orInvalid .unterminatedInteger (some tok.length) : De ℕ) s = .ok tok.length s := rfl
  rw [parseIntValue, Act.bind_of_ok hposition, Act.bind_of_ok hsome, Act.bind_of_ok hslice]

theorem integerOf_eq (tok s : Bytes) :
    (∃ z, integerToken tok = some z ∧ integerOf tok s = .ok z s) ∨
      integerToken tok = none ∧ ∃ d, integerOf tok s = .error (.error (.invalidData d)) s := by
  rw [integerToken, integerOf]
  by_cases hutf8 : validUtf8 tok = true
  · rw [if_pos hutf8, if_pos hutf8]
    by_cases hzero : [45, 48].isPrefixOf tok ∨ [48].isPrefixOf tok ∧ 1 < tok.length
    · rw [if_pos hzero, if_pos hzero]
      exact .inr ⟨rfl, _, rfl⟩
    · rw [if_neg hzero, if_neg hzero]
      cases parseI128 tok with
      | none => exact .inr ⟨rfl, _, rfl⟩
      | some z => exact .inl ⟨z, rfl, rfl⟩
  · rw [if_neg hutf8, if_neg hutf8]
    exact .inr ⟨rfl, _, rfl⟩

theorem mirror_refused {α : Type} (e : Error) (s s' : Bytes) :
    Mirror (α := α) verdict (.error (.error e) s) (.error .refused s') := Mirror.error (Failure.error e) s s'

theorem mirrors_parseIntValue : Mirrors verdict parseIntValue (do
    let tok ← Bencode.delimited 101
    Bencode.orRefuse (integerToken tok)) := by
  intro s
  cases hcut : Bencode.cut 101 s with
  | none =>
    rw [parseIntValue_of_cut_none hcut, Act.bind_of_error (delimited_of_cut_none hcut)]
    exact mirror_refused _ s s
  | some p =>
    obtain ⟨tok, rest⟩ := p
    obtain ⟨-, -, hadvance⟩ := position_of_cut hcut
    rw [parseIntValue_of_cut hcut, Act.bind_of_ok (delimited_of_cut hcut)]
    rcases integerOf_eq tok s with ⟨z, htok, hz⟩ | ⟨htok, d, hd⟩
    · rw [htok, Act.bind_of_ok hz, Act.bind_of_ok hadvance]
      exact .ok z rest
    · rw [htok, Act.bind_of_error hd]
      exact mirror_refused _ s rest

section Bytestring

variable {bits : ℕ}

theorem parseBytestring_of_cut_none (h : Bencode.cut 58 s = none) :
    parseBytestring bits s = .error (.error (.invalidData .missingColon)) s := by
  rw [parseBytestring, Act.bind_of_ok (position_of_cut_none h)]
  rfl

theorem parseBytestring_of_no_size (h : Bencode.cut 58 s = some (tok, rest)) (hsize : sizeToken bits tok = none) :
    ∃ d, parseBytestring bits s = .error (.error (.invalidData d)) s := by
  obtain ⟨hposition, hslice, -⟩ := position_of_cut h
  have hsome : (orInvalid .missingColon (some tok.length) : De ℕ) s = .ok tok.length s := rfl
  rw [parseBytestring, Act.bind_of_ok hposition, Act.bind_of_ok hsome, Act.bind_of_ok hslice]
  rw [sizeToken] at hsize
  by_cases hutf8 : validUtf8 tok = true
  · rw [if_pos hutf8] at hsize
    rw [if_pos hutf8, hsize]
    exact ⟨_, rfl⟩
  · rw [if_neg hutf8]
    exact ⟨_, rfl⟩

theorem parseBytestring_of_size {n : ℕ} (h : Bencode.cut 58 s = some (tok, rest))
    (hsize : sizeToken bits tok = some n) :
    parseBytestring bits s =
      if tok.length + 1 + n < 2 ^ bits then
        if rest.length < n then .error (.error .eof) s else .ok (rest.take n) (rest.drop n)
      else .error .panic s := by
  obtain ⟨hposition, hslice, -⟩ := position_of_cut h
  have hsome : (orInvalid .missingColon (some tok.length) : De ℕ) s = .ok tok.length s := rfl
  rw [sizeToken, Option.ite_none_right_eq_some] at hsize
  have hn : (orInvalid (.badLength tok) (parseUsize bits tok) : De ℕ) s = .ok n s := by
    rw [hsize.2]
    rfl
  rw [parseBytestring, Act.bind_of_ok hposition, Act.bind_of_ok hsome, Act.bind_of_ok hslice, if_pos hsize.1,
    Act.bind_of_ok hn]
  by_cases hfits : tok.length + 1 + n < 2 ^ bits
  · have hsum : checkedAdd bits (tok.length + 1) n s = .ok (tok.length + 1 + n) s := by
      rw [checkedAdd, if_pos hfits]
      rfl
    rw [if_pos hfits, Act.bind_of_ok hsum, Act.bind_of_ok (Act.get_apply s)]
    obtain ⟨hs, -⟩ := Bencode.cut_eq_some h
    have hlen : s.length = tok.length + 1 + rest.length := by
      rw [hs, List.length_append, List.length_cons]
      omega
    by_cases hshort : rest.length < n
    · rw [if_pos hshort, if_pos (by omega)]
      rfl
    · rw [if_neg hshort, if_neg (by omega)]
      have hdata : slice (tok.length + 1) (tok.length + 1 + n) s = .ok (rest.take n) s := by
        rw [slice, if_pos (by omega), hs, ← List.singleton_append, ← List.append_assoc]
        have hfront : (tok ++ [58]).length = tok.length + 1 := by simp
        rw [← hfront, List.take_length_add_append, List.drop_left]
      have hadvance : advance (tok.length + 1 + n) s = .ok () (rest.drop n) := by
        have hfront : (tok ++ [58]).length = tok.length + 1 := by simp
        rw [advance, if_neg (by omega), hs, ← List.singleton_append, ← List.append_assoc, ← hfront,
          List.drop_length_add_append]
      rw [Act.bind_of_ok hdata, Act.bind_of_ok hadvance]
      rfl
  · have hsum : checkedAdd bits (tok.length + 1) n s = .error .panic s := by
      rw [checkedAdd, if_neg hfits]
      rfl
    rw [if_neg hfits, Act.bind_of_error hsum]

theorem mirrors_parseBytestring :
    Mirrors verdict (parseBytestring bits) (Bencode.sized (deLexicon bits) (sizeToken bits)) := by
  intro s
  cases hcut : Bencode.cut 58 s with
  | none =>
    rw [parseBytestring_of_cut_none hcut, Bencode.sized, Act.bind_of_error (delimited_of_cut_none hcut)]
    exact mirror_refused _ s s
  | some p =>
    obtain ⟨tok, rest⟩ := p
    rw [Bencode.sized, Act.bind_of_ok (delimited_of_cut hcut)]
    have hstops : (deLexicon bits).stops tok = overflows bits tok := rfl
    cases hsize : sizeToken bits tok with
    | none =>
      have hfits : overflows bits tok = false := by rw [overflows, hsize]
      obtain ⟨d, hd⟩ := parseBytestring_of_no_size hcut hsize
      rw [hd, hstops, hfits]
      exact mirror_refused _ s rest
    | some n =>
      rw [parseBytestring_of_size hcut hsize]
      by_cases hfits : tok.length + 1 + n < 2 ^ bits
      · have hgoes : overflows bits tok = false := by
          rw [overflows, hsize]
          exact decide_eq_false hfits.not_ge
        have hpayload : (if (false : Bool) then throw .stopped else do
            let n ← Bencode.orRefuse (some n)
            Bencode.payload n : Bencode.Reader Bytes) rest = Bencode.payload n rest := rfl
        rw [if_pos hfits, hstops, hgoes, hpayload, Bencode.payload]
        by_cases hshort : rest.length < n
        · rw [if_pos hshort, if_pos hshort]
          exact mirror_refused _ s rest
        · rw [if_neg hshort, if_neg hshort]
          exact .ok _ _
      · have hpanics : overflows bits tok = true := by
          rw [overflows, hsize]
          exact decide_eq_true (not_lt.mp hfits)
        rw [if_neg hfits, hstops, hpanics]
        exact Mirror.error Failure.panic s rest

end Bytestring

end Tokens

/-! Elements and entries. -/

section Access

variable {α β : Type} {x : De α} {y : Bencode.Reader α}

theorem elements_end (n : ℕ) (s : Bytes) : elements x (n + 1) (101 :: s) = .ok [] (101 :: s) := rfl

theorem elements_succ {n : ℕ} {b : UInt8} {s : Bytes} (hb : b ≠ 101) :
    elements x (n + 1) (b :: s) = (do
      let a ← x
      let as ← elements x n
      pure (a :: as) : De (List α)) (b :: s) := by
  have hpeek : peek (b :: s) = .ok b (b :: s) := rfl
  rw [elements, Act.bind_apply, nextElement, Act.bind_of_ok hpeek, if_neg hb, Act.bind_apply x]
  cases hx : x (b :: s) with
  | ok a r => rw [Act.map_of_ok hx]
  | error e r => rw [Act.map_of_error hx]

theorem consumeEnd_end (s : Bytes) : consumeEnd (101 :: s) = .ok () s := by
  have hpeek : peek (101 :: s) = .ok 101 (101 :: s) := rfl
  have hadvance : advance 1 (101 :: s) = .ok () s := by
    rw [advance, if_neg (by simp)]
    rfl
  rw [consumeEnd, Act.bind_of_ok hpeek, if_pos rfl, hadvance]

theorem mirrors_elements (h : Mirrors verdict x y) (n : ℕ) :
    Mirrors verdict (do
      let result ← elements x n
      consumeEnd
      pure result) (Bencode.items y n) := by
  induction n with
  | zero =>
    intro s
    exact Mirror.error Failure.unfinished s s
  | succ n ih =>
    intro s
    cases s with
    | nil => exact mirror_refused .eof [] []
    | cons b s =>
      by_cases hb : b = 101
      · subst hb
        rw [Act.bind_of_ok (elements_end n s), Act.bind_of_ok (consumeEnd_end s), Bencode.items_end]
        exact .ok [] s
      · have hx : (do
            let result ← elements x (n + 1)
            consumeEnd
            pure result : De (List α)) (b :: s) = (do
              let a ← x
              (a :: ·) <$> (do
                let result ← elements x n
                consumeEnd
                pure result) : De (List α)) (b :: s) := by
          rw [Act.bind_apply, elements_succ hb, ← Act.bind_apply]
          simp only [map_eq_pure_bind, bind_assoc, pure_bind]
        have hy : Bencode.items y (n + 1) (b :: s) = (do
            let a ← y
            (a :: ·) <$> Bencode.items y n : Bencode.Reader (List α)) (b :: s) := by
          rw [Bencode.items_succ hb]
          simp only [map_eq_pure_bind]
        rw [hx, hy]
        exact (h.bind fun a => ih.map (a :: ·)) (b :: s)

theorem nextEntry_eq (key : De α) (value : De β) :
    nextEntry key value = nextElement (do
      let k ← key
      let v ← value
      pure (k, v)) := by
  rw [nextEntry, nextElement, nextElement, bind_assoc]
  congr 1
  funext b
  by_cases hb : b = 101
  · rw [if_pos hb, if_pos hb, pure_bind]
  · rw [if_neg hb, if_neg hb]
    simp only [map_eq_pure_bind, bind_assoc, pure_bind]

theorem entries_eq (key : De α) (value : De β) (n : ℕ) :
    entries key value n = elements (do
      let k ← key
      let v ← value
      pure (k, v)) n := by
  induction n with
  | zero => rfl
  | succ n ih =>
    rw [entries, elements, nextEntry_eq, ih]
    refine bind_congr fun e => ?_
    cases e <;> rfl

end Access

/-! Values. -/

section Values

variable {bits : ℕ} {s : Bytes} {V : Type} (visitor : Visitor V)

theorem advance_one (b : UInt8) (s : Bytes) : advance 1 (b :: s) = .ok () s := by
  rw [advance, if_neg (by simp)]
  rfl

theorem peek_cons (b : UInt8) (s : Bytes) : peek (b :: s) = .ok b (b :: s) := rfl

theorem deserializeAny_null : deserializeAny bits visitor (110 :: s) = visitor.unit s := by
  rw [deserializeAny, Act.bind_of_ok (peek_cons 110 s), if_pos rfl, Act.bind_of_ok (advance_one 110 s)]

theorem deserializeAny_true : deserializeAny bits visitor (116 :: s) = visitor.bool true s := by
  rw [deserializeAny, Act.bind_of_ok (peek_cons 116 s), if_neg (by decide), if_pos rfl,
    Act.bind_of_ok (advance_one 116 s)]

theorem deserializeAny_false : deserializeAny bits visitor (102 :: s) = visitor.bool false s := by
  rw [deserializeAny, Act.bind_of_ok (peek_cons 102 s), if_neg (by decide), if_neg (by decide), if_pos rfl,
    Act.bind_of_ok (advance_one 102 s)]

theorem deserializeAny_int : deserializeAny bits visitor (105 :: s) = (do
    let val ← parseIntValue
    visitor.int val) s := by
  rw [deserializeAny, Act.bind_of_ok (peek_cons 105 s), if_neg (by decide), if_neg (by decide), if_neg (by decide),
    if_pos rfl, Act.bind_of_ok (advance_one 105 s)]

theorem deserializeAny_list : deserializeAny bits visitor (108 :: s) = (do
    let result ← visitor.seq
    consumeEnd
    pure result) s := by
  rw [deserializeAny, Act.bind_of_ok (peek_cons 108 s), if_neg (by decide), if_neg (by decide), if_neg (by decide),
    if_neg (by decide), if_pos rfl, Act.bind_of_ok (advance_one 108 s)]

theorem deserializeAny_map : deserializeAny bits visitor (100 :: s) = (do
    let result ← visitor.map
    consumeEnd
    pure result) s := by
  rw [deserializeAny, Act.bind_of_ok (peek_cons 100 s), if_neg (by decide), if_neg (by decide), if_neg (by decide),
    if_neg (by decide), if_neg (by decide), if_pos rfl, Act.bind_of_ok (advance_one 100 s)]

theorem deserializeAny_text : deserializeAny bits visitor (117 :: s) = (do
    let data ← parseUnicode bits
    visitor.str data) s := by
  rw [deserializeAny, Act.bind_of_ok (peek_cons 117 s), if_neg (by decide), if_neg (by decide), if_neg (by decide),
    if_neg (by decide), if_neg (by decide), if_neg (by decide), if_pos rfl, Act.bind_of_ok (advance_one 117 s)]

theorem deserializeAny_digit {d : UInt8} (h : isDigit d = true) : deserializeAny bits visitor (d :: s) = (do
    let bytes ← parseBytestring bits
    visitor.bytes bytes) (d :: s) := by
  have hne : ∀ b : UInt8, isDigit b = false → d ≠ b := by
    rintro b hb rfl
    rw [h] at hb
    cases hb
  rw [deserializeAny, Act.bind_of_ok (peek_cons d s), if_neg (hne 110 (by decide)), if_neg (hne 116 (by decide)),
    if_neg (hne 102 (by decide)), if_neg (hne 105 (by decide)), if_neg (hne 108 (by decide)),
    if_neg (hne 100 (by decide)), if_neg (hne 117 (by decide)), if_pos h]

theorem deserializeAny_other {b : UInt8} (h : ¬ Bencode.IsTag b) :
    deserializeAny bits visitor (b :: s) = .error (.error (.invalidData (.unexpectedByte b))) (b :: s) := by
  have hdigit : ¬ isDigit b = true := fun hd => h (.digit hd)
  have hnull : b ≠ 110 := fun heq => h (heq ▸ .null)
  have htrue : b ≠ 116 := fun heq => h (heq ▸ .true)
  have hfalse : b ≠ 102 := fun heq => h (heq ▸ .false)
  have hint : b ≠ 105 := fun heq => h (heq ▸ .int)
  have hlist : b ≠ 108 := fun heq => h (heq ▸ .list)
  have hmap : b ≠ 100 := fun heq => h (heq ▸ .map)
  have htext : b ≠ 117 := fun heq => h (heq ▸ .text)
  rw [deserializeAny, Act.bind_of_ok (peek_cons b s), if_neg hnull, if_neg htrue, if_neg hfalse, if_neg hint,
    if_neg hlist, if_neg hmap, if_neg htext, if_neg hdigit]
  rfl

end Values

theorem mirrors_text (bits : ℕ) (fuel : ℕ) (value : De Value) : Mirrors verdict (do
    let data ← parseUnicode bits
    (valueVisitor value fuel).str data) (do
    let data ← Bencode.sized (deLexicon bits) (deLexicon bits).textSize
    Value.text <$> Bencode.orRefuse ((deLexicon bits).text data)) := by
  rw [parseUnicode, bind_assoc]
  refine mirrors_parseBytestring.bind fun data s => ?_
  have htext : (deLexicon bits).text data = if validUtf8 data then some data else none := rfl
  rw [htext]
  by_cases h : validUtf8 data = true
  · rw [if_pos h, if_pos h]
    exact .ok _ s
  · rw [if_neg h, if_neg h]
    exact mirror_refused .. 

theorem mirrors_entry {bits : ℕ} {x : De Value} {y : Bencode.Reader Value} (h : Mirrors verdict x y) :
    Mirrors verdict (do
      let k ← x
      let v ← x
      pure (k, v)) (Bencode.entry (deLexicon bits) y) := by
  refine h.bind fun k => ?_
  have hkey : (deLexicon bits).isKey k = true := rfl
  rw [if_pos hkey]
  exact h.bind fun v s => .ok (k, v) s

/-- The decoder goes through the input as the reader of its tokens does. -/
theorem mirrors_deserializeValue (bits fuel : ℕ) :
    Mirrors verdict (deserializeValue bits fuel) (Bencode.read (deLexicon bits) fuel) := by
  induction fuel with
  | zero =>
    intro s
    exact Mirror.error Failure.unfinished s s
  | succ fuel ih =>
    intro s
    rw [deserializeValue]
    cases s with
    | nil => exact mirror_refused .eof [] []
    | cons b s =>
      by_cases hb : Bencode.IsTag b
      · cases hb with
        | digit hd =>
          rw [deserializeAny_digit _ hd, Bencode.read_digit hd, map_eq_pure_bind]
          exact (mirrors_parseBytestring.bind fun data r => .ok (Value.bytes data) r) _
        | null =>
          rw [deserializeAny_null, Bencode.read_null]
          exact .ok Value.null s
        | true =>
          rw [deserializeAny_true, Bencode.read_true]
          exact .ok (Value.bool true) s
        | false =>
          rw [deserializeAny_false, Bencode.read_false]
          exact .ok (Value.bool false) s
        | int =>
          rw [deserializeAny_int, Bencode.read_int]
          have hmap : (do
              let tok ← Bencode.delimited 101
              Value.int <$> Bencode.orRefuse ((deLexicon bits).int tok) : Bencode.Reader Value) =
              Value.int <$> (do
                let tok ← Bencode.delimited 101
                Bencode.orRefuse (integerToken tok)) := by
            simp only [map_eq_pure_bind, bind_assoc]
            rfl
          rw [hmap, map_eq_pure_bind]
          exact (mirrors_parseIntValue.bind fun z r => .ok (Value.int z) r) s
        | list =>
          rw [deserializeAny_list, Bencode.read_list]
          have hmap : (do
              let result ← (valueVisitor (deserializeValue bits fuel) fuel).seq
              consumeEnd
              pure result : De Value) = Value.list <$> (do
                let result ← elements (deserializeValue bits fuel) fuel
                consumeEnd
                pure result) := by
            simp only [valueVisitor, map_eq_pure_bind, bind_assoc, pure_bind]
          rw [hmap]
          exact ((mirrors_elements ih fuel).map Value.list) s
        | map =>
          rw [deserializeAny_map, Bencode.read_map]
          have hmap : (do
              let result ← (valueVisitor (deserializeValue bits fuel) fuel).map
              consumeEnd
              pure result : De Value) = Value.map <$> (do
                let result ← elements (do
                  let k ← deserializeValue bits fuel
                  let v ← deserializeValue bits fuel
                  pure (k, v)) fuel
                consumeEnd
                pure result) := by
            simp only [valueVisitor, entries_eq, map_eq_pure_bind, bind_assoc, pure_bind]
          have hcollect : (do
              let es ← Bencode.items (Bencode.entry (deLexicon bits) (Bencode.read (deLexicon bits) fuel)) fuel
              Value.map <$> Bencode.orRefuse ((deLexicon bits).collect es) : Bencode.Reader Value) =
              Value.map <$> Bencode.items
                (Bencode.entry (deLexicon bits) (Bencode.read (deLexicon bits) fuel)) fuel := by
            rw [map_eq_pure_bind]
            rfl
          rw [hmap, hcollect]
          exact ((mirrors_elements (mirrors_entry ih) fuel).map Value.map) s
        | text =>
          rw [deserializeAny_text, Bencode.read_text]
          exact mirrors_text bits fuel (deserializeValue bits fuel) s
      · rw [deserializeAny_other _ hb, Bencode.read_other hb]
        exact mirror_refused ..

/-- The decoder takes a string for what it spells, and panics where the reader stops. -/
theorem readAll_deLexicon (bits : ℕ) (s : Bytes) :
    Bencode.readAll (deLexicon bits) s = (decodeValue bits s).mapError verdict := by
  rw [decodeValue, fromSlice, Bencode.readAll]
  have h := mirrors_deserializeValue bits (s.length + 1) s
  generalize deserializeValue bits (s.length + 1) s = x at h
  generalize Bencode.read (deLexicon bits) (s.length + 1) s = y at h
  cases h with
  | ok a r =>
    cases r with
    | nil => rfl
    | cons b r => rfl
  | error e s s' => rfl

section

variable {bits : ℕ} {s : Bytes}

theorem decodeValue_eq_ok {v : Value} : decodeValue bits s = .ok v ↔ Bencode.Spells (deLexicon bits) v s := by
  rw [← Bencode.readAll_eq_ok, readAll_deLexicon]
  cases decodeValue bits s with
  | ok a => simp [Except.mapError]
  | error e => simp [Except.mapError]

theorem decodeValue_eq_panic : decodeValue bits s = .error .panic ↔ Bencode.Stops (deLexicon bits) s := by
  rw [← Bencode.readAll_eq_stopped, readAll_deLexicon]
  cases decodeValue bits s with
  | ok a => simp [Except.mapError]
  | error e => cases e <;> simp [Except.mapError, verdict]

theorem decodeValue_ne_unfinished : decodeValue bits s ≠ .error .unfinished := by
  intro h
  apply Bencode.readAll_ne_unfinished (L := deLexicon bits) (s := s)
  rw [readAll_deLexicon, h]
  rfl

end

end Bencodex

end ChiaGaming
