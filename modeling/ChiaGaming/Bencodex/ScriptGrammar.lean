import ChiaGaming.Bencodex.Script
import ChiaGaming.Lib.Readings

namespace ChiaGaming

/-! What the decoder of the front end reads, as a reading of tokens. -/

namespace Bencodex

namespace Script

open Bencode (Value Lexicon Reads)

def integerToken (raw : Bytes) : Option ℤ :=
  match integerOf (TextDecoder.decode raw) with
  | .error _ => none
  | .ok z => some z

def lengthToken (raw : Bytes) : Option ℕ :=
  if raw.all isDigit ∧ ¬ (1 < raw.length ∧ [48].isPrefixOf raw) ∧ isSafeInteger (number raw) then some (number raw)
  else none

def isKey : Value → Bool
  | .text _ => true
  | .bytes _ => true
  | _ => false

def setEntries (items : List (Value × Value)) (es : List (Value × Value)) : List (Value × Value) :=
  es.foldl (fun items e => setEntry items e.1 e.2) items

def lexicon : Lexicon where
  int := integerToken
  size := lengthToken
  textSize := lengthToken
  text data := some (TextDecoder.decode data)
  isKey := isKey
  collect es := some (setEntries [] es)
  stops _ := false

theorem cut_eq_span (b : UInt8) (s : Bytes) :
    Bencode.cut b s = match s.span (· ≠ b) with
      | (_, []) => none
      | (out, _ :: rest) => some (out, rest) := by
  rw [List.span_eq_takeWhile_dropWhile]
  induction s with
  | nil => rfl
  | cons x xs ih =>
    rw [Bencode.cut]
    by_cases hx : x = b
    · subst hx
      rw [if_pos rfl, List.takeWhile_cons_of_neg (by simp), List.dropWhile_cons_of_neg (by simp)]
    · rw [if_neg hx, ih, List.takeWhile_cons_of_pos (by simpa using hx), List.dropWhile_cons_of_pos (by simpa using hx)]
      cases List.dropWhile (fun x => decide (x ≠ b)) xs <;> rfl

theorem reads_delimited (b : UInt8) : Reads (readUntil b) (Bencode.delimited b) := by
  intro s out r
  rw [readUntil, Bencode.delimited, cut_eq_span]
  rcases s.span (· ≠ b) with ⟨tok, _ | ⟨x, rest⟩⟩ <;> simp

theorem reads_integer : Reads (Value.int <$> readInteger) (do
    let tok ← Bencode.delimited 101
    Value.int <$> Bencode.orRefuse (lexicon.int tok)) := by
  rw [readInteger, map_bind]
  refine (reads_delimited 101).bind fun tok => Reads.map ?_ Value.int
  intro s z r
  have hint : lexicon.int tok = integerToken tok := rfl
  rw [hint, integerToken]
  cases integerOf (TextDecoder.decode tok) with
  | error e => simp [Bencode.orRefuse]
  | ok z' => simp [Bencode.orRefuse]

/-! Strings with their length. -/

theorem cut_digits {taken : Bytes} (h : taken.all isDigit = true) (s : Bytes) :
    Bencode.cut 58 (taken ++ s) = (Bencode.cut 58 s).map fun p => (taken ++ p.1, p.2) := by
  induction taken with
  | nil => simp
  | cons d taken ih =>
    rw [List.all_cons, Bool.and_eq_true] at h
    have hd : d ≠ 58 := by
      rintro rfl
      exact absurd h.1 (by decide)
    rw [List.cons_append, Bencode.cut, if_neg hd, ih h.2, Option.map_map]
    rfl

theorem span_isDigit (s : Bytes) : ∃ digits rest, s.span isDigit = (digits, rest) ∧ s = digits ++ rest ∧
    digits.all isDigit = true ∧ ∀ b r, rest = b :: r → isDigit b = false := by
  refine ⟨s.takeWhile isDigit, s.dropWhile isDigit, List.span_eq_takeWhile_dropWhile isDigit s,
    List.takeWhile_append_dropWhile.symm, ?_, ?_⟩
  · exact List.all_takeWhile
  · intro b r h
    have hhead := List.head?_dropWhile_not isDigit s
    rw [h] at hhead
    simpa using hhead

/-- A length is the digits before the colon. -/
theorem readLength_eq_ok {taken s r : Bytes} {n : ℕ} (ht : taken.all isDigit = true) :
    readLength taken s = .ok n r ↔
      ∃ tok, Bencode.cut 58 (taken ++ s) = some (tok, r) ∧ lengthToken tok = some n := by
  obtain ⟨digits, rest, hspan, rfl, hdigits, hrest⟩ := span_isDigit s
  have hall : (taken ++ digits).all isDigit = true := by
    rw [List.all_append, ht, hdigits]
    rfl
  rw [← List.append_assoc, cut_digits hall, readLength, hspan]
  cases rest with
  | nil => simp [Bencode.cut]
  | cons b rest =>
    have hb := hrest b rest rfl
    by_cases hcolon : b = 58
    · subst hcolon
      have hcut : Bencode.cut 58 (58 :: rest) = some ([], rest) := by
        rw [Bencode.cut, if_pos rfl]
      rw [hcut, Option.map_some, List.append_nil]
      have htok : (∃ tok, some (taken ++ digits, rest) = some (tok, r) ∧ lengthToken tok = some n) ↔
          rest = r ∧ lengthToken (taken ++ digits) = some n := by
        constructor
        · rintro ⟨tok, heq, hn⟩
          cases heq
          exact ⟨rfl, hn⟩
        · rintro ⟨rfl, hn⟩
          exact ⟨_, rfl, hn⟩
      rw [htok, lengthToken]
      simp only [ne_eq, not_true_eq_false, if_false]
      generalize taken ++ digits = raw at hall
      by_cases hzero : 1 < raw.length ∧ [48].isPrefixOf raw = true
      · rw [if_pos hzero, if_neg fun h => h.2.1 hzero]
        simp
      · rw [if_neg hzero]
        by_cases hsafe : isSafeInteger (number raw) = true
        · rw [if_pos hsafe, if_pos ⟨hall, hzero, hsafe⟩, EStateM.Result.ok.injEq, Option.some.injEq, and_comm]
        · rw [if_neg hsafe, if_neg fun h => hsafe h.2.2]
          simp
    · have hcut : Bencode.cut 58 (b :: rest) = (Bencode.cut 58 rest).map fun p => (b :: p.1, p.2) := by
        rw [Bencode.cut, if_neg hcolon]
      have hnone : ∀ tok, lengthToken (taken ++ digits ++ b :: tok) = none := by
        intro tok
        rw [lengthToken, if_neg]
        simp [hb]
      rw [hcut]
      constructor
      · intro h
        simp [hcolon] at h
      · rintro ⟨tok, heq, hn⟩
        rw [Option.map_map, Option.map_eq_some_iff] at heq
        obtain ⟨p, -, heq⟩ := heq
        cases heq
        rw [hnone] at hn
        cases hn

theorem readBytes_eq_ok {taken s data r : Bytes} (ht : taken.all isDigit = true) :
    readBytes taken s = .ok data r ↔ Bencode.sized lexicon lengthToken (taken ++ s) = .ok data r := by
  rw [readBytes, Act.bind_eq_ok]
  constructor
  · rintro ⟨n, r₁, hn, h⟩
    obtain ⟨tok, hcut, htok⟩ := (readLength_eq_ok ht).mp hn
    obtain ⟨hs, hmem⟩ := Bencode.cut_eq_some hcut
    rw [Act.bind_of_ok (Act.get_apply r₁)] at h
    obtain ⟨-, h⟩ | ⟨hlong, h⟩ := Act.ite_eq_ok.mp h
    · cases h
    · cases h
      have hlen : (r₁.take n).length = n := by
        rw [List.length_take]
        omega
      have hsized := Bencode.sized_append (L := lexicon) hmem rfl (htok.trans (congrArg some hlen.symm)) (r₁.drop n)
      rw [List.append_assoc, List.cons_append, List.take_append_drop] at hsized
      rw [hs]
      exact hsized
  · intro h
    obtain ⟨tok, htok, -, hn, hs⟩ := Bencode.sized_eq_ok h
    have hcut : Bencode.cut 58 (taken ++ s) = some (tok, data ++ r) := by
      rw [hs, List.append_assoc]
      exact Bencode.cut_append htok (data ++ r)
    refine ⟨data.length, data ++ r, (readLength_eq_ok ht).mpr ⟨tok, hcut, hn⟩, ?_⟩
    rw [Act.bind_of_ok (Act.get_apply (data ++ r)), if_neg (by simp)]
    rw [List.take_left, List.drop_left]
    rfl

theorem take_cons (b : UInt8) (s : Bytes) : take (b :: s) = .ok b s := rfl

theorem peek_cons (b : UInt8) (s : Bytes) : peek (b :: s) = .ok b (b :: s) := rfl

theorem readBytes_digit {d : UInt8} (hd : isDigit d = true) {s r data : Bytes} :
    readBytes [d] s = .ok data r ↔ Bencode.sized lexicon lexicon.size (d :: s) = .ok data r :=
  readBytes_eq_ok (by simpa using hd)

theorem reads_text : Reads (do
    let bytes ← readBytes []
    pure (.text (TextDecoder.decode bytes))) (do
    let data ← Bencode.sized lexicon lexicon.textSize
    Value.text <$> Bencode.orRefuse (lexicon.text data)) := by
  have hbytes : Reads (readBytes []) (Bencode.sized lexicon lexicon.textSize) := fun s data r => readBytes_eq_ok rfl
  refine hbytes.bind fun data s v r => ?_
  have htext : (Value.text <$> Bencode.orRefuse (lexicon.text data) : Bencode.Reader Value) s =
      .ok (.text (TextDecoder.decode data)) s := rfl
  rw [htext, Act.pure_apply]
  simp

/-! Loops. -/

section Loops

variable {value : Decoder Value} {y : Bencode.Reader Value}

theorem reads_items (h : Reads value y) (n : ℕ) (items : List Value) :
    Reads (readItems value n items) ((items ++ ·) <$> Bencode.items y n) := by
  induction n generalizing items with
  | zero =>
    intro s as r
    constructor
    · intro hx
      cases hx
    · intro hy
      cases hy
  | succ n ih =>
    intro s as r
    cases s with
    | nil =>
      constructor
      · intro hx
        cases hx
      · intro hy
        cases hy
    | cons b s =>
      rw [readItems, Act.bind_of_ok (peek_cons b s)]
      by_cases hb : b = 101
      · subst hb
        have hend : (do
            modify List.tail
            pure items : Decoder (List Value)) (101 :: s) = .ok items s := rfl
        rw [if_neg (by simp), Act.map_of_ok (Bencode.items_end n s), List.append_nil, hend]
        simp
      · have hitems : ((items ++ ·) <$> Bencode.items y (n + 1)) (b :: s) = (do
            let a ← y
            ((items ++ [a]) ++ ·) <$> Bencode.items y n : Bencode.Reader (List Value)) (b :: s) := by
          rw [map_eq_pure_bind, Act.bind_apply, Bencode.items_succ hb, ← Act.bind_apply]
          simp only [map_eq_pure_bind, bind_assoc, pure_bind, List.append_assoc, List.singleton_append]
        rw [if_pos (by simpa using hb), hitems]
        exact (h.bind fun a => ih (items ++ [a])) (b :: s) as r

theorem reads_entries {entry : Bencode.Reader (Value × Value)} (h : Reads (do
      let k ← readKey
      let v ← value
      pure (k, v)) entry) (n : ℕ) (items : List (Value × Value)) :
    Reads (readEntries value n items) (setEntries items <$> Bencode.items entry n) := by
  induction n generalizing items with
  | zero =>
    intro s es r
    constructor
    · intro hx
      cases hx
    · intro hy
      cases hy
  | succ n ih =>
    intro s es r
    cases s with
    | nil =>
      constructor
      · intro hx
        cases hx
      · intro hy
        cases hy
    | cons b s =>
      rw [readEntries, Act.bind_of_ok (peek_cons b s)]
      by_cases hb : b = 101
      · subst hb
        have hend : (do
            modify List.tail
            pure items : Decoder (List (Value × Value))) (101 :: s) = .ok items s := rfl
        rw [if_neg (by simp), Act.map_of_ok (Bencode.items_end n s), hend]
        simp [setEntries]
      · have hitems : (setEntries items <$> Bencode.items entry (n + 1)) (b :: s) = (do
            let e ← entry
            setEntries (setEntry items e.1 e.2) <$> Bencode.items entry n : Bencode.Reader (List (Value × Value)))
            (b :: s) := by
          rw [map_eq_pure_bind, Act.bind_apply, Bencode.items_succ hb, ← Act.bind_apply]
          simp only [map_eq_pure_bind, bind_assoc, pure_bind, setEntries, List.foldl_cons]
        have hentry : (do
            let key ← readKey
            let item ← value
            readEntries value n (setEntry items key item) : Decoder (List (Value × Value))) = (do
              let e ← (do
                let k ← readKey
                let v ← value
                pure (k, v))
              readEntries value n (setEntry items e.1 e.2)) := by
          simp only [bind_assoc, pure_bind]
        rw [if_pos (by simpa using hb), hitems, hentry]
        exact (h.bind fun e => ih (setEntry items e.1 e.2)) (b :: s) es r

end Loops

/-! Values. -/

section Values

variable {n : ℕ} {s r : Bytes} {k : Value}

/-- Only a byte string and a text are keys. -/
theorem tag_of_isKey {L : Lexicon} {b : UInt8} (h : Bencode.read L (n + 1) (b :: s) = .ok k r)
    (hk : isKey k = true) : isDigit b = true ∨ b = 117 := by
  by_cases hb : Bencode.IsTag b
  · cases hb with
    | digit hd => exact .inl hd
    | null =>
      rw [Bencode.read_null] at h
      cases h
      cases hk
    | true =>
      rw [Bencode.read_true] at h
      cases h
      cases hk
    | false =>
      rw [Bencode.read_false] at h
      cases h
      cases hk
    | int =>
      rw [Bencode.read_int] at h
      obtain ⟨tok, s₁, -, h⟩ := Act.bind_eq_ok.mp h
      obtain ⟨z, -, rfl⟩ := Act.map_eq_ok.mp h
      cases hk
    | list =>
      rw [Bencode.read_list] at h
      obtain ⟨vs, -, rfl⟩ := Act.map_eq_ok.mp h
      cases hk
    | map =>
      rw [Bencode.read_map] at h
      obtain ⟨es, s₁, -, h⟩ := Act.bind_eq_ok.mp h
      obtain ⟨fs, -, rfl⟩ := Act.map_eq_ok.mp h
      cases hk
    | text => exact .inr rfl
  · rw [Bencode.read_other hb] at h
    cases h

theorem readKey_eq_ok : readKey s = .ok k r ↔ Bencode.read lexicon (n + 1) s = .ok k r ∧ isKey k = true := by
  cases s with
  | nil =>
    constructor
    · intro h
      cases h
    · rintro ⟨h, -⟩
      cases h
  | cons b s =>
    rw [readKey, Act.bind_of_ok (take_cons b s)]
    by_cases htext : b = 117
    · subst htext
      rw [if_pos rfl, Bencode.read_text]
      refine (reads_text s k r).trans (iff_self_and.mpr fun h => ?_)
      obtain ⟨data, s₁, -, h⟩ := Act.bind_eq_ok.mp h
      obtain ⟨t, -, rfl⟩ := Act.map_eq_ok.mp h
      rfl
    · rw [if_neg htext]
      by_cases hd : isDigit b = true
      · rw [if_pos hd, Bencode.read_digit hd, Act.map_eq_ok, Act.map_eq_ok]
        constructor
        · rintro ⟨data, h, rfl⟩
          exact ⟨⟨data, (readBytes_digit hd).mp h, rfl⟩, rfl⟩
        · rintro ⟨⟨data, h, rfl⟩, -⟩
          exact ⟨data, (readBytes_digit hd).mpr h, rfl⟩
      · rw [if_neg hd]
        constructor
        · intro h
          cases h
        · rintro ⟨h, hk⟩
          rcases tag_of_isKey h hk with hd' | htext'
          · exact absurd hd' hd
          · exact absurd htext' htext

/-- With a value that cannot be read, no entry is read. -/
theorem reads_entry {fuel : ℕ} (h : Reads (readValue fuel) (Bencode.read lexicon fuel)) : Reads (do
    let k ← readKey
    let v ← readValue fuel
    pure (k, v)) (Bencode.entry lexicon (Bencode.read lexicon fuel)) := by
  intro s e r
  cases fuel with
  | zero =>
    constructor
    · intro hx
      obtain ⟨k, s₁, -, hx⟩ := Act.bind_eq_ok.mp hx
      obtain ⟨v, s₂, hv, -⟩ := Act.bind_eq_ok.mp hx
      cases hv
    · intro hy
      obtain ⟨k, s₁, hk, -⟩ := Act.bind_eq_ok.mp hy
      cases hk
  | succ fuel =>
    rw [Act.bind_eq_ok, Bencode.entry, Act.bind_eq_ok]
    refine exists_congr fun k => exists_congr fun s₁ => ?_
    rw [readKey_eq_ok, and_assoc]
    refine and_congr_right fun _ => ?_
    have hkey : lexicon.isKey k = isKey k := rfl
    rw [Act.ite_eq_ok, hkey]
    have hrest : ∀ v : Value, Reads (pure (k, v) : Decoder (Value × Value)) (pure (k, v)) := by
      intro v s e r
      rw [Act.pure_apply, Act.pure_apply]
      simp
    constructor
    · rintro ⟨hk, hv⟩
      exact .inl ⟨hk, (h.bind hrest s₁ e r).mp hv⟩
    · rintro (⟨hk, hv⟩ | ⟨-, hv⟩)
      · exact ⟨hk, (h.bind hrest s₁ e r).mpr hv⟩
      · cases hv

/-- The decoder reads what the reader of its tokens reads. -/
theorem reads_readValue (fuel : ℕ) : Reads (readValue fuel) (Bencode.read lexicon fuel) := by
  induction fuel with
  | zero =>
    intro s v r
    constructor
    · intro h
      cases h
    · intro h
      cases h
  | succ fuel ih =>
    intro s v r
    cases s with
    | nil =>
      constructor
      · intro h
        cases h
      · intro h
        cases h
    | cons b s =>
      rw [readValue, Act.bind_of_ok (take_cons b s)]
      have hpure : ∀ w : Value, (pure w : Decoder Value) s = .ok v r ↔
          (.ok w s : EStateM.Result Bencode.Verdict Bytes Value) = .ok v r := by
        intro w
        rw [Act.pure_apply]
        simp
      by_cases hb : Bencode.IsTag b
      · cases hb with
        | digit hd =>
          have hne : ∀ t : UInt8, isDigit t = false → b ≠ t := by
            rintro t ht rfl
            rw [hd] at ht
            cases ht
          rw [if_neg (hne 110 (by decide)), if_neg (hne 116 (by decide)), if_neg (hne 102 (by decide)),
            if_neg (hne 105 (by decide)), if_neg (hne 117 (by decide)), if_pos hd, Bencode.read_digit hd,
            Act.map_eq_ok, Act.map_eq_ok]
          exact exists_congr fun data => and_congr_left' (readBytes_digit hd)
        | null =>
          rw [if_pos rfl, Bencode.read_null]
          exact hpure .null
        | true =>
          rw [if_neg (by decide), if_pos rfl, Bencode.read_true]
          exact hpure (.bool true)
        | false =>
          rw [if_neg (by decide), if_neg (by decide), if_pos rfl, Bencode.read_false]
          exact hpure (.bool false)
        | int =>
          rw [if_neg (by decide), if_neg (by decide), if_neg (by decide), if_pos rfl, Bencode.read_int]
          exact reads_integer s v r
        | text =>
          rw [if_neg (by decide), if_neg (by decide), if_neg (by decide), if_neg (by decide), if_pos rfl,
            Bencode.read_text]
          exact reads_text s v r
        | list =>
          have hitems := (reads_items ih fuel []).map Value.list
          rw [if_neg (by decide), if_neg (by decide), if_neg (by decide), if_neg (by decide), if_neg (by decide),
            if_neg (by decide), if_pos rfl, Bencode.read_list]
          simpa using hitems s v r
        | map =>
          have hcollect : (do
              let es ← Bencode.items (Bencode.entry lexicon (Bencode.read lexicon fuel)) fuel
              Value.map <$> Bencode.orRefuse (lexicon.collect es) : Bencode.Reader Value) =
              Value.map <$> setEntries [] <$>
                Bencode.items (Bencode.entry lexicon (Bencode.read lexicon fuel)) fuel := by
            rw [Functor.map_map, map_eq_pure_bind]
            rfl
          rw [if_neg (by decide), if_neg (by decide), if_neg (by decide), if_neg (by decide), if_neg (by decide),
            if_neg (by decide), if_neg (by decide), if_pos rfl, Bencode.read_map, hcollect]
          exact (reads_entries (reads_entry ih) fuel []).map Value.map s v r
      · have hdigit : ¬ isDigit b = true := fun hd => hb (.digit hd)
        have hnull : b ≠ 110 := fun heq => hb (heq ▸ .null)
        have htrue : b ≠ 116 := fun heq => hb (heq ▸ .true)
        have hfalse : b ≠ 102 := fun heq => hb (heq ▸ .false)
        have hint : b ≠ 105 := fun heq => hb (heq ▸ .int)
        have hlist : b ≠ 108 := fun heq => hb (heq ▸ .list)
        have hmap : b ≠ 100 := fun heq => hb (heq ▸ .map)
        have htext : b ≠ 117 := fun heq => hb (heq ▸ .text)
        rw [if_neg hnull, if_neg htrue, if_neg hfalse, if_neg hint, if_neg htext, if_neg hdigit, if_neg hlist,
          if_neg hmap, Bencode.read_other hb, Act.throw_apply]
        simp

/-- What the decoder takes a string for. -/
theorem decode_eq_ok {v : Value} : decode s = .ok v ↔ Bencode.Spells lexicon v s := by
  rw [← Bencode.readAll_eq_ok]
  have h := reads_readValue (s.length + 1) s
  rw [decode, Bencode.readAll]
  constructor
  · intro hx
    split at hx
    · rename_i hread
      rw [(h _ _).mp hread]
      exact congrArg Except.ok (Except.ok.inj hx)
    · cases hx
    · cases hx
  · intro hy
    split at hy
    · rename_i hread
      rw [(h _ _).mpr hread]
      exact congrArg Except.ok (Except.ok.inj hy)
    · cases hy
    · cases hy

/-! Every level of a value takes a byte, and so does every element. -/

theorem readValue_shortens {fuel : ℕ} {v : Value} (h : readValue fuel s = .ok v r) : r.length < s.length := by
  obtain ⟨w, rfl, hw⟩ := Bencode.read_sound ((reads_readValue fuel s v r).mp h)
  have hpos := List.length_pos_iff.mpr hw.isOpen.ne_nil
  rw [List.length_append]
  omega

section Finishes

variable {value : Decoder Value} {m : ℕ}

theorem readItems_finishes (hvalue : ∀ s s', s.length < m → value s ≠ .error .unfinished s')
    (hshort : ∀ s v r, value s = .ok v r → r.length < s.length) {n : ℕ} {items : List Value} {s s' : Bytes}
    (hn : s.length < n) (hm : s.length < m) : readItems value n items s ≠ .error .unfinished s' := by
  induction n generalizing items s with
  | zero => omega
  | succ n ih =>
    intro h
    rw [readItems] at h
    rcases Act.bind_eq_error.mp h with h | ⟨b, s₁, hb, h⟩
    · cases s <;> cases h
    · cases s with
      | nil => cases hb
      | cons x s =>
        cases hb
        rcases Act.ite_eq_error.mp h with ⟨-, h⟩ | ⟨-, h⟩
        · rcases Act.bind_eq_error.mp h with h | ⟨v, s₂, hv, h⟩
          · exact hvalue _ _ hm h
          · have hlt := hshort _ _ _ hv
            exact ih (by omega) (by omega) h
        · cases h

end Finishes

theorem readLength_finishes (taken s s' : Bytes) : readLength taken s ≠ .error .unfinished s' := by
  intro h
  rw [readLength] at h
  split at h
  · cases h
  · split_ifs at h <;> cases h

theorem readBytes_finishes (taken s s' : Bytes) : readBytes taken s ≠ .error .unfinished s' := by
  intro h
  rw [readBytes] at h
  rcases Act.bind_eq_error.mp h with h | ⟨n, s₁, -, h⟩
  · exact readLength_finishes taken s s' h
  · rw [Act.bind_of_ok (Act.get_apply s₁)] at h
    rcases Act.ite_eq_error.mp h with ⟨-, h⟩ | ⟨-, h⟩ <;> cases h

theorem text_finishes (s s' : Bytes) : (do
    let bytes ← readBytes []
    pure (.text (TextDecoder.decode bytes)) : Decoder Value) s ≠ .error .unfinished s' := by
  intro h
  rcases Act.bind_eq_error.mp h with h | ⟨data, s₁, -, h⟩
  · exact readBytes_finishes [] s s' h
  · cases h

theorem bytes_finishes (taken s s' : Bytes) : (Value.bytes <$> readBytes taken) s ≠ .error .unfinished s' :=
  fun h => readBytes_finishes taken s s' (Act.map_eq_error.mp h)

theorem readInteger_finishes (s s' : Bytes) : readInteger s ≠ .error .unfinished s' := by
  intro h
  rw [readInteger] at h
  rcases Act.bind_eq_error.mp h with h | ⟨raw, s₁, -, h⟩
  · rw [readUntil] at h
    split at h <;> cases h
  · cases hint : integerOf (TextDecoder.decode raw) with
    | error e =>
      rw [hint] at h
      cases h
    | ok z =>
      rw [hint] at h
      cases h

theorem readKey_finishes (s s' : Bytes) : readKey s ≠ .error .unfinished s' := by
  intro h
  cases s with
  | nil => cases h
  | cons b s =>
    rw [readKey, Act.bind_of_ok (take_cons b s)] at h
    rcases Act.ite_eq_error.mp h with ⟨-, h⟩ | ⟨-, h⟩
    · exact text_finishes s s' h
    · rcases Act.ite_eq_error.mp h with ⟨-, h⟩ | ⟨-, h⟩
      · exact bytes_finishes [b] s s' h
      · cases h

theorem readKey_shortens (h : readKey s = .ok k r) : r.length < s.length := by
  obtain ⟨w, rfl, hw⟩ := Bencode.read_sound ((readKey_eq_ok (n := 0)).mp h).1
  have hpos := List.length_pos_iff.mpr hw.isOpen.ne_nil
  rw [List.length_append]
  omega

theorem readEntries_finishes {value : Decoder Value} {m : ℕ}
    (hvalue : ∀ s s', s.length < m → value s ≠ .error .unfinished s')
    (hshort : ∀ s v r, value s = .ok v r → r.length < s.length) {n : ℕ} {items : List (Value × Value)} {s s' : Bytes}
    (hn : s.length < n) (hm : s.length < m) : readEntries value n items s ≠ .error .unfinished s' := by
  induction n generalizing items s with
  | zero => omega
  | succ n ih =>
    intro h
    rw [readEntries] at h
    rcases Act.bind_eq_error.mp h with h | ⟨b, s₁, hb, h⟩
    · cases s <;> cases h
    · cases s with
      | nil => cases hb
      | cons x s =>
        cases hb
        rcases Act.ite_eq_error.mp h with ⟨-, h⟩ | ⟨-, h⟩
        · rcases Act.bind_eq_error.mp h with h | ⟨k, s₂, hk, h⟩
          · exact readKey_finishes _ _ h
          · have hlt := readKey_shortens hk
            rcases Act.bind_eq_error.mp h with h | ⟨v, s₃, hv, h⟩
            · exact hvalue _ _ (by omega) h
            · have hlt' := hshort _ _ _ hv
              exact ih (by omega) (by omega) h
        · cases h

theorem readValue_finishes {fuel : ℕ} {s' : Bytes} (hfuel : s.length < fuel) :
    readValue fuel s ≠ .error .unfinished s' := by
  induction fuel generalizing s s' with
  | zero => omega
  | succ fuel ih =>
    intro h
    cases s with
    | nil => cases h
    | cons b s =>
      have hlen : s.length < fuel := by
        rw [List.length_cons] at hfuel
        omega
      rw [readValue, Act.bind_of_ok (take_cons b s)] at h
      split_ifs at h with hnull htrue hfalse hint htext hdigit hlist hmap
      · cases h
      · cases h
      · cases h
      · exact readInteger_finishes s s' (Act.map_eq_error.mp h)
      · exact text_finishes s s' h
      · exact bytes_finishes [b] s s' h
      · exact readItems_finishes (fun s s' hs => ih hs) (fun s v r hv => readValue_shortens hv) hlen hlen
          (Act.map_eq_error.mp h)
      · exact readEntries_finishes (fun s s' hs => ih hs) (fun s v r hv => readValue_shortens hv) hlen hlen
          (Act.map_eq_error.mp h)
      · cases h

theorem decode_ne_unfinished : decode s ≠ .error .unfinished := by
  intro h
  rw [decode] at h
  split at h
  · cases h
  · cases h
  · rename_i hread
    cases h
    exact readValue_finishes (Nat.lt_succ_self s.length) hread

end Values

end Script

end Bencodex

end ChiaGaming
