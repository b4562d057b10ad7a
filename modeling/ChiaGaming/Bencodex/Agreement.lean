import ChiaGaming.Bencodex.Grammar
import ChiaGaming.Bencodex.ScriptGrammar

namespace ChiaGaming

/-! The two decoders against the grammar of the format. -/

namespace Bencodex

open Bencode (Value Lexicon Spells)

/-- The grammar: integers `0|-?[1-9][0-9]*`, lengths `0|[1-9][0-9]*`, texts in UTF-8, and keys that are byte
strings or texts. -/
def strictLexicon : Lexicon where
  int tok := if isCanonicalInt tok then some (intValue tok) else none
  size tok := if isCanonicalNat tok then some (numeralValue tok) else none
  textSize tok := if isCanonicalNat tok then some (numeralValue tok) else none
  text data := if validUtf8 data then some data else none
  isKey := Script.isKey
  collect := some
  stops _ := false

def textKey? : Value × Value → Option Bytes
  | (.text t, _) => some t
  | _ => none

/-- No text is a key twice. -/
def Distinct (es : List (Value × Value)) : Prop := (es.filterMap textKey?).Nodup

instance (es : List (Value × Value)) : Decidable (Distinct es) := inferInstanceAs (Decidable (List.Nodup _))

section Lexicons

variable (bits : ℕ)

/-- The grammar within the bounds of both decoders: integers of 128 bits, lengths that are safe integers,
texts without a mark of the byte order, and no text as a key twice. -/
def plainLexicon : Lexicon where
  int tok := if isCanonicalInt tok ∧ -2 ^ 127 ≤ intValue tok ∧ intValue tok < 2 ^ 127 then some (intValue tok) else none
  size tok := if isCanonicalNat tok ∧ numeralValue tok < 2 ^ bits ∧ numeralValue tok < 2 ^ 53 then
    some (numeralValue tok) else none
  textSize tok := if isCanonicalNat tok ∧ numeralValue tok < 2 ^ bits ∧ numeralValue tok < 2 ^ 53 then
    some (numeralValue tok) else none
  text data := if validUtf8 data ∧ ¬ TextDecoder.byteOrderMark.isPrefixOf data then some data else none
  isKey := Script.isKey
  collect es := if Distinct es then some es else none
  stops := overflows bits

/-- What both decoders read alike. -/
def sharedLexicon : Lexicon where
  int tok := if integerToken tok = Script.integerToken tok then integerToken tok else none
  size tok := if sizeToken bits tok = Script.lengthToken tok then sizeToken bits tok else none
  textSize tok := if sizeToken bits tok = Script.lengthToken tok then sizeToken bits tok else none
  text data := if validUtf8 data ∧ ¬ TextDecoder.byteOrderMark.isPrefixOf data then some data else none
  isKey := Script.isKey
  collect es := if Distinct es then some es else none
  stops := overflows bits

end Lexicons

/-! Canonical tokens are taken by the front end too, and for the numbers that they spell. -/

section Tokens

variable {tok : Bytes}

/-- No white space is a digit or a sign. -/
theorem space_bytes {sp : Bytes} (h : sp ∈ Script.space) : sp ≠ [] ∧ ∀ b ∈ sp, isDigit b = false ∧ b ≠ 45 := by
  have hall : Script.space.all (fun sp => !sp.isEmpty && sp.all fun b => !isDigit b && b != 45) = true := by rfl
  have hsp := List.all_eq_true.mp hall sp h
  rw [Bool.and_eq_true, List.all_eq_true] at hsp
  obtain ⟨hne, hbytes⟩ := hsp
  refine ⟨?_, fun b hb => ?_⟩
  · rintro rfl
    cases hne
  · have hb := hbytes b hb
    rw [Bool.and_eq_true, Bool.not_eq_true', bne_iff_ne] at hb
    exact hb

theorem not_space {s sp : Bytes} (hs : ∀ b ∈ s, isDigit b = true ∨ b = 45) (hsp : sp ∈ Script.space)
    (hpart : ∀ b ∈ sp, b ∈ s) : False := by
  obtain ⟨hne, hsp⟩ := space_bytes hsp
  obtain ⟨b, t, rfl⟩ := List.exists_cons_of_ne_nil hne
  obtain ⟨hdigit, hminus⟩ := hsp b List.mem_cons_self
  rcases hs b (hpart b List.mem_cons_self) with hb | hb
  · rw [hb] at hdigit
    cases hdigit
  · exact hminus hb

theorem trim_numeral {s : Bytes} (h : ∀ b ∈ s, isDigit b = true ∨ b = 45) : Script.trim s = s := by
  have hstart : Script.space.find? (·.isPrefixOf s) = none := by
    rw [List.find?_eq_none]
    intro sp hsp hprefix
    have hpart := (List.isPrefixOf_iff_prefix.mp hprefix).subset
    exact not_space h hsp fun b hb => hpart hb
  have hend : Script.space.find? (·.isSuffixOf s) = none := by
    rw [List.find?_eq_none]
    intro sp hsp hsuffix
    have hpart := (List.isSuffixOf_iff_suffix.mp hsuffix).subset
    exact not_space h hsp fun b hb => hpart hb
  have hfront : ∀ n, Script.trimStart n s = s := by
    intro n
    cases n with
    | zero => rfl
    | succ n => rw [Script.trimStart, hstart]
  have hback : ∀ n, Script.trimEnd n s = s := by
    intro n
    cases n with
    | zero => rfl
    | succ n => rw [Script.trimEnd, hend]
  rw [Script.trim, hfront, hback]

theorem bigInt_canonicalInt (h : isCanonicalInt tok = true) : Script.bigInt tok = some (intValue tok) := by
  rw [Script.bigInt, trim_numeral (mem_canonicalInt h)]
  cases tok with
  | nil => cases h
  | cons d ds =>
    rw [isCanonicalInt] at h
    rw [intValue]
    split at h
    · rename_i hd
      simp only [hd, if_pos, readNat_canonicalNat (isCanonicalNat_of_isPositive h)]
      rfl
    · rename_i hd
      obtain ⟨-, hall, hzero⟩ := isCanonicalNat_iff.mp h
      have hplus : d.toNat ≠ 43 := by
        have := isDigit_iff.mp (List.all_eq_true.mp hall d List.mem_cons_self)
        omega
      have hvalue : (readNat (d :: ds)).map Int.ofNat = some ((numeralValue (d :: ds) : ℕ) : ℤ) := by
        rw [readNat_canonicalNat h]
        rfl
      simp only [if_neg hplus, if_neg hd]
      split
      · rename_i x digits hd48
        obtain rfl : d = 48 := UInt8.toNat_inj.mp hd48
        exact absurd ⟨by simp, by simp⟩ hzero
      · exact hvalue

theorem decode_ascii {s : Bytes} (h : ∀ b ∈ s, b < 0x80) : TextDecoder.decode s = s := by
  refine TextDecoder.decode_of_valid (validUtf8_of_ascii s h) fun hmark => ?_
  obtain ⟨t, rfl⟩ := List.isPrefixOf_iff_prefix.mp hmark
  exact absurd (h 0xef (by simp [TextDecoder.byteOrderMark])) (by decide)

theorem scriptIntegerToken_canonicalInt (h : isCanonicalInt tok = true) :
    Script.integerToken tok = some (intValue tok) := by
  have hempty : tok ≠ [] := by
    rintro rfl
    cases h
  have hminus : tok ≠ [45] := by
    rintro rfl
    exact absurd h (by decide)
  have hzero := no_leading_zero h
  rw [Script.integerToken, decode_ascii (ascii_canonicalInt h), Script.integerOf,
    if_neg (by rw [not_or, not_or]; exact ⟨hempty, hminus, hzero⟩), bigInt_canonicalInt h]

theorem lengthToken_canonicalNat (h : isCanonicalNat tok = true) (hsafe : numeralValue tok < 2 ^ 53) :
    Script.lengthToken tok = some (numeralValue tok) := by
  obtain ⟨-, hall, hzero⟩ := isCanonicalNat_iff.mp h
  have hsafe' : Script.isSafeInteger (Script.number tok) = true := decide_eq_true hsafe
  rw [Script.lengthToken, if_pos ⟨hall, hzero, hsafe'⟩]
  rfl

theorem range_of_lengthToken {n : ℕ} (h : Script.lengthToken tok = some n) : n < 2 ^ 53 := by
  rw [Script.lengthToken, Option.ite_none_right_eq_some] at h
  obtain ⟨⟨-, -, hsafe⟩, heq⟩ := h
  cases heq
  exact of_decide_eq_true hsafe

end Tokens

/-! The canonical reading is part of both, and what both read alike and in the grammar is canonical. -/

section Readings

variable {bits : ℕ}

theorem plain_within_de : (plainLexicon bits).Within (deLexicon bits) where
  int tok z h := by
    obtain ⟨⟨hcanonical, hlow, hhigh⟩, heq⟩ := Option.ite_none_right_eq_some.mp h
    exact (integerToken_canonicalInt hcanonical hlow hhigh).trans heq
  size tok n h := by
    obtain ⟨⟨hcanonical, hfits, -⟩, heq⟩ := Option.ite_none_right_eq_some.mp h
    exact (sizeToken_canonicalNat hcanonical hfits).trans heq
  textSize tok n h := by
    obtain ⟨⟨hcanonical, hfits, -⟩, heq⟩ := Option.ite_none_right_eq_some.mp h
    exact (sizeToken_canonicalNat hcanonical hfits).trans heq
  text data t h := by
    obtain ⟨⟨hutf8, -⟩, heq⟩ := Option.ite_none_right_eq_some.mp h
    exact (if_pos hutf8).trans heq
  isKey _ _ := rfl
  collect es fs h := (Option.ite_none_right_eq_some.mp h).2
  stops _ h := h

/-- Texts that are not there are put at the end. -/
theorem setEntry_of_not_mem {items : List (Value × Value)} {k v : Value}
    (h : ∀ t, k = .text t → t ∉ items.filterMap textKey?) : Script.setEntry items k v = items ++ [(k, v)] := by
  induction items with
  | nil => cases k <;> rfl
  | cons e items ih =>
    obtain ⟨k', u⟩ := e
    cases k with
    | text t =>
      have hmem := h t rfl
      cases k' with
      | text t' =>
        have hcons : ((Value.text t', u) :: items).filterMap textKey? = t' :: items.filterMap textKey? := rfl
        rw [hcons, List.mem_cons, not_or] at hmem
        rw [Script.setEntry, if_neg (Ne.symm hmem.1), ih (fun t₁ heq => by cases heq; exact hmem.2)]
        rfl
      | _ => exact congrArg _ (ih (fun t₁ heq => by cases heq; exact hmem))
    | _ => cases k' <;> exact congrArg _ (ih (fun _ heq => by cases heq))

theorem setEntry_of_mem {items : List (Value × Value)} {t : Bytes} {v : Value}
    (h : t ∈ items.filterMap textKey?) : (Script.setEntry items (.text t) v).length = items.length := by
  induction items with
  | nil => cases h
  | cons e items ih =>
    obtain ⟨k', u⟩ := e
    cases k' with
    | text t' =>
      have hcons : ((Value.text t', u) :: items).filterMap textKey? = t' :: items.filterMap textKey? := rfl
      rw [hcons] at h
      rw [Script.setEntry]
      split
      · rfl
      · rename_i hne
        rw [List.length_cons, List.length_cons, ih ((List.mem_cons.mp h).resolve_left (Ne.symm hne))]
    | _ => exact congrArg (· + 1) (ih h)

theorem length_setEntry_le (items : List (Value × Value)) (k v : Value) :
    (Script.setEntry items k v).length ≤ items.length + 1 := by
  by_cases h : ∀ t, k = .text t → t ∉ items.filterMap textKey?
  · rw [setEntry_of_not_mem h, List.length_append]
    exact Nat.le_refl _
  · push Not at h
    obtain ⟨t, rfl, hmem⟩ := h
    rw [setEntry_of_mem hmem]
    exact Nat.le_succ _

theorem setEntries_cons (items es : List (Value × Value)) (k v : Value) :
    Script.setEntries items ((k, v) :: es) = Script.setEntries (Script.setEntry items k v) es := rfl

theorem length_setEntries_le (items es : List (Value × Value)) :
    (Script.setEntries items es).length ≤ items.length + es.length := by
  induction es generalizing items with
  | nil => exact Nat.le_refl _
  | cons e es ih =>
    obtain ⟨k, v⟩ := e
    have := ih (Script.setEntry items k v)
    have := length_setEntry_le items k v
    rw [setEntries_cons, List.length_cons]
    omega

theorem setEntries_of_distinct {items es : List (Value × Value)} (h : Distinct (items ++ es)) :
    Script.setEntries items es = items ++ es := by
  induction es generalizing items with
  | nil => rw [List.append_nil]; rfl
  | cons e es ih =>
    obtain ⟨k, v⟩ := e
    have hnew : ∀ t, k = .text t → t ∉ items.filterMap textKey? := by
      rintro t rfl hmem
      rw [Distinct, List.filterMap_append, List.nodup_append] at h
      exact h.2.2 t hmem t (List.mem_filterMap.mpr ⟨_, List.mem_cons_self, rfl⟩) rfl
    rw [setEntries_cons, setEntry_of_not_mem hnew, ih (by rw [List.append_assoc]; exact h), List.append_assoc]
    rfl

/-- An entry is lost where a text is a key again. -/
theorem distinct_of_length {items es : List (Value × Value)} (hitems : Distinct items)
    (h : (Script.setEntries items es).length = items.length + es.length) : Distinct (items ++ es) := by
  induction es generalizing items with
  | nil => rwa [List.append_nil]
  | cons e es ih =>
    obtain ⟨k, v⟩ := e
    have hle := length_setEntries_le (Script.setEntry items k v) es
    rw [setEntries_cons, List.length_cons] at h
    by_cases hnew : ∀ t, k = .text t → t ∉ items.filterMap textKey?
    · have hitems' : Distinct (items ++ [(k, v)]) := by
        rw [Distinct, List.filterMap_append, List.nodup_append]
        refine ⟨hitems, ?_, ?_⟩
        · cases k with
          | text t => exact List.nodup_singleton t
          | _ => exact List.nodup_nil
        · rintro t hmem t' hmem' rfl
          obtain ⟨e, he, hkey⟩ := List.mem_filterMap.mp hmem'
          rw [List.mem_singleton.mp he] at hkey
          cases k with
          | text t₁ =>
            cases hkey
            exact hnew _ rfl hmem
          | _ => cases hkey
      rw [setEntry_of_not_mem hnew] at h
      have hrest := ih hitems' (by rw [List.length_append, List.length_singleton]; omega)
      rwa [List.append_assoc] at hrest
    · push Not at hnew
      obtain ⟨t, rfl, hmem⟩ := hnew
      rw [setEntry_of_mem hmem] at hle
      omega

theorem plain_within_script : (plainLexicon bits).Within Script.lexicon where
  int tok z h := by
    obtain ⟨⟨hcanonical, -⟩, heq⟩ := Option.ite_none_right_eq_some.mp h
    exact (scriptIntegerToken_canonicalInt hcanonical).trans heq
  size tok n h := by
    obtain ⟨⟨hcanonical, -, hsafe⟩, heq⟩ := Option.ite_none_right_eq_some.mp h
    exact (lengthToken_canonicalNat hcanonical hsafe).trans heq
  textSize tok n h := by
    obtain ⟨⟨hcanonical, -, hsafe⟩, heq⟩ := Option.ite_none_right_eq_some.mp h
    exact (lengthToken_canonicalNat hcanonical hsafe).trans heq
  text data t h := by
    obtain ⟨⟨hutf8, hmark⟩, heq⟩ := Option.ite_none_right_eq_some.mp h
    exact (congrArg some (TextDecoder.decode_of_valid hutf8 hmark)).trans heq
  isKey _ h := h
  collect es fs h := by
    obtain ⟨hdistinct, heq⟩ := Option.ite_none_right_eq_some.mp h
    exact (congrArg some (@setEntries_of_distinct [] _ hdistinct)).trans heq
  stops _ _ := rfl

theorem plain_within_strict : (plainLexicon bits).Within strictLexicon where
  int tok z h := by
    obtain ⟨⟨hcanonical, -⟩, heq⟩ := Option.ite_none_right_eq_some.mp h
    exact (if_pos hcanonical).trans heq
  size tok n h := by
    obtain ⟨⟨hcanonical, -⟩, heq⟩ := Option.ite_none_right_eq_some.mp h
    exact (if_pos hcanonical).trans heq
  textSize tok n h := by
    obtain ⟨⟨hcanonical, -⟩, heq⟩ := Option.ite_none_right_eq_some.mp h
    exact (if_pos hcanonical).trans heq
  text data t h := by
    obtain ⟨⟨hutf8, -⟩, heq⟩ := Option.ite_none_right_eq_some.mp h
    exact (if_pos hutf8).trans heq
  isKey _ h := h
  collect es fs h := (Option.ite_none_right_eq_some.mp h).2
  stops _ _ := rfl

theorem sizeToken_eq_lengthToken {tok : Bytes} {n m : ℕ} (hn : sizeToken bits tok = some n)
    (hm : Script.lengthToken tok = some m) : n = m := by
  obtain ⟨⟨hall, hzero, -⟩, hvalue⟩ := Option.ite_none_right_eq_some.mp hm
  have hne : tok ≠ [] := by
    rintro rfl
    cases hn
  rw [eq_numeralValue_of_sizeToken (isCanonicalNat_iff.mpr ⟨hne, hall, hzero⟩) hn]
  exact Option.some.inj hvalue

theorem shared_meets : (sharedLexicon bits).Meets (deLexicon bits) Script.lexicon where
  int tok z h h' := (if_pos (h.trans h'.symm)).trans h
  size tok n m h h' := by
    obtain rfl := sizeToken_eq_lengthToken h h'
    exact ⟨rfl, (if_pos (h.trans h'.symm)).trans h⟩
  textSize tok n m h h' := by
    obtain rfl := sizeToken_eq_lengthToken h h'
    exact ⟨rfl, (if_pos (h.trans h'.symm)).trans h⟩
  text data t h h' := by
    obtain ⟨hutf8, heq⟩ := Option.ite_none_right_eq_some.mp h
    have hself : TextDecoder.decode data = data := Option.some.inj (h'.trans heq.symm)
    exact (if_pos ⟨hutf8, (TextDecoder.decode_eq_self_iff hutf8).mp hself⟩).trans heq
  isKey _ _ h' := h'
  collect es es' fs hlen h h' := by
    obtain rfl := Option.some.inj h
    have hset : Script.setEntries [] es' = es := Option.some.inj h'
    have hdistinct : Distinct es' :=
      @distinct_of_length [] _ List.nodup_nil (by rw [hset, hlen, List.length_nil, Nat.zero_add])
    obtain rfl := hset.symm.trans (@setEntries_of_distinct [] _ hdistinct)
    exact ⟨rfl, if_pos hdistinct⟩
  stops _ h _ := h

theorem plain_meets : (plainLexicon bits).Meets (sharedLexicon bits) strictLexicon where
  int tok z h h' := by
    obtain ⟨-, hint⟩ := Option.ite_none_right_eq_some.mp h
    obtain ⟨hcanonical, heq⟩ := Option.ite_none_right_eq_some.mp h'
    rw [← heq] at hint
    exact (if_pos ⟨hcanonical, range_of_integerToken hint⟩).trans heq
  size tok n m h h' := by
    obtain ⟨hshared, hsize⟩ := Option.ite_none_right_eq_some.mp h
    obtain ⟨hcanonical, heq⟩ := Option.ite_none_right_eq_some.mp h'
    have hfits := range_of_sizeToken hsize
    have hsafe := range_of_lengthToken (hshared.symm.trans hsize)
    rw [eq_numeralValue_of_sizeToken hcanonical hsize] at hfits hsafe ⊢
    exact ⟨Option.some.inj heq, if_pos ⟨hcanonical, hfits, hsafe⟩⟩
  textSize tok n m h h' := by
    obtain ⟨hshared, hsize⟩ := Option.ite_none_right_eq_some.mp h
    obtain ⟨hcanonical, heq⟩ := Option.ite_none_right_eq_some.mp h'
    have hfits := range_of_sizeToken hsize
    have hsafe := range_of_lengthToken (hshared.symm.trans hsize)
    rw [eq_numeralValue_of_sizeToken hcanonical hsize] at hfits hsafe ⊢
    exact ⟨Option.some.inj heq, if_pos ⟨hcanonical, hfits, hsafe⟩⟩
  text data t h _ := h
  isKey _ h _ := h
  collect es es' fs _ h h' := by
    obtain ⟨hdistinct, heq⟩ := Option.ite_none_right_eq_some.mp h
    cases heq
    exact ⟨(Option.some.inj h').symm, if_pos hdistinct⟩
  stops _ h _ := h

theorem strict_rigid : strictLexicon.Rigid where
  int tok tok' z h h' := by
    obtain ⟨hcanonical, heq⟩ := Option.ite_none_right_eq_some.mp h
    obtain ⟨hcanonical', heq'⟩ := Option.ite_none_right_eq_some.mp h'
    exact canonicalInt_unique hcanonical hcanonical' (Option.some.inj (heq.trans heq'.symm))
  size tok tok' n h h' := by
    obtain ⟨hcanonical, heq⟩ := Option.ite_none_right_eq_some.mp h
    obtain ⟨hcanonical', heq'⟩ := Option.ite_none_right_eq_some.mp h'
    exact canonicalNat_unique hcanonical hcanonical' (Option.some.inj (heq.trans heq'.symm))
  textSize tok tok' n h h' := by
    obtain ⟨hcanonical, heq⟩ := Option.ite_none_right_eq_some.mp h
    obtain ⟨hcanonical', heq'⟩ := Option.ite_none_right_eq_some.mp h'
    exact canonicalNat_unique hcanonical hcanonical' (Option.some.inj (heq.trans heq'.symm))
  text data data' t h h' := by
    obtain ⟨-, heq⟩ := Option.ite_none_right_eq_some.mp h
    obtain ⟨-, heq'⟩ := Option.ite_none_right_eq_some.mp h'
    exact Option.some.inj (heq.trans heq'.symm)
  collect es es' fs h h' := Option.some.inj (h.trans h'.symm)

end Readings

/-! The two decoders side by side. -/

/-- Both take the string for `v`, and the grammar does. -/
def BothRead (bits : ℕ) (s : Bytes) (v : Value) : Prop :=
  decodeValue bits s = .ok v ∧ Script.decode s = .ok v ∧ Spells strictLexicon v s

def BothRefuse (bits : ℕ) (s : Bytes) : Prop :=
  (∃ e, decodeValue bits s = .error (.error e)) ∧ ∃ e, Script.decode s = .error (.error e)

/-- No length overflows, and what is written for either decoder is written plainly. -/
def PlainFor (bits : ℕ) (s : Bytes) : Prop :=
  ¬ Bencode.Stops (deLexicon bits) s ∧
    ∀ v, Spells (deLexicon bits) v s ∨ Spells Script.lexicon v s → Spells (plainLexicon bits) v s

section Decoders

variable {bits : ℕ} {s : Bytes} {v : Value}

theorem decodeValue_refuses (hstops : ¬ Bencode.Stops (deLexicon bits) s)
    (h : ∀ v, ¬ Spells (deLexicon bits) v s) : ∃ e, decodeValue bits s = .error (.error e) := by
  cases hdecode : decodeValue bits s with
  | ok v => exact absurd (decodeValue_eq_ok.mp hdecode) (h v)
  | error f =>
    cases f with
    | error e => exact ⟨e, rfl⟩
    | panic => exact absurd (decodeValue_eq_panic.mp hdecode) hstops
    | unfinished => exact absurd hdecode decodeValue_ne_unfinished

theorem script_refuses (h : ∀ v, ¬ Spells Script.lexicon v s) : ∃ e, Script.decode s = .error (.error e) := by
  cases hdecode : Script.decode s with
  | ok v => exact absurd (Script.decode_eq_ok.mp hdecode) (h v)
  | error f =>
    cases f with
    | error e => exact ⟨e, rfl⟩
    | unfinished => exact absurd hdecode Script.decode_ne_unfinished

theorem bothRead_of_plain (h : Spells (plainLexicon bits) v s) : BothRead bits s v :=
  ⟨decodeValue_eq_ok.mpr (h.mono plain_within_de), Script.decode_eq_ok.mpr (h.mono plain_within_script),
    h.mono plain_within_strict⟩

theorem plain_of_bothRead (h : BothRead bits s v) : Spells (plainLexicon bits) v s := by
  obtain ⟨hde, hscript, hstrict⟩ := h
  have hshared := (decodeValue_eq_ok.mp hde).meet shared_meets (Script.decode_eq_ok.mp hscript)
  exact hshared.meet plain_meets hstrict

theorem plainFor_iff : BothRefuse bits s ∨ (∃ v, BothRead bits s v) ↔ PlainFor bits s := by
  constructor
  · rintro (⟨⟨e, hde⟩, e', hscript⟩ | ⟨v, hv⟩)
    · refine ⟨fun hstops => ?_, ?_⟩
      · rw [decodeValue_eq_panic.mpr hstops] at hde
        cases hde
      · rintro v (hv | hv)
        · rw [decodeValue_eq_ok.mpr hv] at hde
          cases hde
        · rw [Script.decode_eq_ok.mpr hv] at hscript
          cases hscript
    · have hde := decodeValue_eq_ok.mp hv.1
      have hscript := Script.decode_eq_ok.mp hv.2.1
      refine ⟨fun hstops => hstops.not_spells v hde, ?_⟩
      rintro w (hw | hw)
      · rw [hw.unique hde]
        exact plain_of_bothRead hv
      · rw [hw.unique hscript]
        exact plain_of_bothRead hv
  · rintro ⟨hstops, hplain⟩
    by_cases hread : ∃ v, Spells (deLexicon bits) v s ∨ Spells Script.lexicon v s
    · obtain ⟨v, hv⟩ := hread
      exact .inr ⟨v, bothRead_of_plain (hplain v hv)⟩
    · exact .inl ⟨decodeValue_refuses hstops fun v hv => hread ⟨v, .inl hv⟩,
        script_refuses fun v hv => hread ⟨v, .inr hv⟩⟩

/-- The decoders agree on a string, and with the grammar, exactly if it is written plainly; what they agree
on is spelled in one way. -/
theorem decoders_agree_iff (bits : ℕ) :
    (∀ s, BothRefuse bits s ∨ (∃ v, BothRead bits s v) ↔ PlainFor bits s) ∧
      ∀ v s s', PlainFor bits s → PlainFor bits s' →
        (decodeValue bits s = .ok v ∨ Script.decode s = .ok v) →
        (decodeValue bits s' = .ok v ∨ Script.decode s' = .ok v) → s = s' := by
  refine ⟨fun s => plainFor_iff, fun v s s' hs hs' h h' => ?_⟩
  have hstrict : ∀ w, PlainFor bits w → decodeValue bits w = .ok v ∨ Script.decode w = .ok v →
      Spells strictLexicon v w := by
    intro w hw hread
    refine (hw.2 v ?_).mono plain_within_strict
    exact hread.imp decodeValue_eq_ok.mp Script.decode_eq_ok.mp
  exact (hstrict s hs h).rigid strict_rigid (hstrict s' hs' h')

/-- `03:abc` is a byte string for the one decoder and refused by the other. -/
theorem leading_zero_disagrees :
    ¬ ∀ s, BothRefuse 64 s ∨ ∃ v, BothRead 64 s v := by
  intro h
  have hde : decodeValue 64 [48, 51, 58, 97, 98, 99] = .ok (.bytes [97, 98, 99]) := by rfl
  have hscript : Script.decode [48, 51, 58, 97, 98, 99] = .error (.error .invalidByteStringLength) := by rfl
  rcases h [48, 51, 58, 97, 98, 99] with ⟨⟨e, he⟩, -⟩ | ⟨v, -, hv, -⟩
  · rw [hde] at he
    cases he
  · rw [hscript] at hv
    cases hv

end Decoders

end Bencodex

end ChiaGaming
