import ChiaGaming.Bencodex.Agreement
import ChiaGaming.Bencodex.RoundTrip
import ChiaGaming.Lib.Result

namespace ChiaGaming

/-! The encoder of the front end, and that both decoders read what it writes. -/

namespace Bencodex

namespace Script

open Bencode (Value Spells)

inductive Key where
  | string (s : Text)
  | uint8Array (b : Bytes)
  | other

/-- What the encoder is given.  A string is what `TextEncoder` makes of it, a number may be no integer, and a
`Map` or a plain object is its entries. -/
inductive Data where
  | null
  | boolean (b : Bool)
  | bigint (z : ℤ)
  | number (n : Option ℤ)
  | string (s : Text)
  | uint8Array (b : Bytes)
  | array (items : List Data)
  | map (entries : List (Key × Data))
  | other (type : String)

inductive EncodeError where
  | dictionaryKey
  | unsafeNumber
  | unsupported (type : String)

def encodeBytes (bytes : Bytes) : Bytes := decimal bytes.length ++ 58 :: bytes

def encodeText (s : Bytes) : Bytes := 117 :: (decimal s.length ++ 58 :: s)

def encodeInteger (z : ℤ) : Bytes := 105 :: (decimalInt z ++ [101])

/-! The order of a dictionary. -/

structure SortKey where
  kind : ℕ
  bytes : Bytes
  encoded : Bytes

def keySortValue : Key → Except EncodeError SortKey
  | .string s => .ok ⟨1, s.1, encodeText s.1⟩
  | .uint8Array b => .ok ⟨0, b, encodeBytes b⟩
  | .other => .error .dictionaryKey

def compareBytes : Bytes → Bytes → ℤ
  | a :: as, b :: bs => if a ≠ b then (a.toNat : ℤ) - b.toNat else compareBytes as bs
  | as, bs => (as.length : ℤ) - bs.length

/-- By the kind and then by the bytes of the keys. -/
def compareKeys (a b : ℕ × Bytes) : ℤ :=
  if a.1 ≠ b.1 then (a.1 : ℤ) - b.1 else compareBytes a.2 b.2

def sortBy {α : Type} (key : α → ℕ × Bytes) (l : List α) : List α :=
  l.insertionSort fun a b => compareKeys (key a) (key b) ≤ 0

def isSafeNumber (z : ℤ) : Bool := -2 ^ 53 < z ∧ z < 2 ^ 53

mutual

def encode : Data → Except EncodeError Bytes
  | .null => .ok [110]
  | .boolean b => .ok [if b then 116 else 102]
  | .bigint z => .ok (encodeInteger z)
  | .number none => .error .unsafeNumber
  | .number (some z) => if isSafeNumber z then .ok (encodeInteger z) else .error .unsafeNumber
  | .string s => .ok (encodeText s.1)
  | .uint8Array b => .ok (encodeBytes b)
  | .array items => do
    let parts ← encodeItems items
    .ok (108 :: parts.flatten ++ [101])
  | .map entries => do
    let encodedEntries ← encodeEntries entries
    .ok (100 :: ((sortBy (fun e => (e.1.kind, e.1.bytes)) encodedEntries).map fun e => e.1.encoded ++ e.2).flatten
      ++ [101])
  | .other type => .error (.unsupported type)

def encodeItems : List Data → Except EncodeError (List Bytes)
  | [] => .ok []
  | item :: items => do
    let part ← encode item
    let parts ← encodeItems items
    .ok (part :: parts)

def encodeEntries : List (Key × Data) → Except EncodeError (List (SortKey × Bytes))
  | [] => .ok []
  | (key, item) :: entries => do
    let sortKey ← keySortValue key
    let value ← encode item
    let encodedEntries ← encodeEntries entries
    .ok ((sortKey, value) :: encodedEntries)

end

/-! The value that is read back.  What the encoder refuses has none that counts. -/

def Key.value : Key → Value
  | .string s => .text s.1
  | .uint8Array b => .bytes b
  | .other => .null

def orderOf : Value → ℕ × Bytes
  | .text t => (1, t)
  | .bytes b => (0, b)
  | _ => (0, [])

mutual

def Data.value : Data → Value
  | .null => .null
  | .boolean b => .bool b
  | .bigint z => .int z
  | .number n => .int (n.getD 0)
  | .string s => .text s.1
  | .uint8Array b => .bytes b
  | .array items => .list (values items)
  | .map entries => .map (sortBy (fun e => orderOf e.1) (entryValues entries))
  | .other _ => .null

def values : List Data → List Value
  | [] => []
  | item :: items => item.value :: values items

def entryValues : List (Key × Data) → List (Value × Value)
  | [] => []
  | (key, item) :: entries => (key.value, item.value) :: entryValues entries

end

/-- A text that begins with a mark of the byte order loses it. -/
def Unmarked (s : Text) : Prop := ¬ TextDecoder.byteOrderMark.isPrefixOf s.1

def Key.Shared : Key → Prop
  | .string s => Unmarked s
  | _ => True

mutual

/-- What both decoders can hold: integers of 128 bits, texts without a mark, and no text as a key twice. -/
def Data.Shared : Data → Prop
  | .bigint z => -2 ^ 127 ≤ z ∧ z < 2 ^ 127
  | .string s => Unmarked s
  | .array items => ItemsShared items
  | .map entries => EntriesShared entries ∧ Distinct (entryValues entries)
  | _ => True

def ItemsShared : List Data → Prop
  | [] => True
  | item :: items => item.Shared ∧ ItemsShared items

def EntriesShared : List (Key × Data) → Prop
  | [] => True
  | (key, item) :: entries => (key.Shared ∧ item.Shared) ∧ EntriesShared entries

end

/-! Tokens. -/

section Tokens

variable {bits : ℕ}

/-- Within the lengths of both decoders. -/
def Short (bits : ℕ) (s : Bytes) : Prop := s.length < 2 ^ bits ∧ s.length < 2 ^ 53

theorem Short.of_le {s t : Bytes} (h : Short bits t) (hle : s.length ≤ t.length) : Short bits s :=
  ⟨Nat.lt_of_le_of_lt hle h.1, Nat.lt_of_le_of_lt hle h.2⟩

theorem spells_integer {z : ℤ} (hlow : -2 ^ 127 ≤ z) (hhigh : z < 2 ^ 127) :
    Spells (plainLexicon bits) (.int z) (encodeInteger z) := by
  obtain ⟨hvalue, hcanonical⟩ := decimalInt_eq z
  have hmem : (101 : UInt8) ∉ decimalInt z := by
    intro hmem
    rcases mem_canonicalInt hcanonical 101 hmem with h | h
    · exact absurd h (by decide)
    · exact absurd h (by decide)
  refine .int hmem (Option.ite_none_right_eq_some.mpr ⟨⟨hcanonical, ?_⟩, congrArg some hvalue⟩)
  rw [hvalue]
  exact ⟨hlow, hhigh⟩

/-- A length as it is written. -/
theorem plain_length {n : ℕ} (hfits : (decimal n).length + 1 + n < 2 ^ bits) (hsafe : n < 2 ^ 53) :
    (plainLexicon bits).size (decimal n) = some n ∧ (plainLexicon bits).textSize (decimal n) = some n ∧
      (plainLexicon bits).stops (decimal n) = false := by
  obtain ⟨hvalue, hcanonical⟩ := decimal_eq n
  have hsize : (plainLexicon bits).size (decimal n) = some n := by
    refine Option.ite_none_right_eq_some.mpr ⟨⟨hcanonical, ?_⟩, congrArg some hvalue⟩
    rw [hvalue]
    exact ⟨by omega, hsafe⟩
  have htoken : sizeToken bits (decimal n) = some n := by
    rw [sizeToken_canonicalNat hcanonical (by rw [hvalue]; omega), hvalue]
  refine ⟨hsize, hsize, ?_⟩
  show overflows bits (decimal n) = false
  rw [overflows, htoken]
  exact decide_eq_false (by omega)

theorem length_encodeBytes (b : Bytes) : (encodeBytes b).length = (decimal b.length).length + 1 + b.length := by
  rw [encodeBytes, List.length_append, List.length_cons]
  omega

theorem spells_bytes {b : Bytes} (h : Short bits (encodeBytes b)) :
    Spells (plainLexicon bits) (.bytes b) (encodeBytes b) := by
  rw [Short, length_encodeBytes] at h
  obtain ⟨hsize, -, hgoes⟩ := plain_length h.1 (by omega)
  have hcolon := decimal_not_mem (show isDigit 58 = false by decide) b.length
  obtain ⟨d, ds, hds, hd, -⟩ := decimal_digits b.length
  rw [encodeBytes]
  rw [hds] at hsize hgoes hcolon ⊢
  exact .bytes hd hcolon hgoes hsize

theorem spells_text {s : Text} (hmark : Unmarked s) (h : Short bits (encodeText s.1)) :
    Spells (plainLexicon bits) (.text s.1) (encodeText s.1) := by
  have hlength : (encodeText s.1).length = (decimal s.1.length).length + 1 + s.1.length + 1 :=
    congrArg (· + 1) (length_encodeBytes s.1)
  rw [Short, hlength] at h
  obtain ⟨-, hsize, hgoes⟩ := @plain_length bits s.1.length (by omega) (by omega)
  exact .text (decimal_not_mem (by decide) _) hgoes hsize (if_pos ⟨s.2, hmark⟩)

end Tokens

/-! Dictionaries. -/

theorem map_sortBy {α β : Type} {f : α → β} {key : α → ℕ × Bytes} {key' : β → ℕ × Bytes}
    (h : ∀ a, key' (f a) = key a) (l : List α) : (sortBy key l).map f = sortBy key' (l.map f) :=
  List.map_insertionSort _ _ f l fun a _ b _ => by rw [h a, h b]

theorem sortBy_perm {α : Type} (key : α → ℕ × Bytes) (l : List α) : (sortBy key l).Perm l :=
  List.perm_insertionSort _ l

theorem distinct_of_perm {es es' : List (Value × Value)} (h : Distinct es) (hperm : es.Perm es') : Distinct es' :=
  ((hperm.filterMap textKey?).nodup_iff).mp h

section Reading

variable {bits : ℕ}

theorem key_spells {key : Key} {sortKey : SortKey} (h : keySortValue key = .ok sortKey) (hkey : key.Shared)
    (hshort : Short bits sortKey.encoded) : isKey key.value = true ∧
      Spells (plainLexicon bits) key.value sortKey.encoded ∧ orderOf key.value = (sortKey.kind, sortKey.bytes) := by
  cases key with
  | string s =>
    obtain rfl := Except.ok.inj h
    exact ⟨rfl, spells_text hkey hshort, rfl⟩
  | uint8Array b =>
    obtain rfl := Except.ok.inj h
    exact ⟨rfl, spells_bytes hshort, rfl⟩
  | other => cases h

/-- An entry with its spelling, as the encoder holds it. -/
def encodedOf (p : (Value × Bytes) × (Value × Bytes)) : SortKey × Bytes :=
  (⟨(orderOf p.1.1).1, (orderOf p.1.1).2, p.1.2⟩, p.2.2)

def valueOf (p : (Value × Bytes) × (Value × Bytes)) : Value × Value := (p.1.1, p.2.1)

mutual

/-- What is written spells the value. -/
theorem encode_spells : (v : Data) → v.Shared → ∀ {s : Bytes}, encode v = .ok s → Short bits s →
    Spells (plainLexicon bits) v.value s
  | .null, _, s, h, _ => by
    rw [encode] at h
    obtain rfl := Except.ok.inj h
    exact .null
  | .boolean true, _, s, h, _ => by
    rw [encode] at h
    obtain rfl := Except.ok.inj h
    exact .true
  | .boolean false, _, s, h, _ => by
    rw [encode] at h
    obtain rfl := Except.ok.inj h
    exact .false
  | .bigint z, hv, s, h, _ => by
    rw [encode] at h
    rw [Data.Shared] at hv
    obtain rfl := Except.ok.inj h
    exact spells_integer hv.1 hv.2
  | .number none, _, s, h, _ => by
    rw [encode] at h
    cases h
  | .number (some z), _, s, h, _ => by
    rw [encode] at h
    split at h
    · rename_i hsafe
      obtain ⟨hlow, hhigh⟩ := of_decide_eq_true hsafe
      obtain rfl := Except.ok.inj h
      have hlow' : -2 ^ 127 ≤ z := by omega
      have hhigh' : z < 2 ^ 127 := by omega
      exact spells_integer hlow' hhigh'
    · cases h
  | .string s, hv, w, h, hshort => by
    rw [encode] at h
    rw [Data.Shared] at hv
    obtain rfl := Except.ok.inj h
    exact spells_text hv hshort
  | .uint8Array b, _, s, h, hshort => by
    rw [encode] at h
    obtain rfl := Except.ok.inj h
    exact spells_bytes hshort
  | .array items, hv, s, h, hshort => by
    rw [encode] at h
    rw [Data.Shared] at hv
    obtain ⟨parts, hparts, h⟩ := bind_eq_ok.mp h
    obtain rfl := Except.ok.inj h
    obtain ⟨ps, hvalues, rfl, hspells⟩ := encodeItems_spells items hv hparts fun part hpart => by
      have hle := (List.sublist_flatten_of_mem hpart).length_le
      refine hshort.of_le ?_
      rw [List.length_append, List.length_cons]
      omega
    rw [Data.value, ← hvalues]
    exact .list hspells
  | .map entries, hv, s, h, hshort => by
    rw [encode] at h
    rw [Data.Shared] at hv
    obtain ⟨encodedEntries, hencoded, h⟩ := bind_eq_ok.mp h
    obtain rfl := Except.ok.inj h
    obtain ⟨ps, hvalues, rfl, hspells⟩ := encodeEntries_spells entries hv.1 hencoded fun e he => by
      have hmem := (sortBy_perm (fun e : SortKey × Bytes => (e.1.kind, e.1.bytes)) _).mem_iff.mpr he
      have hle := (List.sublist_flatten_of_mem
        (List.mem_map_of_mem (f := fun e : SortKey × Bytes => e.1.encoded ++ e.2) hmem)).length_le
      rw [List.length_append] at hle
      refine ⟨hshort.of_le ?_, hshort.of_le ?_⟩ <;> rw [List.length_append, List.length_cons] <;> omega
    -- the entries are put in order with their values
    have hsorted : (sortBy (fun p => orderOf p.1.1) ps).map encodedOf =
        sortBy (fun e => (e.1.kind, e.1.bytes)) (ps.map encodedOf) := map_sortBy (fun _ => by rfl) ps
    have hordered : (sortBy (fun p => orderOf p.1.1) ps).map valueOf =
        sortBy (fun e => orderOf e.1) (ps.map valueOf) := map_sortBy (fun _ => by rfl) ps
    have hperm := sortBy_perm (fun p : (Value × Bytes) × (Value × Bytes) => orderOf p.1.1) ps
    rw [Data.value, ← hvalues, ← hordered, ← hsorted, List.map_map]
    refine .map (fun p hp => (hspells p (hperm.mem_iff.mp hp)).1) (fun p hp => (hspells p (hperm.mem_iff.mp hp)).2.1)
      (fun p hp => (hspells p (hperm.mem_iff.mp hp)).2.2) (if_pos ?_)
    rw [← hvalues] at hv
    exact distinct_of_perm hv.2 (hperm.map valueOf).symm
  | .other type, _, s, h, _ => by
    rw [encode] at h
    cases h

theorem encodeItems_spells : (items : List Data) → ItemsShared items → ∀ {parts : List Bytes},
    encodeItems items = .ok parts → (∀ part ∈ parts, Short bits part) →
    ∃ ps : List (Value × Bytes), ps.map Prod.fst = values items ∧ ps.map Prod.snd = parts ∧
      ∀ p ∈ ps, Spells (plainLexicon bits) p.1 p.2
  | [], _, parts, h, _ => by
    rw [encodeItems] at h
    obtain rfl := Except.ok.inj h
    exact ⟨[], by rw [values]; rfl, rfl, by simp⟩
  | item :: items, hshared, parts, h, hshort => by
    rw [encodeItems] at h
    rw [ItemsShared] at hshared
    obtain ⟨part, hpart, h⟩ := bind_eq_ok.mp h
    obtain ⟨rest, hrest, h⟩ := bind_eq_ok.mp h
    obtain rfl := Except.ok.inj h
    have hfirst := encode_spells item hshared.1 hpart (hshort part List.mem_cons_self)
    obtain ⟨ps, hvalues, rfl, hspells⟩ := encodeItems_spells items hshared.2 hrest
      fun part hmem => hshort part (List.mem_cons_of_mem _ hmem)
    refine ⟨(item.value, part) :: ps, by rw [values, List.map_cons, hvalues], rfl, ?_⟩
    exact List.forall_mem_cons.mpr ⟨hfirst, hspells⟩

theorem encodeEntries_spells : (entries : List (Key × Data)) → EntriesShared entries →
    ∀ {encodedEntries : List (SortKey × Bytes)}, encodeEntries entries = .ok encodedEntries →
    (∀ e ∈ encodedEntries, Short bits e.1.encoded ∧ Short bits e.2) →
    ∃ ps : List ((Value × Bytes) × (Value × Bytes)), ps.map valueOf = entryValues entries ∧
      ps.map encodedOf = encodedEntries ∧ ∀ p ∈ ps, isKey p.1.1 = true ∧
        Spells (plainLexicon bits) p.1.1 p.1.2 ∧ Spells (plainLexicon bits) p.2.1 p.2.2
  | [], _, encodedEntries, h, _ => by
    rw [encodeEntries] at h
    obtain rfl := Except.ok.inj h
    exact ⟨[], by rw [entryValues]; rfl, rfl, by simp⟩
  | (key, item) :: entries, hshared, encodedEntries, h, hshort => by
    rw [encodeEntries] at h
    rw [EntriesShared] at hshared
    obtain ⟨sortKey, hkey, h⟩ := bind_eq_ok.mp h
    obtain ⟨w, hitem, h⟩ := bind_eq_ok.mp h
    obtain ⟨rest, hrest, h⟩ := bind_eq_ok.mp h
    obtain rfl := Except.ok.inj h
    obtain ⟨hk, hv⟩ := hshort _ List.mem_cons_self
    obtain ⟨hiskey, hspelled, horder⟩ := key_spells hkey hshared.1.1 hk
    have hvalue := encode_spells item hshared.1.2 hitem hv
    obtain ⟨ps, hvalues, rfl, hspells⟩ := encodeEntries_spells entries hshared.2 hrest
      fun e hmem => hshort e (List.mem_cons_of_mem _ hmem)
    refine ⟨((key.value, sortKey.encoded), (item.value, w)) :: ps, ?_, ?_, ?_⟩
    · rw [entryValues, List.map_cons, hvalues]
      rfl
    · rw [List.map_cons, encodedOf, horder]
    · exact List.forall_mem_cons.mpr ⟨⟨hiskey, hspelled, hvalue⟩, hspells⟩

end

/-- A value that can be written plainly. -/
inductive Plain : Value → Prop where
  | null : Plain .null
  | bool (b : Bool) : Plain (.bool b)
  | int {z : ℤ} (h : -2 ^ 127 ≤ z ∧ z < 2 ^ 127) : Plain (.int z)
  | bytes (b : Bytes) : Plain (.bytes b)
  | text {t : Bytes} (h : ¬ TextDecoder.byteOrderMark.isPrefixOf t) : Plain (.text t)
  | list {items : List Value} (h : ∀ v ∈ items, Plain v) : Plain (.list items)
  | map {entries : List (Value × Value)} (hk : ∀ e ∈ entries, Plain e.1) (hv : ∀ e ∈ entries, Plain e.2)
      (hdistinct : Distinct entries) : Plain (.map entries)

theorem plain_of_spells {v : Value} {s : Bytes} (h : Spells (plainLexicon bits) v s) : Plain v := by
  induction h with
  | null => exact .null
  | true => exact .bool true
  | false => exact .bool false
  | int _ hint =>
    obtain ⟨⟨-, hrange⟩, heq⟩ := Option.ite_none_right_eq_some.mp hint
    cases heq
    exact .int hrange
  | bytes => exact .bytes _
  | text _ _ _ htext =>
    obtain ⟨⟨-, hmark⟩, heq⟩ := Option.ite_none_right_eq_some.mp htext
    cases heq
    exact .text hmark
  | list _ ih =>
    refine .list fun v hv => ?_
    obtain ⟨p, hp, rfl⟩ := List.mem_map.mp hv
    exact ih p hp
  | @map entries es _ _ _ hes ihk ihv =>
    obtain ⟨hdistinct, heq⟩ := Option.ite_none_right_eq_some.mp hes
    cases heq
    refine .map (fun e he => ?_) (fun e he => ?_) hdistinct
    · obtain ⟨p, hp, rfl⟩ := List.mem_map.mp he
      exact ihk p hp
    · obtain ⟨p, hp, rfl⟩ := List.mem_map.mp he
      exact ihv p hp

theorem key_shared_of_plain {key : Key} (h : Plain key.value) : key.Shared := by
  cases key with
  | string s =>
    cases h with
    | text hmark => exact hmark
  | _ => trivial

mutual

/-- Only such a value has a plain one. -/
theorem shared_of_plain : (v : Data) → Plain v.value → v.Shared
  | .bigint z, h => by
    rw [Data.value] at h
    rw [Data.Shared]
    cases h with
    | int hrange => exact hrange
  | .string s, h => by
    rw [Data.value] at h
    rw [Data.Shared]
    cases h with
    | text hmark => exact hmark
  | .array items, h => by
    rw [Data.value] at h
    rw [Data.Shared]
    cases h with
    | list hitems => exact itemsShared_of_plain items hitems
  | .map entries, h => by
    rw [Data.value] at h
    rw [Data.Shared]
    have hperm := sortBy_perm (fun e : Value × Value => orderOf e.1) (entryValues entries)
    cases h with
    | map hk hv hdistinct =>
      refine ⟨entriesShared_of_plain entries fun e he => ?_, distinct_of_perm hdistinct hperm⟩
      have hmem := hperm.mem_iff.mpr he
      exact ⟨hk e hmem, hv e hmem⟩
  | .null, _ => by simp only [Data.Shared]
  | .boolean _, _ => by simp only [Data.Shared]
  | .number _, _ => by simp only [Data.Shared]
  | .uint8Array _, _ => by simp only [Data.Shared]
  | .other _, _ => by simp only [Data.Shared]

theorem itemsShared_of_plain : (items : List Data) → (∀ v ∈ values items, Plain v) → ItemsShared items
  | [], _ => by rw [ItemsShared]; trivial
  | item :: items, h => by
    rw [values, List.forall_mem_cons] at h
    rw [ItemsShared]
    exact ⟨shared_of_plain item h.1, itemsShared_of_plain items h.2⟩

theorem entriesShared_of_plain : (entries : List (Key × Data)) →
    (∀ e ∈ entryValues entries, Plain e.1 ∧ Plain e.2) → EntriesShared entries
  | [], _ => by rw [EntriesShared]; trivial
  | (key, item) :: entries, h => by
    rw [entryValues, List.forall_mem_cons] at h
    rw [EntriesShared]
    exact ⟨⟨key_shared_of_plain h.1.1, shared_of_plain item h.1.2⟩, entriesShared_of_plain entries h.2⟩

end

/-- What the front end writes, both decoders read back and the grammar has, as the value with its dictionaries in the
order of their keys, exactly if both decoders can hold the value. -/
theorem encode_read_iff {v : Data} {s : Bytes} (h : encode v = .ok s) (hbits : s.length < 2 ^ bits)
    (hsafe : s.length < 2 ^ 53) : BothRead bits s v.value ↔ v.Shared :=
  ⟨fun hread => shared_of_plain v (plain_of_spells (plain_of_bothRead hread)),
    fun hv => bothRead_of_plain (encode_spells v hv h ⟨hbits, hsafe⟩)⟩

theorem validUtf8_b : validUtf8 [98] = true := rfl

/-- A dictionary whose byte string goes before its text. -/
def sample : Data := .map [(.string ⟨[98], validUtf8_b⟩, .bigint 5), (.uint8Array [7], .array [.null, .boolean true])]

theorem sample_shared : sample.Shared := by
  simp [sample, Data.Shared, EntriesShared, ItemsShared, Key.Shared, Unmarked, TextDecoder.byteOrderMark, entryValues,
    Key.value, Distinct, textKey?]
  exact List.nodup_nil

theorem encode_read_iff_sample : BothRead 64
    [100, 49, 58, 7, 108, 110, 116, 101, 117, 49, 58, 98, 105, 53, 101, 101] sample.value :=
  (encode_read_iff rfl (by decide) (by decide)).mpr sample_shared

end Reading

/-! The encoder of the sessions writes the same for the same value. -/

def Key.call : Key → Call
  | .string s => .str s.1
  | .uint8Array b => .bytes b
  | .other => .none

mutual

/-- What a value asks of a serializer; what the front end refuses is a float. -/
def Data.call : Data → Call
  | .null => .none
  | .boolean b => .bool b
  | .bigint z => .int z
  | .number none => .float
  | .number (some z) => .int z
  | .string s => .str s.1
  | .uint8Array b => .bytes b
  | .array items => .seq (calls items)
  | .map entries => .map (entryCalls entries)
  | .other _ => .float

def calls : List Data → List Call
  | [] => []
  | item :: items => item.call :: calls items

def entryCalls : List (Key × Data) → List (Call × Call)
  | [] => []
  | (key, item) :: entries => (key.call, item.call) :: entryCalls entries

end

/-- The comparison of the front end is that of the serializer's keys. -/
theorem compareBytes_le_iff (a b : Bytes) : compareBytes a b ≤ 0 ↔ bytesLe a b = true := by
  induction a generalizing b with
  | nil =>
    cases b with
    | nil => simp [compareBytes, bytesLe]
    | cons y ys => simp [compareBytes, bytesLe]
  | cons x xs ih =>
    cases b with
    | nil => simp [compareBytes, bytesLe]
    | cons y ys =>
      rw [compareBytes, bytesLe_cons]
      by_cases hxy : x = y
      · subst hxy
        rw [if_neg (by simp), ih]
        simp
      · have hne : x.toNat ≠ y.toNat := fun h => hxy (UInt8.toNat_inj.mp h)
        rw [if_pos hxy]
        simp only [hxy, false_and, or_false]
        omega

/-- The key of the other encoder. -/
def SortKey.dictKey (k : SortKey) : DictKey := if k.kind = 0 then .bytes k.bytes else .unicode k.bytes

/-- A sort key as it is made from a key. -/
def SortKey.Made (k : SortKey) : Prop := (k.kind = 0 ∨ k.kind = 1) ∧ k.encoded = k.dictKey.writeTo

theorem keySortValue_made {key : Key} {k : SortKey} (h : keySortValue key = .ok k) :
    captureKey key.call = .ok k.dictKey ∧ k.Made := by
  cases key with
  | string s =>
    obtain rfl := Except.ok.inj h
    exact ⟨rfl, .inr rfl, rfl⟩
  | uint8Array b =>
    obtain rfl := Except.ok.inj h
    exact ⟨rfl, .inl rfl, rfl⟩
  | other => cases h

theorem compareKeys_le_iff {a b : SortKey} (ha : a.Made) (hb : b.Made) :
    compareKeys (a.kind, a.bytes) (b.kind, b.bytes) ≤ 0 ↔ DictKey.le a.dictKey b.dictKey = true := by
  rw [compareKeys, SortKey.dictKey, SortKey.dictKey]
  rcases ha.1 with ha | ha <;> rcases hb.1 with hb | hb <;> rw [ha, hb]
  · exact compareBytes_le_iff a.bytes b.bytes
  · simp [DictKey.le]
  · simp [DictKey.le]
  · exact compareBytes_le_iff a.bytes b.bytes

def entryOf (e : SortKey × Bytes) : DictKey × Bytes := (e.1.dictKey, e.2)

theorem flush_entryOf {es : List (SortKey × Bytes)} (h : ∀ e ∈ es, e.1.Made) :
    flush (es.map entryOf) =
      100 :: ((sortBy (fun e => (e.1.kind, e.1.bytes)) es).map fun e => e.1.encoded ++ e.2).flatten ++ [101] := by
  have hsorted : sortEntries (es.map entryOf) = (sortBy (fun e => (e.1.kind, e.1.bytes)) es).map entryOf :=
    (List.map_insertionSort _ _ entryOf es fun a ha b hb => compareKeys_le_iff (h a ha) (h b hb)).symm
  have hmade : ∀ e ∈ sortBy (fun e : SortKey × Bytes => (e.1.kind, e.1.bytes)) es,
      (entryOf e).1.writeTo ++ (entryOf e).2 = e.1.encoded ++ e.2 := fun e he => by
    rw [(h e ((sortBy_perm _ _).mem_iff.mp he)).2]
    rfl
  rw [flush, hsorted, List.flatMap_map, List.flatMap_def, List.map_congr_left hmade]
  rfl

/-- No value of the front end is a byte that stands alone. -/
theorem probeU8_call (v : Data) : probeU8 v.call = none := by
  cases v with
  | number n => cases n <;> rfl
  | _ => rw [Data.call]; rfl

mutual

theorem write_call_of_encode : (v : Data) → ∀ {s : Bytes}, encode v = .ok s → write v.call = .ok s
  | .null, s, h => by
    rw [encode] at h
    rw [Data.call, write, Except.ok.inj h]
  | .boolean b, s, h => by
    rw [encode] at h
    rw [Data.call, write, Except.ok.inj h]
  | .bigint z, s, h => by
    rw [encode] at h
    obtain rfl := Except.ok.inj h
    rw [Data.call, write]
    rfl
  | .number none, s, h => by
    rw [encode] at h
    cases h
  | .number (some z), s, h => by
    rw [encode] at h
    split at h
    · obtain rfl := Except.ok.inj h
      rw [Data.call, write]
      rfl
    · cases h
  | .string t, s, h => by
    rw [encode] at h
    obtain rfl := Except.ok.inj h
    rw [Data.call, write]
    rfl
  | .uint8Array b, s, h => by
    rw [encode] at h
    obtain rfl := Except.ok.inj h
    rw [Data.call, write]
    rfl
  | .array items, s, h => by
    rw [encode] at h
    obtain ⟨parts, hparts, h⟩ := bind_eq_ok.mp h
    obtain rfl := Except.ok.inj h
    rw [Data.call, write]
    cases items with
    | nil =>
      rw [encodeItems] at hparts
      obtain rfl := Except.ok.inj hparts
      rw [calls]
      rfl
    | cons item items =>
      rw [encodeItems] at hparts
      obtain ⟨part, hpart, h⟩ := bind_eq_ok.mp hparts
      obtain ⟨rest, hrest, h⟩ := bind_eq_ok.mp h
      obtain rfl := Except.ok.inj h
      rw [calls, writeSeq_switch (by simp) (probeU8_call item) (write_call_of_encode item hpart)
        (writeSeq_of_encodeItems items hrest)]
      simp [switchToList, SeqState.prior]
  | .map entries, s, h => by
    rw [encode] at h
    obtain ⟨es, hes, h⟩ := bind_eq_ok.mp h
    obtain rfl := Except.ok.inj h
    obtain ⟨hwrite, hmade⟩ := writeEntries_of_encodeEntries entries hes
    rw [Data.call, write, hwrite, ← flush_entryOf hmade]
    rfl
  | .other type, s, h => by
    rw [encode] at h
    cases h

theorem writeSeq_of_encodeItems : (items : List Data) → ∀ {parts : List Bytes}, encodeItems items = .ok parts →
    writeSeq .list (calls items) = .ok (parts.flatten ++ [101])
  | [], parts, h => by
    rw [encodeItems] at h
    obtain rfl := Except.ok.inj h
    rw [calls]
    rfl
  | item :: items, parts, h => by
    rw [encodeItems] at h
    obtain ⟨part, hpart, h⟩ := bind_eq_ok.mp h
    obtain ⟨rest, hrest, h⟩ := bind_eq_ok.mp h
    obtain rfl := Except.ok.inj h
    rw [calls, writeSeq, write_call_of_encode item hpart, writeSeq_of_encodeItems items hrest, List.flatten_cons,
      List.append_assoc]
    rfl

theorem writeEntries_of_encodeEntries : (entries : List (Key × Data)) → ∀ {es : List (SortKey × Bytes)},
    encodeEntries entries = .ok es → writeEntries (entryCalls entries) = .ok (es.map entryOf) ∧ ∀ e ∈ es, e.1.Made
  | [], es, h => by
    rw [encodeEntries] at h
    obtain rfl := Except.ok.inj h
    exact ⟨by rw [entryCalls]; rfl, by simp⟩
  | (key, item) :: entries, es, h => by
    rw [encodeEntries] at h
    obtain ⟨k, hk, h⟩ := bind_eq_ok.mp h
    obtain ⟨w, hw, h⟩ := bind_eq_ok.mp h
    obtain ⟨rest, hrest, h⟩ := bind_eq_ok.mp h
    obtain rfl := Except.ok.inj h
    obtain ⟨hcapture, hmade⟩ := keySortValue_made hk
    obtain ⟨hwrite, hrestMade⟩ := writeEntries_of_encodeEntries entries hrest
    refine ⟨?_, List.forall_mem_cons.mpr ⟨hmade, hrestMade⟩⟩
    rw [entryCalls, writeEntries, writeEntry, hcapture, write_call_of_encode item hw, hwrite]
    rfl

end

end Script

end Bencodex

end ChiaGaming
