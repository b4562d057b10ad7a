import ChiaGaming.Bencodex.Encoding

namespace ChiaGaming

/-! What the encoder wrote is read back. -/

namespace Bencodex

section Tokens

variable {bits : ℕ} {r : Bytes}

theorem digit_ne {d b : UInt8} (hd : isDigit d = true) (hb : isDigit b = false) : d ≠ b := by
  rintro rfl
  rw [hd] at hb
  cases hb

/-- A length is digits, one at least. -/
theorem decimal_digits (n : ℕ) : ∃ d ds, decimal n = d :: ds ∧ isDigit d = true ∧ ds.all isDigit = true := by
  obtain ⟨hne, hall, -⟩ := isCanonicalNat_iff.mp (decimal_eq n).2
  obtain ⟨d, ds, hds⟩ := List.exists_cons_of_ne_nil hne
  rw [hds, List.all_cons, Bool.and_eq_true] at hall
  exact ⟨d, ds, hds, hall.1, hall.2⟩

theorem decimal_not_mem {b : UInt8} (hb : isDigit b = false) (n : ℕ) : b ∉ decimal n := by
  intro hmem
  have hd := List.all_eq_true.mp (isCanonicalNat_iff.mp (decimal_eq n).2).2.1 b hmem
  rw [hd] at hb
  cases hb

theorem writeBytestring_append (data r : Bytes) :
    writeBytestring data ++ r = decimal data.length ++ 58 :: (data ++ r) := by
  rw [writeBytestring, List.append_assoc, List.cons_append]

theorem length_writeBytestring (data : Bytes) :
    (writeBytestring data).length = (decimal data.length).length + 1 + data.length := by
  rw [writeBytestring, List.length_append, List.length_cons]
  omega

theorem parseBytestring_write {data : Bytes} (hfits : (writeBytestring data).length < 2 ^ bits) :
    parseBytestring bits (writeBytestring data ++ r) = .ok data r := by
  obtain ⟨hvalue, hcanonical⟩ := decimal_eq data.length
  rw [length_writeBytestring] at hfits
  have hcut := Bencode.cut_append (decimal_not_mem (b := 58) (by decide) data.length) (data ++ r)
  have hsize : sizeToken bits (decimal data.length) = some data.length := by
    rw [sizeToken_canonicalNat hcanonical (by omega), hvalue]
  rw [writeBytestring_append, parseBytestring_of_size hcut hsize, if_pos hfits, if_neg (by simp), List.take_left,
    List.drop_left]

theorem parseUnicode_write {s : Bytes} (hutf8 : validUtf8 s = true) (hfits : (writeUnicode s).length < 2 ^ bits) :
    parseUnicode bits (writeBytestring s ++ r) = .ok s r := by
  have hfits' : (writeBytestring s).length < 2 ^ bits := by
    rw [writeUnicode, List.length_cons] at hfits
    exact Nat.lt_of_succ_lt hfits
  rw [parseUnicode, Act.bind_of_ok (parseBytestring_write hfits'), if_pos hutf8]
  rfl

theorem parseIntValue_write {z : ℤ} (hlow : -2 ^ 127 ≤ z) (hhigh : z < 2 ^ 127) :
    parseIntValue (decimalInt z ++ 101 :: r) = .ok z r := by
  obtain ⟨hvalue, hcanonical⟩ := decimalInt_eq z
  have hmem : (101 : UInt8) ∉ decimalInt z := by
    intro hmem
    rcases mem_canonicalInt hcanonical 101 hmem with h | h
    · exact absurd h (by decide)
    · exact absurd h (by decide)
  have hcut := Bencode.cut_append hmem r
  obtain ⟨-, -, hadvance⟩ := position_of_cut hcut
  have htoken := integerToken_canonicalInt hcanonical (by rw [hvalue]; exact hlow) (by rw [hvalue]; exact hhigh)
  rw [parseIntValue_of_cut hcut]
  rcases integerOf_eq (decimalInt z) (decimalInt z ++ 101 :: r) with ⟨z', hz', hint⟩ | ⟨hnone, -⟩
  · rw [htoken, hvalue] at hz'
    obtain rfl := Option.some.inj hz'
    rw [Act.bind_of_ok hint, Act.bind_of_ok hadvance]
    rfl
  · rw [htoken] at hnone
    cases hnone

section Visitor

variable {V : Type} (visitor : Visitor V)

theorem deserializeAny_writeBytestring {data : Bytes} (hfits : (writeBytestring data).length < 2 ^ bits) :
    deserializeAny bits visitor (writeBytestring data ++ r) = visitor.bytes data r := by
  obtain ⟨d, ds, hds, hd, -⟩ := decimal_digits data.length
  have hread := parseBytestring_write (r := r) hfits
  rw [writeBytestring_append, hds, List.cons_append] at hread ⊢
  rw [deserializeAny_digit visitor hd, Act.bind_of_ok hread]

theorem deserializeAny_writeUnicode {s : Bytes} (hutf8 : validUtf8 s = true)
    (hfits : (writeUnicode s).length < 2 ^ bits) :
    deserializeAny bits visitor (writeUnicode s ++ r) = visitor.str s r := by
  have hread := parseUnicode_write (r := r) hutf8 hfits
  rw [writeUnicode, List.cons_append, deserializeAny_text]
  exact Act.bind_of_ok hread _

theorem deserializeAny_writeInt {z : ℤ} (hlow : -2 ^ 127 ≤ z) (hhigh : z < 2 ^ 127) :
    deserializeAny bits visitor (writeInt z ++ r) = visitor.int z r := by
  have hread := parseIntValue_write (r := r) hlow hhigh
  rw [writeInt, List.cons_append, deserializeAny_int, List.append_assoc]
  exact Act.bind_of_ok hread _

theorem deserializeIdentifier_writeUnicode {s : Bytes} (hutf8 : validUtf8 s = true)
    (hfits : (writeUnicode s).length < 2 ^ bits) :
    deserializeIdentifier bits visitor (writeUnicode s ++ r) = visitor.str s r := by
  have hread := parseUnicode_write (r := r) hutf8 hfits
  rw [writeUnicode, List.cons_append, deserializeIdentifier, Act.bind_of_ok (peek_cons 117 _), if_pos rfl,
    Act.bind_of_ok (advance_one 117 _)]
  exact Act.bind_of_ok hread _

/-! The entry points that look for one tag do with it what the general one does. -/

theorem deserializeBool_eq : deserializeBool bits visitor = deserializeAny bits visitor := by
  funext s
  cases s with
  | nil => rfl
  | cons b s =>
    rw [deserializeBool, Act.bind_of_ok (peek_cons b s)]
    split_ifs with htrue hfalse
    · rw [htrue, deserializeAny_true, Act.bind_of_ok (advance_one 116 s)]
    · rw [hfalse, deserializeAny_false, Act.bind_of_ok (advance_one 102 s)]
    · rfl

theorem deserializeUnit_eq : deserializeUnit bits visitor = deserializeAny bits visitor := by
  funext s
  cases s with
  | nil => rfl
  | cons b s =>
    rw [deserializeUnit, Act.bind_of_ok (peek_cons b s)]
    split_ifs with hnull
    · rw [hnull, deserializeAny_null, Act.bind_of_ok (advance_one 110 s)]
    · rfl

theorem deserializeBytes_eq : deserializeBytes bits visitor = deserializeAny bits visitor := by
  funext s
  cases s with
  | nil => rfl
  | cons b s =>
    rw [deserializeBytes, Act.bind_of_ok (peek_cons b s)]
    split_ifs with hd
    · rw [deserializeAny_digit visitor hd]
    · rfl

theorem scalar_deserialize_eq (S : Scalar) : S.deserialize bits = deserializeAny bits (S.visitor bits) := by
  rw [Scalar.deserialize]
  cases S.method with
  | any => rfl
  | bool => exact deserializeBool_eq _
  | unit => exact deserializeUnit_eq _
  | bytes => exact deserializeBytes_eq _

end Visitor

theorem Scalar.deserialize_encode (S : Scalar) (v : S.Val) (hfits : (S.atom v).encode.length < 2 ^ bits) :
    S.deserialize bits ((S.atom v).encode ++ r) = .ok v r := by
  have hvisit := S.visit_atom v
  have hatom := S.fits v
  rw [scalar_deserialize_eq]
  generalize S.atom v = a at hvisit hatom hfits
  have hvisitor : ∀ x : Option S.Val, x = some v → orCustom x r = .ok v r := by
    rintro x rfl
    rfl
  cases a with
  | unit => exact (deserializeAny_null _).trans (hvisitor _ hvisit)
  | bool b =>
    cases b with
    | true => exact (deserializeAny_true _).trans (hvisitor _ hvisit)
    | false => exact (deserializeAny_false _).trans (hvisitor _ hvisit)
  | u8 byte =>
    have hbyte := byte.toNat_lt
    exact (deserializeAny_writeInt _ (by omega) (by omega)).trans (hvisitor _ hvisit)
  | int z => exact (deserializeAny_writeInt _ hatom.1 hatom.2).trans (hvisitor _ hvisit)
  | str s => exact (deserializeAny_writeUnicode _ hatom hfits).trans (hvisitor _ hvisit)
  | bytes data => exact (deserializeAny_writeBytestring _ hfits).trans (hvisitor _ hvisit)

end Tokens

/-! An encoding begins with a tag, and with the one of nothing only where the type can be nothing. -/

theorem writeInt_head (z : ℤ) : ∃ w, writeInt z = 105 :: w := ⟨_, rfl⟩

theorem writeUnicode_head (s : Bytes) : ∃ w, writeUnicode s = 117 :: w := ⟨_, rfl⟩

theorem flush_head (entries : List (DictKey × Bytes)) : ∃ w, flush entries = 100 :: w := ⟨_, rfl⟩

theorem writeBytestring_head (data : Bytes) : ∃ d w, writeBytestring data = d :: w ∧ isDigit d = true := by
  obtain ⟨d, ds, hds, hd, -⟩ := decimal_digits data.length
  exact ⟨d, ds ++ 58 :: data, by rw [writeBytestring, hds]; rfl, hd⟩

/-- The head of an encoding of a type. -/
def Tagged (t : Ty) (w : Bytes) : Prop := ∃ b s, w = b :: s ∧ Bencode.IsTag b ∧ (b = 110 → t.Nullable)

theorem Atom.encode_tagged {S : Scalar} (v : S.Val) : Tagged (.scalar S) (S.atom v).encode := by
  cases hatom : S.atom v with
  | unit => exact ⟨110, [], rfl, .null, fun _ => ⟨v, hatom⟩⟩
  | bool b =>
    cases b with
    | true => exact ⟨116, [], rfl, .true, fun h => absurd h (by decide)⟩
    | false => exact ⟨102, [], rfl, .false, fun h => absurd h (by decide)⟩
  | u8 byte => exact ⟨105, _, rfl, .int, fun h => absurd h (by decide)⟩
  | int z => exact ⟨105, _, rfl, .int, fun h => absurd h (by decide)⟩
  | str s => exact ⟨117, _, rfl, .text, fun h => absurd h (by decide)⟩
  | bytes data =>
    obtain ⟨d, w, hw, hd⟩ := writeBytestring_head data
    exact ⟨d, w, hw, .digit hd, fun h => absurd h (digit_ne hd (by decide))⟩

theorem Payload.encode_head (payload : Payload) (name : Bytes) (v : payload.Val) :
    ∃ b s, payload.encode name v = b :: s ∧ (b = 117 ∨ b = 100) := by
  cases payload with
  | unit => exact ⟨117, _, rfl, .inl rfl⟩
  | _ => exact ⟨100, _, rfl, .inr rfl⟩

theorem Variants.encode_head : (variants : Variants) → (v : variants.Val) →
    ∃ b s, variants.encode v = b :: s ∧ (b = 117 ∨ b = 100)
  | .nil, v => Empty.elim v
  | .cons name payload _, .inl v => payload.encode_head name v
  | .cons _ _ variants, .inr v => variants.encode_head v

theorem encodeSeq_tagged (t : Ty) (vs : List t.Val) : Tagged (.seq t) (encodeSeq t.asU8 t.encode vs) := by
  rw [encodeSeq]
  split
  · rename_i byte bytes _
    obtain ⟨d, w, hw, hd⟩ := writeBytestring_head (byte :: bytes)
    exact ⟨d, w, hw, .digit hd, fun h => absurd h (digit_ne hd (by decide))⟩
  · exact ⟨108, _, rfl, .list, fun h => absurd h (by decide)⟩

theorem Ty.encode_tagged : (t : Ty) → (v : t.Val) → Tagged t (t.encode v)
  | .scalar _, v => Atom.encode_tagged v
  | .option _, none => ⟨110, [], rfl, .null, fun _ => trivial⟩
  | .option t, some v => by
    obtain ⟨b, s, hs, hb, -⟩ := t.encode_tagged v
    exact ⟨b, s, hs, hb, fun _ => trivial⟩
  | .seq t, vs => encodeSeq_tagged t vs
  | .tuple _, _ => ⟨108, _, rfl, .list, fun h => absurd h (by decide)⟩
  | .newtype t, v => t.encode_tagged v
  | .struct _, _ => ⟨100, _, rfl, .map, fun h => absurd h (by decide)⟩
  | .enum variants, v => by
    obtain ⟨b, s, hs, rfl | rfl⟩ := variants.encode_head v
    · exact ⟨117, s, hs, .text, fun h => absurd h (by decide)⟩
    · exact ⟨100, s, hs, .map, fun h => absurd h (by decide)⟩
  | .map _ _, _ => ⟨100, _, rfl, .map, fun h => absurd h (by decide)⟩

theorem isTag_ne_end {b : UInt8} (h : Bencode.IsTag b) : b ≠ 101 := by
  cases h with
  | digit hd => exact digit_ne hd (by decide)
  | _ => decide

/-! Loops. -/

section Loops

variable {α κ σ ι : Type} {r : Bytes}

theorem length_le_of_mem_flatMap (encode : α → Bytes) {vs : List α} {v : α} (h : v ∈ vs) :
    (encode v).length ≤ (vs.flatMap encode).length := by
  rw [List.flatMap_def]
  exact (List.sublist_flatten_of_mem (List.mem_map_of_mem h)).length_le

theorem length_le_flatMap {encode : α → Bytes} {vs : List α} (h : ∀ v ∈ vs, encode v ≠ []) :
    vs.length ≤ (vs.flatMap encode).length := by
  induction vs with
  | nil => exact Nat.le_refl 0
  | cons v vs ih =>
    have hv := List.length_pos_iff.mpr (h v List.mem_cons_self)
    have := ih fun w hw => h w (List.mem_cons_of_mem v hw)
    rw [List.flatMap_cons, List.length_append, List.length_cons]
    omega

theorem nextElement_end (seed : De α) : nextElement seed (101 :: r) = .ok none (101 :: r) := rfl

theorem nextElement_of_head {seed : De α} {b : UInt8} (hb : b ≠ 101) (s : Bytes) :
    nextElement seed (b :: s) = (some <$> seed) (b :: s) := by
  rw [nextElement, Act.bind_of_ok (peek_cons b s), if_neg hb]

theorem nextElement_encode {seed : De α} {v : α} {w : Bytes} (hhead : ∃ b s, w = b :: s ∧ b ≠ 101)
    (hread : seed (w ++ r) = .ok v r) : nextElement seed (w ++ r) = .ok (some v) r := by
  obtain ⟨b, s, rfl, hb⟩ := hhead
  rw [List.cons_append] at hread ⊢
  rw [nextElement_of_head hb, Act.map_of_ok hread]

theorem elements_encode {seed : De α} {encode : α → Bytes} {vs : List α}
    (hhead : ∀ v ∈ vs, ∃ b s, encode v = b :: s ∧ b ≠ 101)
    (hread : ∀ v ∈ vs, ∀ r, seed (encode v ++ r) = .ok v r) {n : ℕ} (hn : vs.length < n) :
    elements seed n (vs.flatMap encode ++ 101 :: r) = .ok vs (101 :: r) := by
  induction vs generalizing n with
  | nil =>
    obtain ⟨n, rfl⟩ : ∃ m, n = m + 1 := ⟨n - 1, by simp at hn; omega⟩
    rfl
  | cons v vs ih =>
    obtain ⟨n, rfl⟩ : ∃ m, n = m + 1 := ⟨n - 1, by simp at hn; omega⟩
    have hnext := nextElement_encode (r := vs.flatMap encode ++ 101 :: r) (hhead v List.mem_cons_self)
      (hread v List.mem_cons_self _)
    have hrest := ih (fun w hw => hhead w (List.mem_cons_of_mem v hw))
      (fun w hw => hread w (List.mem_cons_of_mem v hw)) (n := n) (by simp at hn; omega)
    rw [List.flatMap_cons, List.append_assoc, elements, Act.bind_of_ok hnext]
    exact Act.bind_of_ok hrest _

theorem everyElement_encode {seed : De α} {encode : α → Bytes} {vs : List α}
    (hhead : ∀ v ∈ vs, ∃ b s, encode v = b :: s ∧ b ≠ 101)
    (hread : ∀ v ∈ vs, ∀ r, seed (encode v ++ r) = .ok v r) :
    everyElement seed (vs.flatMap encode ++ 101 :: r) = .ok vs (101 :: r) := by
  have hne : ∀ v ∈ vs, encode v ≠ [] := by
    intro v hv hnil
    obtain ⟨b, s, hs, -⟩ := hhead v hv
    rw [hnil] at hs
    cases hs
  have hlen := length_le_flatMap hne
  exact elements_encode hhead hread (by rw [List.length_append, List.length_cons]; omega)

/-- Entries one after another; `Made` is what holds of what has been made of those that came so far. -/
theorem accesses_encode {key : De κ} {value : σ → κ → De σ} (k : ι → κ) (wk wv : ι → Bytes)
    (Made : List ι → σ → Prop) {entries : List ι} (hhead : ∀ e ∈ entries, ∃ b s, wk e = b :: s ∧ b ≠ 101)
    (hkey : ∀ e ∈ entries, ∀ r, key (wk e ++ r) = .ok (k e) r)
    (hvalue : ∀ done e rest, entries = done ++ e :: rest → ∀ acc, Made done acc →
      ∀ r, ∃ acc', value acc (k e) (wv e ++ r) = .ok acc' r ∧ Made (done ++ [e]) acc')
    {done rest : List ι} (hentries : entries = done ++ rest) {acc : σ} (hacc : Made done acc) {n : ℕ}
    (hn : rest.length < n) :
    ∃ acc', accesses key value n acc (rest.flatMap (fun e => wk e ++ wv e) ++ 101 :: r) = .ok acc' (101 :: r) ∧
      Made entries acc' := by
  induction rest generalizing done acc n with
  | nil =>
    obtain ⟨n, rfl⟩ : ∃ m, n = m + 1 := ⟨n - 1, by simp at hn; omega⟩
    rw [List.append_nil] at hentries
    exact ⟨acc, rfl, hentries ▸ hacc⟩
  | cons e rest ih =>
    obtain ⟨n, rfl⟩ : ∃ m, n = m + 1 := ⟨n - 1, by simp at hn; omega⟩
    have hmem : e ∈ entries := by
      rw [hentries]
      exact List.mem_append_right done List.mem_cons_self
    have hnext := nextElement_encode (r := wv e ++ (rest.flatMap (fun e => wk e ++ wv e) ++ 101 :: r))
      (hhead e hmem) (hkey e hmem _)
    have hsplit : entries = (done ++ [e]) ++ rest := by
      rw [hentries, List.append_assoc]
      rfl
    obtain ⟨acc₁, hstep, hacc₁⟩ := hvalue done e rest hentries acc hacc
      (rest.flatMap (fun e => wk e ++ wv e) ++ 101 :: r)
    obtain ⟨acc', hrest, hacc'⟩ := ih hsplit hacc₁ (n := n) (by simp at hn; omega)
    refine ⟨acc', ?_, hacc'⟩
    rw [List.flatMap_cons, List.append_assoc, List.append_assoc, accesses, Act.bind_of_ok hnext]
    exact (Act.bind_of_ok hstep _).trans hrest

theorem everyKey_encode {key : De κ} {value : σ → κ → De σ} (k : ι → κ) (wk wv : ι → Bytes)
    (Made : List ι → σ → Prop) {entries : List ι} (hhead : ∀ e ∈ entries, ∃ b s, wk e = b :: s ∧ b ≠ 101)
    (hkey : ∀ e ∈ entries, ∀ r, key (wk e ++ r) = .ok (k e) r)
    (hvalue : ∀ done e rest, entries = done ++ e :: rest → ∀ acc, Made done acc →
      ∀ r, ∃ acc', value acc (k e) (wv e ++ r) = .ok acc' r ∧ Made (done ++ [e]) acc')
    {acc : σ} (hacc : Made [] acc) :
    ∃ acc', everyKey key value acc (entries.flatMap (fun e => wk e ++ wv e) ++ 101 :: r) = .ok acc' (101 :: r) ∧
      Made entries acc' := by
  have hne : ∀ e ∈ entries, wk e ++ wv e ≠ [] := by
    intro e he hnil
    obtain ⟨b, s, hs, -⟩ := hhead e he
    rw [hs] at hnil
    cases hnil
  have hlen := length_le_flatMap hne
  exact accesses_encode k wk wv Made hhead hkey hvalue rfl hacc (by rw [List.length_append, List.length_cons]; omega)

end Loops

/-! The entry points, on encodings. -/

section Entry

variable {bits : ℕ} {V : Type} {visitor : Visitor V} {v : V} {s r : Bytes}

theorem deserializeSeq_list (h : visitor.seq s = .ok v (101 :: r)) :
    deserializeSeq bits visitor (108 :: s) = .ok v r := by
  rw [deserializeSeq, Act.bind_of_ok (peek_cons 108 s), if_pos rfl, Act.bind_of_ok (advance_one 108 s),
    Act.bind_of_ok h, Act.bind_of_ok (consumeEnd_end r)]
  rfl

theorem deserializeSeq_bytes {data : Bytes} (hfits : (writeBytestring data).length < 2 ^ bits) :
    deserializeSeq bits visitor (writeBytestring data ++ r) = visitor.bytesSeq data r := by
  obtain ⟨d, ds, hds, hd, -⟩ := decimal_digits data.length
  have hread := parseBytestring_write (r := r) hfits
  rw [writeBytestring_append, hds, List.cons_append] at hread ⊢
  rw [deserializeSeq, Act.bind_of_ok (peek_cons d _), if_neg (digit_ne hd (by decide)), if_pos hd,
    Act.bind_of_ok hread]

theorem deserializeMap_map (h : visitor.map s = .ok v (101 :: r)) :
    deserializeMap bits visitor (100 :: s) = .ok v r := by
  rw [deserializeMap, Act.bind_of_ok (peek_cons 100 s), if_pos rfl, Act.bind_of_ok (advance_one 100 s),
    Act.bind_of_ok h, Act.bind_of_ok (consumeEnd_end r)]
  rfl

theorem deserializeEnum_text (unitVariant dictVariant : De V) (name : Bytes) :
    deserializeEnum bits visitor unitVariant dictVariant (writeUnicode name ++ r) =
      unitVariant (writeUnicode name ++ r) := by
  rw [writeUnicode, List.cons_append, deserializeEnum, Act.bind_of_ok (peek_cons 117 _), if_pos rfl]

theorem deserializeEnum_map (unitVariant dictVariant : De V) :
    deserializeEnum bits visitor unitVariant dictVariant (100 :: s) = dictVariant s := by
  rw [deserializeEnum, Act.bind_of_ok (peek_cons 100 s), if_neg (by decide), if_pos rfl,
    Act.bind_of_ok (advance_one 100 s)]

theorem deserializeOption_some {b : UInt8} (hb : b ≠ 110) (visitNone : V) (visitSome : De V) :
    deserializeOption visitNone visitSome (b :: s) = visitSome (b :: s) := by
  rw [deserializeOption, Act.bind_of_ok (peek_cons b s), if_neg hb]

end Entry

/-! Sequences. -/

section Seq

variable {bits : ℕ} {t : Ty} {vs : List t.Val}

theorem ofU8_of_asU8 {v : t.Val} {byte : UInt8} (h : t.asU8 v = some byte) : t.ofU8 byte = some v := by
  cases t with
  | scalar S =>
    have hvisit := S.visit_atom v
    rw [Atom.encode_of_asU8 h] at hvisit
    exact hvisit
  | _ => cases h

theorem mapM_ofU8 {bytes : Bytes} (h : vs.mapM t.asU8 = some bytes) : bytes.mapM t.ofU8 = some vs := by
  induction vs generalizing bytes with
  | nil =>
    cases h
    rfl
  | cons v vs ih =>
    rw [List.mapM_cons] at h
    obtain ⟨byte, hbyte, h⟩ := Option.bind_eq_some_iff.mp h
    obtain ⟨bytes', hbytes', heq⟩ := Option.bind_eq_some_iff.mp h
    cases heq
    rw [List.mapM_cons, ofU8_of_asU8 hbyte, ih hbytes']
    rfl

theorem encode_open (t : Ty) (v : t.Val) : ∃ b s, t.encode v = b :: s ∧ b ≠ 101 := by
  obtain ⟨b, s, hs, hb, -⟩ := t.encode_tagged v
  exact ⟨b, s, hs, isTag_ne_end hb⟩

theorem seq_deserialize (hread : ∀ v, (t.encode v).length < 2 ^ bits → ∀ r, t.deserialize bits (t.encode v ++ r) = .ok v r)
    (hfits : (encodeSeq t.asU8 t.encode vs).length < 2 ^ bits) (r : Bytes) :
    (Ty.seq t).deserialize bits (encodeSeq t.asU8 t.encode vs ++ r) = .ok vs r := by
  rw [encodeSeq] at hfits ⊢
  rw [Ty.deserialize]
  split
  · rename_i byte bytes hbytes
    rw [hbytes] at hfits
    refine (deserializeSeq_bytes hfits).trans ?_
    change orCustom ((byte :: bytes).mapM t.ofU8) r = _
    rw [mapM_ofU8 hbytes]
    rfl
  · rename_i hlist
    have hlen : (108 :: (vs.flatMap t.encode ++ [101])).length < 2 ^ bits := by
      split at hfits
      · rename_i hbytes
        exact absurd hbytes (hlist _ _)
      · exact hfits
    rw [List.cons_append, List.append_assoc]
    refine deserializeSeq_list (everyElement_encode (fun v _ => encode_open t v) fun v hv => hread v ?_)
    have := length_le_of_mem_flatMap t.encode hv
    rw [List.length_cons, List.length_append] at hlen
    omega

end Seq

/-! Structs: the fields come in the order of their names, and each goes to its place. -/

section Struct

variable {bits : ℕ}

/-- With the fields that `done` marks. -/
def Fields.partialOf : (fields : Fields) → fields.Val → (Bytes → Bool) → fields.Partial
  | .nil, _, _ => ()
  | .cons name _ fields, (v, vs), done => (if done name then some v else none, fields.partialOf vs done)

theorem partialOf_congr {done done' : Bytes → Bool} : (fields : Fields) → (vs : fields.Val) →
    (∀ name ∈ fields.names, done name = done' name) → fields.partialOf vs done = fields.partialOf vs done'
  | .nil, _, _ => rfl
  | .cons name _ fields, (v, vs), h => by
    rw [Fields.partialOf, Fields.partialOf, h name List.mem_cons_self,
      partialOf_congr fields vs fun n hn => h n (List.mem_cons_of_mem name hn)]

theorem partialOf_start : (fields : Fields) → (vs : fields.Val) →
    fields.partialOf vs (fun _ => false) = fields.start
  | .nil, _ => rfl
  | .cons _ _ fields, (_, vs) => by
    rw [Fields.partialOf, Fields.start, partialOf_start fields vs]
    rfl

theorem finish_partialOf : (fields : Fields) → (vs : fields.Val) →
    fields.finish (fields.partialOf vs fun _ => true) = some vs
  | .nil, _ => rfl
  | .cons _ _ fields, (_, vs) => by
    rw [Fields.partialOf, Fields.finish, finish_partialOf fields vs]
    rfl

theorem encodeFields_mem {name w : Bytes} : {fields : Fields} → {vs : fields.Val} →
    (DictKey.unicode name, w) ∈ fields.encodeFields vs → name ∈ fields.names
  | .nil, _, h => absurd h List.not_mem_nil
  | .cons _ _ _, _, h => by
    rcases List.mem_cons.mp h with heq | h
    · obtain ⟨hname, -⟩ := Prod.mk.inj heq
      exact List.mem_cons.mpr (.inl (DictKey.unicode.inj hname))
    · exact List.mem_cons_of_mem _ (encodeFields_mem h)

theorem encodeFields_key {e : DictKey × Bytes} : {fields : Fields} → {vs : fields.Val} →
    e ∈ fields.encodeFields vs → ∃ name w, e = (.unicode name, w)
  | .nil, _, h => absurd h List.not_mem_nil
  | .cons name _ _, _, h => by
    rcases List.mem_cons.mp h with rfl | h
    · exact ⟨name, _, rfl⟩
    · exact encodeFields_key h

/-- The text of a key that is one. -/
def DictKey.text : DictKey → Bytes
  | bytes b => b
  | unicode b => b

/-- Every field has a place, and what is written for it is read into that place. -/
def Fields.Placed (fields : Fields) (bits : ℕ) (vs : fields.Val) : Prop :=
  ∀ name w, (DictKey.unicode name, w) ∈ fields.encodeFields vs → w.length < 2 ^ bits →
    ∃ i, fields.index name = some i ∧ ∀ done : Bytes → Bool, done name = false → ∀ r,
      fields.readField bits (fields.partialOf vs done) (some i) (w ++ r) =
        .ok (fields.partialOf vs fun n => n = name || done n) r

theorem length_entry_le {entries : List (DictKey × Bytes)} {e : DictKey × Bytes} (h : e ∈ entries) :
    e.1.writeTo.length + e.2.length ≤ (flush entries).length := by
  have hle := length_le_of_mem_flatMap (fun e : DictKey × Bytes => e.1.writeTo ++ e.2)
    ((sortEntries_perm entries).mem_iff.mpr h)
  rw [List.length_append] at hle
  rw [flush, List.length_cons, List.length_append]
  omega

/-- The fields that some entries are for. -/
def marked (done : List (DictKey × Bytes)) (name : Bytes) : Bool := done.any fun e => e.1.text = name

theorem marked_append (done : List (DictKey × Bytes)) (name w n : Bytes) :
    marked (done ++ [(.unicode name, w)]) n = (n = name || marked done n) := by
  rw [marked, List.any_append, Bool.or_comm]
  simp [DictKey.text, marked, eq_comm]

theorem marked_sorted {fields : Fields} {vs : fields.Val} {name : Bytes} (h : name ∈ fields.names) :
    marked (sortEntries (fields.encodeFields vs)) name = true := by
  have hkey : DictKey.unicode name ∈ (fields.encodeFields vs).map Prod.fst := by
    rw [encodeFields_keys]
    exact List.mem_map_of_mem h
  obtain ⟨e, he, heq⟩ := List.mem_map.mp hkey
  refine List.any_eq_true.mpr ⟨e, (sortEntries_perm _).mem_iff.mpr he, decide_eq_true ?_⟩
  rw [heq]
  rfl

theorem struct_visitMap {fields : Fields} (hnames : NamesWellFormed fields.names) {vs : fields.Val}
    (hplaced : fields.Placed bits vs) (hfits : (flush (fields.encodeFields vs)).length < 2 ^ bits) (r : Bytes) :
    (do
      let read ← everyKey (fields.identifier bits) (fields.readField bits) fields.start
      orCustom (fields.finish read) : De fields.Val)
      ((sortEntries (fields.encodeFields vs)).flatMap (fun e => e.1.writeTo ++ e.2) ++ 101 :: r) =
      .ok vs (101 :: r) := by
  have hmem : ∀ e ∈ sortEntries (fields.encodeFields vs), e ∈ fields.encodeFields vs :=
    fun e he => (sortEntries_perm _).mem_iff.mp he
  have hlen : ∀ e ∈ sortEntries (fields.encodeFields vs), e.1.writeTo.length + e.2.length < 2 ^ bits :=
    fun e he => (length_entry_le (hmem e he)).trans_lt hfits
  have hincreasing := sortEntries_increasing (encodeFields_nodup hnames vs)
  have hhead : ∀ e ∈ sortEntries (fields.encodeFields vs), ∃ b s, e.1.writeTo = b :: s ∧ b ≠ 101 := by
    intro e he
    obtain ⟨name, w, rfl⟩ := encodeFields_key (hmem e he)
    exact ⟨117, _, rfl, by decide⟩
  have hkey : ∀ e ∈ sortEntries (fields.encodeFields vs), ∀ r,
      fields.identifier bits (e.1.writeTo ++ r) = .ok (fields.index e.1.text) r := by
    intro e he r
    obtain ⟨name, w, rfl⟩ := encodeFields_key (hmem e he)
    have hutf8 := hnames.2 name (encodeFields_mem (hmem _ he))
    exact deserializeIdentifier_writeUnicode _ hutf8 (lt_of_le_of_lt (Nat.le_add_right _ _) (hlen _ he))
  have hvalue : ∀ done e rest, sortEntries (fields.encodeFields vs) = done ++ e :: rest →
      ∀ acc, acc = fields.partialOf vs (marked done) → ∀ r,
        ∃ acc', fields.readField bits acc (fields.index e.1.text) (e.2 ++ r) = .ok acc' r ∧
          acc' = fields.partialOf vs (marked (done ++ [e])) := by
    rintro done e rest hsplit acc rfl r
    have he : e ∈ sortEntries (fields.encodeFields vs) := by
      rw [hsplit]
      exact List.mem_append_right done List.mem_cons_self
    obtain ⟨name, w, rfl⟩ := encodeFields_key (hmem e he)
    obtain ⟨i, hi, hread⟩ := hplaced name w (hmem _ he) (lt_of_le_of_lt (Nat.le_add_left _ _) (hlen _ he))
    have hnew : marked done name = false := by
      refine List.any_eq_false.mpr fun e' he' heq => ?_
      rw [hsplit, List.map_append, List.pairwise_append] at hincreasing
      have hlt := hincreasing.2.2 e'.1 (List.mem_map_of_mem he') (.unicode name) List.mem_cons_self
      have he'' : e' ∈ sortEntries (fields.encodeFields vs) := by
        rw [hsplit]
        exact List.mem_append_left _ he'
      obtain ⟨name', w', rfl⟩ := encodeFields_key (hmem e' he'')
      obtain rfl : name' = name := of_decide_eq_true heq
      exact hlt.2 rfl
    refine ⟨_, ?_, partialOf_congr fields vs fun n _ => (marked_append done name w n).symm⟩
    change fields.readField bits _ (fields.index name) (w ++ r) = _
    rw [hi, hread _ hnew]
  obtain ⟨acc, hloop, rfl⟩ := everyKey_encode (r := r) (fun e : DictKey × Bytes => fields.index e.1.text)
    (fun e => e.1.writeTo) (fun e => e.2) (fun done acc => acc = fields.partialOf vs (marked done))
    hhead hkey hvalue (partialOf_start fields vs).symm
  rw [Act.bind_of_ok hloop, partialOf_congr fields vs fun _ hn => marked_sorted hn, finish_partialOf]
  rfl

end Struct

/-! Maps: the entries come in the order of their keys, so that each is put behind the others. -/

section Map

variable {bits : ℕ} {K : Key} {V : Type}

theorem insert_last {m : List (K.Val × V)} {k : K.Val} {v : V}
    (h : ∀ e ∈ m, bytesLe (K.display e.1) (K.display k) = true ∧ K.display e.1 ≠ K.display k) :
    K.insert k v m = m ++ [(k, v)] := by
  induction m with
  | nil => rfl
  | cons e m ih =>
    obtain ⟨hle, hne⟩ := h e List.mem_cons_self
    have hnot : ¬ bytesLe (K.display k) (K.display e.1) = true := fun hge => hne (bytesLe_antisymm hle hge)
    rw [Key.insert, if_neg (Ne.symm hne), if_neg hnot, ih fun e' he' => h e' (List.mem_cons_of_mem e he')]
    rfl

/-- The entries of a map as they are written. -/
def Key.entries (K : Key) (encode : V → Bytes) (m : List (K.Val × V)) : List (DictKey × Bytes) :=
  m.map fun e => (.unicode (K.display e.1), encode e.2)

theorem sortEntries_ordered {m : List (K.Val × V)} (h : K.Ordered m) (encode : V → Bytes) :
    sortEntries (K.entries encode m) = K.entries encode m :=
  List.Pairwise.insertionSort_eq (List.pairwise_map.mpr (h.imp fun hlt => hlt.1))

theorem map_visitMap {t : Ty} {m : List (K.Val × t.Val)} (hm : K.Ordered m)
    (hread : ∀ v, (t.encode v).length < 2 ^ bits → ∀ r, t.deserialize bits (t.encode v ++ r) = .ok v r)
    (hfits : (flush (K.entries t.encode m)).length < 2 ^ bits) (r : Bytes) :
    everyKey (deserializeString bits) (K.putEntry (t.deserialize bits)) ⟨[], List.Pairwise.nil⟩
      ((sortEntries (K.entries t.encode m)).flatMap (fun e => e.1.writeTo ++ e.2) ++ 101 :: r) =
      .ok ⟨m, hm⟩ (101 :: r) := by
  have hlen : ∀ e ∈ m, (writeUnicode (K.display e.1)).length + (t.encode e.2).length < 2 ^ bits := by
    intro e he
    exact (length_entry_le (List.mem_map_of_mem he)).trans_lt hfits
  have hflat : (sortEntries (K.entries t.encode m)).flatMap (fun e => e.1.writeTo ++ e.2) =
      m.flatMap fun e => writeUnicode (K.display e.1) ++ t.encode e.2 := by
    rw [sortEntries_ordered hm, Key.entries, List.flatMap_map]
    rfl
  have hvalue : ∀ done e rest, m = done ++ e :: rest →
      ∀ acc : {m : List (K.Val × t.Val) // K.Ordered m}, acc.1 = done → ∀ r, ∃ acc',
        K.putEntry (t.deserialize bits) acc (K.display e.1) (t.encode e.2 ++ r) = .ok acc' r ∧
          acc'.1 = done ++ [e] := by
    rintro done e rest hsplit ⟨acc, hacc⟩ rfl r
    have he : e ∈ m := by
      rw [hsplit]
      exact List.mem_append_right _ List.mem_cons_self
    have hbefore : ∀ e' ∈ acc, bytesLe (K.display e'.1) (K.display e.1) = true ∧ K.display e'.1 ≠ K.display e.1 := by
      intro e' he'
      rw [hsplit] at hm
      exact (List.pairwise_append.mp hm).2.2 e' he' e List.mem_cons_self
    refine ⟨⟨K.insert e.1 e.2 acc, hacc.insert e.1 e.2⟩, ?_, insert_last hbefore⟩
    rw [Key.putEntry, Act.bind_of_ok (hread e.2 (lt_of_le_of_lt (Nat.le_add_left _ _) (hlen e he)) r), K.fromStr_display]
    rfl
  have hkey : ∀ e ∈ m, ∀ r, deserializeString bits (writeUnicode (K.display e.1) ++ r) = .ok (K.display e.1) r :=
    fun e he r => deserializeAny_writeUnicode _ (K.utf8 e.1) (lt_of_le_of_lt (Nat.le_add_right _ _) (hlen e he))
  have hstart : (⟨[], List.Pairwise.nil⟩ : {m : List (K.Val × t.Val) // K.Ordered m}).1 = [] := rfl
  obtain ⟨⟨acc, hacc⟩, hloop, heq⟩ := everyKey_encode (r := r) (fun e : K.Val × t.Val => K.display e.1)
    (fun e => writeUnicode (K.display e.1)) (fun e => t.encode e.2) (fun done (acc : {m : List (K.Val × t.Val) // K.Ordered m}) => acc.1 = done)
    (fun e _ => ⟨117, _, rfl, by decide⟩)
    hkey hvalue hstart
  obtain rfl : acc = m := heq
  rw [hflat]
  exact hloop

end Map

/-! Values. -/

section Values

variable {bits : ℕ}

/-- How a payload stands in its enum: as a bare name, or behind the name in a dictionary. -/
def Payload.Reads (payload : Payload) (bits : ℕ) (name : Bytes) (v : payload.Val) : Prop :=
  (payload.encode name v = writeUnicode name ∧ ∀ r, payload.unitOnly r = .ok v r) ∨
    ∃ w, payload.encode name v = 100 :: (writeUnicode name ++ w) ∧ ∀ r, payload.dictValue bits (w ++ r) = .ok v r

def Variants.Reads (variants : Variants) (bits : ℕ) (v : variants.Val) : Prop :=
  ∃ name i, name ∈ variants.names ∧ variants.index name = some i ∧
    ((variants.encode v = writeUnicode name ∧ ∀ r, variants.unitVariant i r = .ok v r) ∨
      ∃ w, variants.encode v = 100 :: (writeUnicode name ++ w) ∧
        ∀ r, variants.dictVariant bits i (w ++ r) = .ok v r)

theorem enum_deserialize {variants : Variants} (hnames : NamesWellFormed variants.names) {v : variants.Val}
    (hreads : variants.Reads bits v) (hfits : (variants.encode v).length < 2 ^ bits) (r : Bytes) :
    (Ty.enum variants).deserialize bits (variants.encode v ++ r) = .ok v r := by
  obtain ⟨name, i, hname, hi, ⟨hencode, hread⟩ | ⟨w, hencode, hread⟩⟩ := hreads
  · rw [hencode] at hfits ⊢
    have hident : variants.identifier bits (writeUnicode name ++ r) = .ok i r := by
      refine (deserializeIdentifier_writeUnicode _ (hnames.2 name hname) hfits).trans ?_
      change orCustom (variants.index name) r = _
      rw [hi]
      rfl
    exact (deserializeEnum_text _ _ name).trans ((Act.bind_of_ok hident _).trans (hread r))
  · rw [hencode] at hfits ⊢
    have hlen : (writeUnicode name).length < 2 ^ bits := by
      rw [List.length_cons, List.length_append] at hfits
      omega
    have hident : variants.identifier bits (writeUnicode name ++ (w ++ r)) = .ok i (w ++ r) := by
      refine (deserializeIdentifier_writeUnicode _ (hnames.2 name hname) hlen).trans ?_
      change orCustom (variants.index name) (w ++ r) = _
      rw [hi]
      rfl
    rw [List.cons_append, List.append_assoc]
    exact (deserializeEnum_map _ _).trans ((Act.bind_of_ok hident _).trans (hread r))

mutual

theorem Ty.deserialize_encode : (t : Ty) → t.WellFormed → (v : t.Val) → (t.encode v).length < 2 ^ bits →
    ∀ r, t.deserialize bits (t.encode v ++ r) = .ok v r
  | .scalar S, _, v, hfits, _ => S.deserialize_encode v hfits
  | .option t, ht, v, hfits, r => by
    cases v with
    | none => rfl
    | some v =>
      have hread := t.deserialize_encode ht.2 v hfits r
      obtain ⟨b, s, hs, -, hnull⟩ := t.encode_tagged v
      have hencode : (Ty.option t).encode (some v) = t.encode v := rfl
      have hb : b ≠ 110 := fun h => ht.1 (hnull h)
      rw [hencode]
      rw [hs, List.cons_append] at hread ⊢
      exact (deserializeOption_some hb _ _).trans (Act.map_of_ok hread _)
  | .seq t, ht, _, hfits, r => seq_deserialize (fun v => t.deserialize_encode ht v) hfits r
  | .tuple fields, ht, vs, hfits, r => by
    have hencode : (Ty.tuple fields).encode vs = 108 :: (fields.encodeItems vs ++ [101]) := rfl
    rw [hencode] at hfits ⊢
    have hlen : (fields.encodeItems vs).length < 2 ^ bits := by
      rw [List.length_cons, List.length_append] at hfits
      omega
    rw [List.cons_append, List.append_assoc]
    exact deserializeSeq_list (fields.visitSeq_encode ht vs hlen r)
  | .newtype t, ht, v, hfits, r => t.deserialize_encode ht v hfits r
  | .struct fields, ht, vs, hfits, r => by
    have hencode : (Ty.struct fields).encode vs = flush (fields.encodeFields vs) := rfl
    rw [hencode] at hfits ⊢
    have hvisit := struct_visitMap ht.1 (fields.placed ht.2 ht.1.1 vs) hfits r
    rw [flush, List.cons_append, List.append_assoc]
    exact deserializeMap_map hvisit
  | .enum variants, ht, v, hfits, r => enum_deserialize ht.1 (variants.reads ht.2 ht.1.1 v hfits) hfits r
  | .map K t, ht, m, hfits, r => by
    have hencode : (Ty.map K t).encode m = flush (K.entries t.encode m.1) := rfl
    rw [hencode] at hfits ⊢
    have hvisit := map_visitMap m.2 (fun v => t.deserialize_encode ht v) hfits r
    rw [flush, List.cons_append, List.append_assoc]
    exact deserializeMap_map hvisit

theorem Fields.visitSeq_encode : (fields : Fields) → fields.WellFormed → (vs : fields.Val) →
    (fields.encodeItems vs).length < 2 ^ bits →
    ∀ r, fields.visitSeq bits (fields.encodeItems vs ++ 101 :: r) = .ok vs (101 :: r)
  | .nil, _, _, _, _ => rfl
  | .cons _ t fields, ht, (v, vs), hfits, r => by
    rw [Fields.encodeItems, List.length_append] at hfits
    have hfirst := t.deserialize_encode ht.1 v (by omega) (fields.encodeItems vs ++ 101 :: r)
    have hrest := fields.visitSeq_encode ht.2 vs (by omega) r
    rw [Fields.encodeItems, List.append_assoc, Fields.visitSeq,
      Act.bind_of_ok (nextElement_encode (encode_open t v) hfirst)]
    exact Act.bind_of_ok hrest _

theorem Fields.placed : (fields : Fields) → fields.WellFormed → fields.names.Nodup → (vs : fields.Val) →
    fields.Placed bits vs
  | .nil, _, _, _ => fun _ _ h => absurd h List.not_mem_nil
  | .cons name t fields, ht, hnodup, (v, vs) => by
    obtain ⟨hnew, hnodup⟩ := List.nodup_cons.mp hnodup
    intro n w hmem hfits
    rcases List.mem_cons.mp hmem with heq | hmem
    · cases heq
      refine ⟨0, if_pos rfl, fun done hdone r => ?_⟩
      have hread := t.deserialize_encode ht.1 v hfits r
      have hrest : fields.partialOf vs (fun m => m = name || done m) = fields.partialOf vs done := by
        refine partialOf_congr fields vs fun m hm => ?_
        have hne : m ≠ name := fun h => hnew (h ▸ hm)
        simp [hne]
      have hmark : (decide (name = name) || false) = true := by simp
      rw [Fields.partialOf, Fields.partialOf, hdone, hrest, if_pos hmark]
      exact Act.bind_of_ok hread _
    · have hne : name ≠ n := fun h => hnew (h ▸ encodeFields_mem hmem)
      obtain ⟨i, hi, hread⟩ := fields.placed ht.2 hnodup vs n w hmem hfits
      refine ⟨i + 1, by rw [Fields.index, if_neg hne, hi]; rfl, fun done hdone r => ?_⟩
      have hfirst : (name = n || done name : Bool) = done name := by simp [hne]
      rw [Fields.partialOf, Fields.partialOf, hfirst]
      exact Act.bind_of_ok (hread done hdone r) _

theorem Variants.reads : (variants : Variants) → variants.WellFormed → variants.names.Nodup → (v : variants.Val) →
    (variants.encode v).length < 2 ^ bits → variants.Reads bits v
  | .nil, _, _, v, _ => Empty.elim v
  | .cons name payload variants, ht, _, .inl v, hfits => by
    refine ⟨name, 0, List.mem_cons_self, if_pos rfl, ?_⟩
    rcases payload.reads ht.1 name v hfits with ⟨hencode, hread⟩ | ⟨w, hencode, hread⟩
    · exact .inl ⟨hencode, fun r => Act.map_of_ok (hread r) _⟩
    · exact .inr ⟨w, hencode, fun r => Act.map_of_ok (hread r) _⟩
  | .cons name payload variants, ht, hnodup, .inr v, hfits => by
    obtain ⟨hnew, hnodup⟩ := List.nodup_cons.mp hnodup
    obtain ⟨n, i, hn, hi, hread⟩ := variants.reads ht.2 hnodup v hfits
    have hne : name ≠ n := fun h => hnew (h ▸ hn)
    refine ⟨n, i + 1, List.mem_cons_of_mem name hn, by rw [Variants.index, if_neg hne, hi]; rfl, ?_⟩
    rcases hread with ⟨hencode, hread⟩ | ⟨w, hencode, hread⟩
    · exact .inl ⟨hencode, fun r => Act.map_of_ok (hread r) _⟩
    · exact .inr ⟨w, hencode, fun r => Act.map_of_ok (hread r) _⟩

theorem Payload.reads : (payload : Payload) → payload.WellFormed → (name : Bytes) → (v : payload.Val) →
    (payload.encode name v).length < 2 ^ bits → payload.Reads bits name v
  | .unit, _, _, _, _ => .inl ⟨rfl, fun _ => rfl⟩
  | .newtype t, ht, name, v, hfits => by
    have hencode : (Payload.newtype t).encode name v = 100 :: (writeUnicode name ++ t.encode v ++ [101]) := rfl
    rw [hencode] at hfits
    refine .inr ⟨t.encode v ++ [101], by rw [hencode, List.append_assoc], fun r => ?_⟩
    have hread := t.deserialize_encode ht v (by simp at hfits; omega) (101 :: r)
    rw [List.append_assoc]
    exact (Act.bind_of_ok hread _).trans (Act.bind_of_ok (consumeEnd_end r) _)
  | .tuple fields, ht, name, vs, hfits => by
    have hencode : (Payload.tuple fields).encode name vs =
        100 :: (writeUnicode name ++ 108 :: (fields.encodeItems vs ++ [101]) ++ [101]) := rfl
    rw [hencode] at hfits
    refine .inr ⟨108 :: (fields.encodeItems vs ++ [101, 101]), by rw [hencode]; simp, fun r => ?_⟩
    have hread := fields.visitSeq_encode ht vs (by simp at hfits; omega) (101 :: r)
    rw [List.cons_append, List.append_assoc, Payload.dictValue, Act.bind_of_ok (peek_cons 108 _), if_pos rfl,
      Act.bind_of_ok (advance_one 108 _)]
    refine (Act.bind_of_ok hread _).trans ?_
    rw [Act.bind_of_ok (consumeEnd_end _), Act.bind_of_ok (consumeEnd_end r)]
    rfl
  | .struct fields, ht, name, vs, hfits => by
    have hencode : (Payload.struct fields).encode name vs =
        100 :: (writeUnicode name ++ flush (fields.encodeFields vs) ++ [101]) := rfl
    rw [hencode] at hfits
    have hvisit := struct_visitMap ht.1 (fields.placed ht.2 ht.1.1 vs) (by simp at hfits; omega)
    refine .inr ⟨flush (fields.encodeFields vs) ++ [101], by rw [hencode, List.append_assoc], fun r => ?_⟩
    have hread := hvisit (101 :: r)
    rw [flush, List.append_assoc, List.cons_append, List.append_assoc, Payload.dictValue,
      Act.bind_of_ok (peek_cons 100 _), if_pos rfl, Act.bind_of_ok (advance_one 100 _)]
    refine (Act.bind_of_ok hread _).trans ?_
    rw [Act.bind_of_ok (consumeEnd_end _), Act.bind_of_ok (consumeEnd_end r)]
    rfl

end

theorem toVec_serializes {t : Ty} (ht : t.WellFormed) {v : t.Val} {c : Call} (h : t.Serializes v c) :
    toVec c = .ok (t.encode v) := (t.write_serializes ht v c h).1

theorem fromSlice_encode {t : Ty} (ht : t.WellFormed) {v : t.Val} (hfits : (t.encode v).length < 2 ^ bits) :
    fromSlice (t.deserialize bits) (t.encode v) = .ok v := by
  have hread := t.deserialize_encode ht v hfits []
  rw [List.append_nil] at hread
  rw [fromSlice, hread]

end Values

/-- The entries of a dictionary as it is written: in the order of their keys, which grow. -/
def Increasing (sorted entries : List (DictKey × Bytes)) (out : Bytes) : Prop :=
  sorted.Perm entries ∧ (sorted.map Prod.fst).Pairwise DictKey.Lt ∧
    out = 100 :: (sorted.flatMap (fun e => e.1.writeTo ++ e.2) ++ [101])

theorem flush_increasing {entries : List (DictKey × Bytes)} (h : (entries.map Prod.fst).Nodup) :
    Increasing (sortEntries entries) entries (flush entries) :=
  ⟨sortEntries_perm entries, sortEntries_increasing h, rfl⟩

/-- What is written for a value is the same whatever order its fields and entries come in, the value is read
back from it, and its dictionaries have their entries in the order of the keys. -/
theorem roundTrip (bits : ℕ) :
    (∀ (t : Ty) (v : t.Val) (c : Call), t.WellFormed → t.Serializes v c → ∃ out, toVec c = .ok out ∧
      (∀ c', t.Serializes v c' → toVec c' = .ok out) ∧
      (out.length < 2 ^ bits → t.deserialize bits out = .ok v [] ∧ fromSlice (t.deserialize bits) out = .ok v)) ∧
    (∀ (fields : List (Bytes × Call)) entries, writeFields fields = .ok entries → (fields.map Prod.fst).Nodup →
      ∃ sorted out, Increasing sorted entries out ∧ toVec (.struct fields) = .ok out ∧
        (∀ variant, toVec (.structVariant variant fields) = .ok (100 :: (writeUnicode variant ++ out ++ [101]))) ∧
        ∀ fields', fields.Perm fields' → toVec (.struct fields') = .ok out) ∧
    ∀ (calls : List (Call × Call)) entries, writeEntries calls = .ok entries → (entries.map Prod.fst).Nodup →
      ∃ sorted out, Increasing sorted entries out ∧ toVec (.map calls) = .ok out ∧
        ∀ calls', calls.Perm calls' → toVec (.map calls') = .ok out := by
  refine ⟨fun t v c ht h => ?_, fun fields entries hwrite hnames => ?_, fun calls entries hwrite hkeys => ?_⟩
  · refine ⟨t.encode v, toVec_serializes ht h, fun c' h' => toVec_serializes ht h', fun hfits => ?_⟩
    have hread := t.deserialize_encode ht v hfits []
    rw [List.append_nil] at hread
    exact ⟨hread, fromSlice_encode ht hfits⟩
  · have hkeys : (entries.map Prod.fst).Nodup := by
      rw [writeFields_keys hwrite]
      exact unicode_nodup hnames
    refine ⟨sortEntries entries, flush entries, flush_increasing hkeys, by rw [toVec, write, hwrite]; rfl,
      fun variant => by rw [toVec, write, hwrite]; rfl, fun fields' hperm => ?_⟩
    obtain ⟨entries', hwrite', hflush⟩ := flush_fields hperm hwrite hkeys
    rw [toVec, write, hwrite', ← hflush]
    rfl
  · refine ⟨sortEntries entries, flush entries, flush_increasing hkeys, by rw [toVec, write, hwrite]; rfl,
      fun calls' hperm => ?_⟩
    obtain ⟨entries', hwrite', hflush⟩ := flush_entries hperm hwrite hkeys
    rw [toVec, write, hwrite', ← hflush]
    rfl

/-- The fields `b = [1, 2]` and `a = On(Some(true))` in either order, and a byte key before a text key. -/
theorem roundTrip_struct :
    ∃ out, toVec (.struct [([98], .seq [.u8 1, .u8 2]), ([97], .newtypeVariant [79, 110] (.some (.bool true)))]) =
        .ok out ∧
      toVec (.struct [([97], .newtypeVariant [79, 110] (.some (.bool true))), ([98], .seq [.u8 1, .u8 2])]) = .ok out ∧
      fromSlice (Ty.deserialize 64 (.struct (.cons [98] (.seq (.scalar .u8)) (.cons [97]
        (.enum (.cons [79, 102, 102] .unit (.cons [79, 110] (.newtype (.option (.scalar .bool))) .nil))) .nil)))) out =
          .ok (([1, 2] : List UInt8), .inr (.inl (some true)), ()) ∧
      toVec (.structVariant [79, 110] [([98], .seq [.u8 1, .u8 2]),
        ([97], .newtypeVariant [79, 110] (.some (.bool true)))]) =
          .ok (100 :: (writeUnicode [79, 110] ++ out ++ [101])) ∧
      toVec (.map [(.str [97], .bool true), (.bytes [98], .bool false)]) =
        toVec (.map [(.bytes [98], .bool false), (.str [97], .bool true)]) := by
  have hbool : ¬ (Ty.scalar .bool).Nullable := by
    rintro ⟨v, hv⟩
    cases hv
  obtain ⟨values, fields, maps⟩ := roundTrip 64
  obtain ⟨out, hout, hsame, hread⟩ := values
    (.struct (.cons [98] (.seq (.scalar .u8)) (.cons [97]
      (.enum (.cons [79, 102, 102] .unit (.cons [79, 110] (.newtype (.option (.scalar .bool))) .nil))) .nil)))
    (([1, 2] : List UInt8), .inr (.inl (some true)), ())
    (.struct [([98], .seq [.u8 1, .u8 2]), ([97], .newtypeVariant [79, 110] (.some (.bool true)))])
    ⟨⟨by decide, by decide⟩, trivial, ⟨⟨by decide, by decide⟩, trivial, ⟨hbool, trivial⟩, trivial⟩, trivial⟩
    ⟨_, _, rfl, .refl _, _, _, rfl, ⟨_, rfl, .cons rfl (.cons rfl .nil)⟩, _, _, rfl, ⟨_, rfl, _, rfl, rfl⟩, rfl⟩
  obtain ⟨sorted, out', -, hfields, hvariant, hperm⟩ := fields
    [([98], .seq [.u8 1, .u8 2]), ([97], .newtypeVariant [79, 110] (.some (.bool true)))] _ rfl (by decide)
  obtain ⟨_, outMap, -, hmap, hmapPerm⟩ := maps [(.str [97], .bool true), (.bytes [98], .bool false)] _ rfl (by decide)
  obtain rfl : out' = out := Except.ok.inj (hfields.symm.trans hout)
  have hlength : out'.length < 2 ^ 64 := by
    obtain rfl := Except.ok.inj hout
    decide
  exact ⟨out', hout, hperm _ (.swap _ _ _), (hread hlength).2, hvariant [79, 110],
    hmap.trans (hmapPerm _ (.swap _ _ _)).symm⟩

end Bencodex

end ChiaGaming
