import ChiaGaming.Bencodex.Entry
import ChiaGaming.Bencodex.Ser

namespace ChiaGaming

/-! Types with the values that they have, what a value asks of a serializer and what is read for the type,
as `derive` writes them. -/

namespace Bencodex

/-! Values without parts. -/

inductive Atom where
  | unit
  | bool (v : Bool)
  | u8 (v : UInt8)
  | int (v : ℤ)
  | str (v : Bytes)
  | bytes (v : Bytes)

def Atom.call : Atom → Call
  | unit => .unit
  | bool v => .bool v
  | u8 v => .u8 v
  | int v => .int v
  | str v => .str v
  | bytes v => .bytes v

/-- The entry point that a type goes through. -/
inductive Method where
  | any
  | bool
  | unit
  | bytes

/-- The methods of a visitor that get a value without parts. -/
structure Visit (V : Type) where
  unit : Option V
  bool : Bool → Option V
  int : ℤ → Option V
  str : Bytes → Option V
  bytes : Bytes → Option V
  /-- What is made of a sequence of bytes, where the type takes one. -/
  seq : Option (Bytes → Option V)

namespace Visit

variable {V : Type}

def refuse : Visit V where
  unit := none
  bool := fun _ => none
  int := fun _ => none
  str := fun _ => none
  bytes := fun _ => none
  seq := none

def atom (visit : Visit V) : Atom → Option V
  | .unit => visit.unit
  | .bool v => visit.bool v
  | .u8 v => visit.int v.toNat
  | .int v => visit.int v
  | .str v => visit.str v
  | .bytes v => visit.bytes v

end Visit

/-- Texts are in UTF-8, and integers within the bounds of the encoder's own. -/
def Atom.Fits : Atom → Prop
  | .int v => -2 ^ 127 ≤ v ∧ v < 2 ^ 127
  | .str v => validUtf8 v = true
  | _ => True

/-- A type whose values are written in one call, and which is read by the visitor that it brings. -/
structure Scalar where
  Val : Type
  method : Method
  visit : Visit Val
  atom : Val → Atom
  fits : ∀ v, (atom v).Fits
  visit_atom : ∀ v, visit.atom (atom v) = some v

/-! The scalar types of the language. -/

section Scalars

def boolVisit : Visit Bool := { Visit.refuse with bool := some }

theorem bool_fits (v : Bool) : (Atom.bool v).Fits := trivial

theorem bool_visit (v : Bool) : boolVisit.atom (.bool v) = some v := rfl

def Scalar.bool : Scalar where
  Val := Bool
  method := .bool
  visit := boolVisit
  atom := .bool
  fits := bool_fits
  visit_atom := bool_visit

def unitVisit : Visit Unit := { Visit.refuse with unit := some () }

theorem unit_fits (_ : Unit) : Atom.unit.Fits := trivial

theorem unit_visit (v : Unit) : unitVisit.atom .unit = some v := rfl

def Scalar.unit : Scalar where
  Val := Unit
  method := .unit
  visit := unitVisit
  atom := fun _ => .unit
  fits := unit_fits
  visit_atom := unit_visit

def u8OfInt (z : ℤ) : Option UInt8 := if 0 ≤ z ∧ z < 256 then some (UInt8.ofNat z.toNat) else none

theorem u8OfInt_toNat (v : UInt8) : u8OfInt v.toNat = some v := by
  have hv := v.toNat_lt
  rw [u8OfInt, if_pos (by omega), Int.toNat_natCast, UInt8.ofNat_toNat]

/-- `u8`, which is told from the other integers in a sequence. -/
def u8Visit : Visit UInt8 := { Visit.refuse with int := u8OfInt }

theorem u8_fits (v : UInt8) : (Atom.u8 v).Fits := trivial

theorem u8_visit (v : UInt8) : u8Visit.atom (.u8 v) = some v := by
  simp only [Visit.atom, u8Visit, u8OfInt_toNat]

def Scalar.u8 : Scalar where
  Val := UInt8
  method := .any
  visit := u8Visit
  atom := .u8
  fits := u8_fits
  visit_atom := u8_visit

/-- The bounds of an integer type of 64 bits at most. -/
structure Width where
  least : ℤ
  greatest : ℤ
  least_fits : -2 ^ 63 ≤ least
  greatest_fits : greatest < 2 ^ 64

def Width.Val (w : Width) : Type := {z : ℤ // w.least ≤ z ∧ z ≤ w.greatest}

def Width.visit (w : Width) : Visit w.Val :=
  { Visit.refuse with int := fun z => if h : w.least ≤ z ∧ z ≤ w.greatest then some ⟨z, h⟩ else none }

theorem Width.fits (w : Width) (v : w.Val) : (Atom.int v.1).Fits := by
  have hleast := w.least_fits
  have hgreatest := w.greatest_fits
  obtain ⟨z, hlow, hhigh⟩ := v
  have hbounds : -2 ^ 127 ≤ z ∧ z < 2 ^ 127 := by omega
  exact hbounds

theorem Width.visit_int (w : Width) (v : w.Val) : w.visit.atom (.int v.1) = some v := dif_pos v.2

/-- `i8`, `u16`, `i16`, `u32`, `i32`, `u64`, `i64`, `usize` and `isize`. -/
def Scalar.integer (w : Width) : Scalar where
  Val := w.Val
  method := .any
  visit := w.visit
  atom := fun v => .int v.1
  fits := w.fits
  visit_atom := w.visit_int

def Text : Type := {s : Bytes // validUtf8 s = true}

/-- A byte string is a text as well if it is in UTF-8. -/
def textVisit : Visit Text :=
  { Visit.refuse with
    str := fun s => if h : validUtf8 s = true then some ⟨s, h⟩ else none
    bytes := fun s => if h : validUtf8 s = true then some ⟨s, h⟩ else none }

theorem text_fits (v : Text) : (Atom.str v.1).Fits := v.2

theorem text_visit (v : Text) : textVisit.atom (.str v.1) = some v := dif_pos v.2

def Scalar.string : Scalar where
  Val := Text
  method := .any
  visit := textVisit
  atom := fun v => .str v.1
  fits := text_fits
  visit_atom := text_visit

/-- What takes bytes, or a text or a sequence in their place. -/
def byteBufVisit : Visit Bytes := { Visit.refuse with str := some, bytes := some, seq := some some }

theorem byteBuf_fits (v : Bytes) : (Atom.bytes v).Fits := trivial

theorem byteBuf_visit (v : Bytes) : byteBufVisit.atom (.bytes v) = some v := rfl

def Scalar.byteBuf : Scalar where
  Val := Bytes
  method := .bytes
  visit := byteBufVisit
  atom := .bytes
  fits := byteBuf_fits
  visit_atom := byteBuf_visit

end Scalars

/-- A type of keys that stand in a dictionary as texts. -/
structure Key where
  Val : Type
  display : Val → Bytes
  fromStr : Bytes → Option Val
  utf8 : ∀ k, validUtf8 (display k) = true
  fromStr_display : ∀ k, fromStr (display k) = some k

def textOfStr (s : Bytes) : Option Text := if h : validUtf8 s = true then some ⟨s, h⟩ else none

theorem textOfStr_val (v : Text) : textOfStr v.1 = some v := dif_pos v.2

/-- `String` -/
def Key.string : Key where
  Val := Text
  display := Subtype.val
  fromStr := textOfStr
  utf8 := Subtype.property
  fromStr_display := textOfStr_val

namespace Key

variable {V : Type}

/-- A map, listed in the order of its keys. -/
def Ordered (K : Key) (m : List (K.Val × V)) : Prop :=
  m.Pairwise fun a b => bytesLe (K.display a.1) (K.display b.1) = true ∧ K.display a.1 ≠ K.display b.1

/-- `HashMap::insert` -/
def insert (K : Key) (k : K.Val) (v : V) : List (K.Val × V) → List (K.Val × V)
  | [] => [(k, v)]
  | e :: m =>
    if K.display k = K.display e.1 then (k, v) :: m
    else if bytesLe (K.display k) (K.display e.1) then (k, v) :: e :: m
    else e :: K.insert k v m

theorem mem_insert {K : Key} {k : K.Val} {v : V} {m : List (K.Val × V)} {e : K.Val × V}
    (h : e ∈ K.insert k v m) : e = (k, v) ∨ e ∈ m := by
  induction m with
  | nil => exact .inl (List.mem_singleton.mp h)
  | cons e' m ih =>
    rw [insert] at h
    split_ifs at h with heq hle
    · rcases List.mem_cons.mp h with h | h
      · exact .inl h
      · exact .inr (List.mem_cons_of_mem e' h)
    · exact List.mem_cons.mp h
    · rcases List.mem_cons.mp h with h | h
      · exact .inr (List.mem_cons.mpr (.inl h))
      · exact (ih h).imp_right (List.mem_cons_of_mem e')

theorem Ordered.insert {K : Key} {m : List (K.Val × V)} (h : K.Ordered m) (k : K.Val) (v : V) :
    K.Ordered (K.insert k v m) := by
  induction m with
  | nil => exact List.pairwise_singleton _ _
  | cons e m ih =>
    obtain ⟨hfirst, hrest⟩ := List.pairwise_cons.mp h
    rw [Key.insert]
    split_ifs with heq hle
    · refine List.pairwise_cons.mpr ⟨fun e' he' => ?_, hrest⟩
      rw [heq]
      exact hfirst e' he'
    · refine List.pairwise_cons.mpr ⟨fun e' he' => ?_, h⟩
      rcases List.mem_cons.mp he' with rfl | he'
      · exact ⟨hle, heq⟩
      · obtain ⟨hle', hne'⟩ := hfirst e' he'
        refine ⟨bytesLe_trans hle hle', fun hsame => ?_⟩
        rw [hsame] at hle
        exact hne' (bytesLe_antisymm hle' hle)
    · refine List.pairwise_cons.mpr ⟨fun e' he' => ?_, ih hrest⟩
      rcases mem_insert he' with rfl | he'
      · exact ⟨(bytesLe_total _ _).resolve_left hle, Ne.symm heq⟩
      · exact hfirst e' he'

end Key

/-! Types. -/

mutual

inductive Ty where
  | scalar (S : Scalar)
  | option (t : Ty)
  | seq (t : Ty)
  /-- Tuples, arrays and structs without names; `fields` are named by their place. -/
  | tuple (fields : Fields)
  | newtype (t : Ty)
  | struct (fields : Fields)
  | enum (variants : Variants)
  | map (K : Key) (t : Ty)

inductive Fields where
  | nil
  | cons (name : Bytes) (t : Ty) (fields : Fields)

inductive Variants where
  | nil
  | cons (name : Bytes) (payload : Payload) (variants : Variants)

inductive Payload where
  | unit
  | newtype (t : Ty)
  | tuple (fields : Fields)
  | struct (fields : Fields)

end

mutual

def Ty.Val : Ty → Type
  | .scalar S => S.Val
  | .option t => Option t.Val
  | .seq t => List t.Val
  | .tuple fields => fields.Val
  | .newtype t => t.Val
  | .struct fields => fields.Val
  | .enum variants => variants.Val
  | .map K t => {m : List (K.Val × t.Val) // K.Ordered m}

def Fields.Val : Fields → Type
  | .nil => Unit
  | .cons _ t fields => t.Val × fields.Val

def Variants.Val : Variants → Type
  | .nil => Empty
  | .cons _ payload variants => payload.Val ⊕ variants.Val

def Payload.Val : Payload → Type
  | .unit => Unit
  | .newtype t => t.Val
  | .tuple fields => fields.Val
  | .struct fields => fields.Val

end

/-- `[T; N]` -/
def Ty.array (n : ℕ) (t : Ty) : Ty := .tuple ((List.replicate n t).foldr (Fields.cons []) .nil)

/-- Fields that are read so far. -/
def Fields.Partial : Fields → Type
  | .nil => Unit
  | .cons _ t fields => Option t.Val × fields.Partial

namespace Fields

def start : (fields : Fields) → fields.Partial
  | .nil => ()
  | .cons _ _ fields => (none, fields.start)

def length : Fields → ℕ
  | .nil => 0
  | .cons _ _ fields => fields.length + 1

def index (s : Bytes) : Fields → Option ℕ
  | .nil => none
  | .cons name _ fields => if name = s then some 0 else (fields.index s).map (· + 1)

def names : Fields → List Bytes
  | .nil => []
  | .cons name _ fields => name :: fields.names

end Fields

namespace Variants

def length : Variants → ℕ
  | .nil => 0
  | .cons _ _ variants => variants.length + 1

def index (s : Bytes) : Variants → Option ℕ
  | .nil => none
  | .cons name _ variants => if name = s then some 0 else (variants.index s).map (· + 1)

def names : Variants → List Bytes
  | .nil => []
  | .cons name _ variants => name :: variants.names

end Variants

/-! Reading. -/

/-- A byte of a byte string in the place of an element. -/
def Ty.ofU8 : (t : Ty) → UInt8 → Option t.Val
  | .scalar S, byte => S.visit.int byte.toNat
  | _, _ => none

def Fields.ofBytes : (fields : Fields) → Bytes → Option fields.Val
  | .nil, _ => some ()
  | .cons _ _ _, [] => none
  | .cons _ t fields, byte :: bytes => do
    let v ← t.ofU8 byte
    let vs ← fields.ofBytes bytes
    pure (v, vs)

/-- A field that is left out. -/
def Ty.missing : (t : Ty) → Option t.Val
  | .option _ => some none
  | _ => none

def Fields.finish : (fields : Fields) → fields.Partial → Option fields.Val
  | .nil, _ => some ()
  | .cons _ t fields, (v, vs) => do
    let v ← v.or t.missing
    let vs ← fields.finish vs
    pure (v, vs)

/-- `UnitOnly` -/
def Payload.unitOnly : (payload : Payload) → De payload.Val
  | .unit => pure ()
  | _ => throw (.error (.message .expectedUnitVariant))

def Variants.unitVariant : (variants : Variants) → ℕ → De variants.Val
  | .nil, _ => throw (.error (.message .custom))
  | .cons _ payload _, 0 => Sum.inl <$> payload.unitOnly
  | .cons _ _ variants, i + 1 => Sum.inr <$> variants.unitVariant i

section Deserialize

variable (bits : ℕ)

/-- `u8` elements, of a list or of a byte string. -/
def deserializeU8 : De UInt8 :=
  deserializeAny bits { Visitor.refuse with int := fun z => orCustom (u8OfInt z) }

def Scalar.visitor (S : Scalar) : Visitor S.Val where
  unit := orCustom S.visit.unit
  bool := fun v => orCustom (S.visit.bool v)
  int := fun v => orCustom (S.visit.int v)
  str := fun v => orCustom (S.visit.str v)
  bytes := fun v => orCustom (S.visit.bytes v)
  seq := match S.visit.seq with
    | none => throw (.error (.message .custom))
    | some visitSeq => do
      let bytes ← everyElement (deserializeU8 bits)
      orCustom (visitSeq bytes)
  bytesSeq := fun bytes => orCustom (S.visit.seq.bind fun visitSeq => visitSeq bytes)
  map := throw (.error (.message .custom))

def Scalar.deserialize (S : Scalar) : De S.Val :=
  match S.method with
  | .any => deserializeAny bits (S.visitor bits)
  | .bool => deserializeBool bits (S.visitor bits)
  | .unit => deserializeUnit bits (S.visitor bits)
  | .bytes => deserializeBytes bits (S.visitor bits)

def deserializeString : De Bytes :=
  deserializeAny bits { Visitor.refuse with
    str := fun s => pure s
    bytes := fun b => orCustom (if validUtf8 b then some b else none) }

/-- The rest of an entry, behind the text of its key. -/
def Key.putEntry (K : Key) {V : Type} (value : De V) (m : {m : List (K.Val × V) // K.Ordered m}) (s : Bytes) :
    De {m : List (K.Val × V) // K.Ordered m} := do
  let v ← value
  let k ← orCustom (K.fromStr s)
  pure ⟨K.insert k v m.1, m.2.insert k v⟩

/-- The name of a field; `none` is one that the type does not have. -/
def Fields.identifier (fields : Fields) : De (Option ℕ) :=
  deserializeIdentifier bits { Visitor.refuse with
    int := fun z => orCustom (if 0 ≤ z ∧ z < 2 ^ 64 then
      some (if z < fields.length then some z.toNat else none) else none)
    str := fun s => pure (fields.index s)
    bytes := fun s => pure (fields.index s) }

def Variants.identifier (variants : Variants) : De ℕ :=
  deserializeIdentifier bits { Visitor.refuse with
    int := fun z => orCustom (if 0 ≤ z ∧ z < variants.length then some z.toNat else none)
    str := fun s => orCustom (variants.index s)
    bytes := fun s => orCustom (variants.index s) }

mutual

def Ty.deserialize : (t : Ty) → De t.Val
  | .scalar S => S.deserialize bits
  | .option t => deserializeOption none (some <$> t.deserialize)
  | .seq t => deserializeSeq bits { Visitor.refuse with
      seq := everyElement t.deserialize
      bytesSeq := fun bytes => orCustom (bytes.mapM t.ofU8) }
  | .tuple fields => deserializeSeq bits { Visitor.refuse with
      seq := fields.visitSeq
      bytesSeq := fun bytes => orCustom (fields.ofBytes bytes) }
  | .newtype t => t.deserialize
  | .struct fields => deserializeMap bits { Visitor.refuse with
      seq := fields.visitSeq
      map := do
        let read ← everyKey (fields.identifier bits) fields.readField fields.start
        orCustom (fields.finish read) }
  | .enum variants => deserializeEnum bits Visitor.refuse
      (do
        let i ← variants.identifier bits
        variants.unitVariant i)
      (do
        let i ← variants.identifier bits
        variants.dictVariant i)
  | .map K t => deserializeMap bits { Visitor.refuse with
      map := everyKey (deserializeString bits) (K.putEntry t.deserialize) ⟨[], List.Pairwise.nil⟩ }

/-- The elements of a sequence, one for each field. -/
def Fields.visitSeq : (fields : Fields) → De fields.Val
  | .nil => pure ()
  | .cons _ t fields => do
    match ← nextElement t.deserialize with
    | none => throw (.error (.message .custom))
    | some v => do
      let vs ← fields.visitSeq
      pure (v, vs)

def Fields.readField : (fields : Fields) → fields.Partial → Option ℕ → De fields.Partial
  | _, read, none => do
    deserializeIgnoredAny bits
    pure read
  | .nil, read, some _ => pure read
  | .cons _ t _, (v, vs), some 0 =>
    match v with
    | some _ => throw (.error (.message .custom))
    | none => do
      let v ← t.deserialize
      pure (some v, vs)
  | .cons _ _ fields, (v, vs), some (i + 1) => do
    let vs ← fields.readField vs (some i)
    pure (v, vs)

/-- `DictVariantValue` -/
def Variants.dictVariant : (variants : Variants) → ℕ → De variants.Val
  | .nil, _ => throw (.error (.message .custom))
  | .cons _ payload _, 0 => Sum.inl <$> payload.dictValue
  | .cons _ _ variants, i + 1 => Sum.inr <$> variants.dictVariant i

def Payload.dictValue : (payload : Payload) → De payload.Val
  | .unit => throw (.error (.message .expectedNonUnitVariant))
  | .newtype t => do
    let v ← t.deserialize
    consumeEnd
    pure v
  | .tuple fields => do
    let b ← peek
    if b = 108 then do
      advance 1
      let result ← fields.visitSeq
      consumeEnd
      consumeEnd
      pure result
    else invalid .expectedList
  | .struct fields => do
    let b ← peek
    if b = 100 then do
      advance 1
      let result ← (do
        let read ← everyKey (fields.identifier bits) fields.readField fields.start
        orCustom (fields.finish read))
      consumeEnd
      consumeEnd
      pure result
    else invalid .expectedDict

end

end Deserialize

end Bencodex

end ChiaGaming
