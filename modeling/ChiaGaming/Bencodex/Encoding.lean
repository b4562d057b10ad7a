import ChiaGaming.Bencodex.Schema
import ChiaGaming.Bencodex.Grammar

namespace ChiaGaming

/-! What the encoder writes for the values of a type. -/

namespace Bencodex

/-! A dictionary does not show in which order its entries came. -/

namespace DictKey

theorem le_total (a b : DictKey) : a.le b = true ∨ b.le a = true := by
  cases a with
  | bytes a =>
    cases b with
    | bytes b => exact bytesLe_total a b
    | unicode b => exact .inl rfl
  | unicode a =>
    cases b with
    | bytes b => exact .inr rfl
    | unicode b => exact bytesLe_total a b

theorem le_trans {a b c : DictKey} (hab : a.le b = true) (hbc : b.le c = true) : a.le c = true := by
  cases a with
  | bytes a =>
    cases c with
    | unicode c => rfl
    | bytes c =>
      cases b with
      | bytes b => exact bytesLe_trans hab hbc
      | unicode b => cases hbc
  | unicode a =>
    cases b with
    | bytes b => cases hab
    | unicode b =>
      cases c with
      | bytes c => cases hbc
      | unicode c => exact bytesLe_trans hab hbc

theorem le_antisymm {a b : DictKey} (hab : a.le b = true) (hba : b.le a = true) : a = b := by
  cases a with
  | bytes a =>
    cases b with
    | bytes b => exact congrArg bytes (bytesLe_antisymm hab hba)
    | unicode b => cases hba
  | unicode a =>
    cases b with
    | bytes b => cases hab
    | unicode b => exact congrArg unicode (bytesLe_antisymm hab hba)

/-- Smaller, and not the same. -/
def Lt (a b : DictKey) : Prop := a.le b = true ∧ a ≠ b

end DictKey

section Entries

variable {entries entries' : List (DictKey × Bytes)}

theorem sortEntries_perm (entries : List (DictKey × Bytes)) : (sortEntries entries).Perm entries :=
  List.perm_insertionSort _ entries

theorem sortEntries_sorted (entries : List (DictKey × Bytes)) :
    (sortEntries entries).Pairwise fun a b => a.1.le b.1 = true := by
  have : Std.Total fun a b : DictKey × Bytes => a.1.le b.1 = true := ⟨fun a b => DictKey.le_total a.1 b.1⟩
  have : IsTrans (DictKey × Bytes) fun a b => a.1.le b.1 = true := ⟨fun _ _ _ => DictKey.le_trans⟩
  exact List.pairwise_insertionSort _ entries

/-- Where no key comes twice, the keys grow from entry to entry. -/
theorem sortEntries_increasing (h : (entries.map Prod.fst).Nodup) :
    ((sortEntries entries).map Prod.fst).Pairwise DictKey.Lt := by
  have hnodup := ((sortEntries_perm entries).map Prod.fst).nodup_iff.mpr h
  have hsorted : ((sortEntries entries).map Prod.fst).Pairwise fun a b => a.le b = true :=
    List.pairwise_map.mpr (sortEntries_sorted entries)
  exact hsorted.and hnodup

theorem entry_eq_of_key_eq (h : (entries.map Prod.fst).Nodup) {a b : DictKey × Bytes} (ha : a ∈ entries)
    (hb : b ∈ entries) (heq : a.1 = b.1) : a = b := List.inj_on_of_nodup_map h ha hb heq

theorem sortEntries_eq_of_perm (hperm : entries.Perm entries') (h : (entries.map Prod.fst).Nodup) :
    sortEntries entries = sortEntries entries' := by
  have hsame := (sortEntries_perm entries).trans (hperm.trans (sortEntries_perm entries').symm)
  refine hsame.eq_of_pairwise (fun a b ha hb hab hba => ?_) (sortEntries_sorted entries) (sortEntries_sorted entries')
  have ha := (sortEntries_perm entries).mem_iff.mp ha
  have hb := hperm.mem_iff.mpr ((sortEntries_perm entries').mem_iff.mp hb)
  exact entry_eq_of_key_eq h ha hb (DictKey.le_antisymm hab hba)

theorem flush_eq_of_perm (hperm : entries.Perm entries') (h : (entries.map Prod.fst).Nodup) :
    flush entries = flush entries' := by
  rw [flush, sortEntries_eq_of_perm hperm h, ← flush]

end Entries

section Traverse

variable {ε α β : Type} {f : α → Except ε β}

theorem mapM_cons_eq_ok {a : α} {as : List α} {bs : List β} (h : (a :: as).mapM f = .ok bs) :
    ∃ b bs', f a = .ok b ∧ as.mapM f = .ok bs' ∧ bs = b :: bs' := by
  rw [List.mapM_cons] at h
  cases hf : f a with
  | error e =>
    rw [hf] at h
    cases h
  | ok b =>
    cases hfs : as.mapM f with
    | error e =>
      rw [hf, hfs] at h
      cases h
    | ok bs' =>
      rw [hf, hfs] at h
      exact ⟨b, bs', rfl, rfl, (Except.ok.inj h).symm⟩

theorem mapM_cons_of_ok {a : α} {as : List α} {b : β} {bs : List β} (hf : f a = .ok b) (hfs : as.mapM f = .ok bs) :
    (a :: as).mapM f = .ok (b :: bs) := by
  rw [List.mapM_cons, hf, hfs]
  rfl

/-- In another order the same comes out in another order. -/
theorem mapM_perm {as as' : List α} {bs : List β} (hperm : as.Perm as') (h : as.mapM f = .ok bs) :
    ∃ bs', as'.mapM f = .ok bs' ∧ bs.Perm bs' := by
  induction hperm generalizing bs with
  | nil => exact ⟨bs, h, .refl bs⟩
  | cons a _ ih =>
    obtain ⟨b, bs₁, hb, hbs₁, rfl⟩ := mapM_cons_eq_ok h
    obtain ⟨bs', hbs', hperm'⟩ := ih hbs₁
    exact ⟨b :: bs', mapM_cons_of_ok hb hbs', hperm'.cons b⟩
  | swap a a' as =>
    obtain ⟨b', bs₁, hb', hbs₁, rfl⟩ := mapM_cons_eq_ok h
    obtain ⟨b, bs₂, hb, hbs₂, rfl⟩ := mapM_cons_eq_ok hbs₁
    exact ⟨b :: b' :: bs₂, mapM_cons_of_ok hb (mapM_cons_of_ok hb' hbs₂), .swap b b' bs₂⟩
  | trans _ _ ih ih' =>
    obtain ⟨bs₁, hbs₁, hperm₁⟩ := ih h
    obtain ⟨bs₂, hbs₂, hperm₂⟩ := ih' hbs₁
    exact ⟨bs₂, hbs₂, hperm₁.trans hperm₂⟩

end Traverse

theorem writeFields_eq_mapM (fields : List (Bytes × Call)) : writeFields fields = fields.mapM writeField := by
  induction fields with
  | nil => rfl
  | cons field fields ih => rw [writeFields, ih, List.mapM_cons]

theorem writeEntries_eq_mapM (entries : List (Call × Call)) : writeEntries entries = entries.mapM writeEntry := by
  induction entries with
  | nil => rfl
  | cons entry entries ih => rw [writeEntries, ih, List.mapM_cons]

/-! What a value of a type may ask of a serializer: the fields of a struct and the entries of a map come in
any order. -/

mutual

def Ty.Serializes : (t : Ty) → t.Val → Call → Prop
  | .scalar S, v, c => c = (S.atom v).call
  | .option _, none, c => c = .none
  | .option t, some v, c => ∃ value, c = .some value ∧ t.Serializes v value
  | .seq t, vs, c => ∃ items, c = .seq items ∧ List.Forall₂ t.Serializes vs items
  | .tuple fields, vs, c => ∃ items, c = .tuple items ∧ fields.SerializesItems vs items
  | .newtype t, v, c => ∃ value, c = .newtypeStruct value ∧ t.Serializes v value
  | .struct fields, vs, c => ∃ calls calls', c = .struct calls' ∧ calls.Perm calls' ∧ fields.SerializesFields vs calls
  | .enum variants, v, c => variants.Serializes v c
  | .map K t, m, c => ∃ calls calls', c = .map calls' ∧ calls.Perm calls' ∧
      List.Forall₂ (fun e call => call.1 = .str (K.display e.1) ∧ t.Serializes e.2 call.2) m.1 calls

def Fields.SerializesItems : (fields : Fields) → fields.Val → List Call → Prop
  | .nil, _, items => items = []
  | .cons _ t fields, (v, vs), items => ∃ c cs, items = c :: cs ∧ t.Serializes v c ∧ fields.SerializesItems vs cs

def Fields.SerializesFields : (fields : Fields) → fields.Val → List (Bytes × Call) → Prop
  | .nil, _, calls => calls = []
  | .cons name t fields, (v, vs), calls => ∃ c cs, calls = (name, c) :: cs ∧ t.Serializes v c ∧
      fields.SerializesFields vs cs

def Variants.Serializes : (variants : Variants) → variants.Val → Call → Prop
  | .nil, _, _ => False
  | .cons name payload _, .inl v, c => payload.Serializes name v c
  | .cons _ _ variants, .inr v, c => variants.Serializes v c

def Payload.Serializes : (payload : Payload) → Bytes → payload.Val → Call → Prop
  | .unit, name, _, c => c = .unitVariant name
  | .newtype t, name, v, c => ∃ value, c = .newtypeVariant name value ∧ t.Serializes v value
  | .tuple fields, name, vs, c => ∃ items, c = .tupleVariant name items ∧ fields.SerializesItems vs items
  | .struct fields, name, vs, c => ∃ calls calls', c = .structVariant name calls' ∧ calls.Perm calls' ∧
      fields.SerializesFields vs calls

end

/-! The encoding of a value. -/

namespace Atom

def encode : Atom → Bytes
  | unit => [110]
  | bool v => [if v then 116 else 102]
  | u8 v => writeInt v.toNat
  | int v => writeInt v
  | str v => writeUnicode v
  | bytes v => writeBytestring v

def asU8 : Atom → Option UInt8
  | u8 v => some v
  | _ => none

theorem write_call (a : Atom) : write a.call = .ok a.encode := by
  cases a <;> rfl

theorem probeU8_call (a : Atom) : probeU8 a.call = a.asU8 := by
  cases a <;> rfl

theorem encode_of_asU8 {a : Atom} {byte : UInt8} (h : a.asU8 = some byte) : a = .u8 byte := by
  cases a with
  | u8 v =>
    cases h
    rfl
  | _ => cases h

end Atom

def Ty.asU8 : (t : Ty) → t.Val → Option UInt8
  | .scalar S, v => (S.atom v).asU8
  | _, _ => none

/-- Bytes are a byte string, but not where there are none. -/
def encodeSeq {V : Type} (asU8 : V → Option UInt8) (encode : V → Bytes) (vs : List V) : Bytes :=
  match vs.mapM asU8 with
  | some (byte :: bytes) => writeBytestring (byte :: bytes)
  | _ => 108 :: (vs.flatMap encode ++ [101])

mutual

def Ty.encode : (t : Ty) → t.Val → Bytes
  | .scalar S, v => (S.atom v).encode
  | .option _, none => [110]
  | .option t, some v => t.encode v
  | .seq t, vs => encodeSeq t.asU8 t.encode vs
  | .tuple fields, vs => 108 :: (fields.encodeItems vs ++ [101])
  | .newtype t, v => t.encode v
  | .struct fields, vs => flush (fields.encodeFields vs)
  | .enum variants, v => variants.encode v
  | .map K t, m => flush (m.1.map fun e => (.unicode (K.display e.1), t.encode e.2))

def Fields.encodeItems : (fields : Fields) → fields.Val → Bytes
  | .nil, _ => []
  | .cons _ t fields, (v, vs) => t.encode v ++ fields.encodeItems vs

def Fields.encodeFields : (fields : Fields) → fields.Val → List (DictKey × Bytes)
  | .nil, _ => []
  | .cons name t fields, (v, vs) => (.unicode name, t.encode v) :: fields.encodeFields vs

def Variants.encode : (variants : Variants) → variants.Val → Bytes
  | .cons name payload _, .inl v => payload.encode name v
  | .cons _ _ variants, .inr v => variants.encode v

def Payload.encode : (payload : Payload) → Bytes → payload.Val → Bytes
  | .unit, name, _ => writeUnicode name
  | .newtype t, name, v => 100 :: (writeUnicode name ++ t.encode v ++ [101])
  | .tuple fields, name, vs => 100 :: (writeUnicode name ++ 108 :: (fields.encodeItems vs ++ [101]) ++ [101])
  | .struct fields, name, vs => 100 :: (writeUnicode name ++ flush (fields.encodeFields vs) ++ [101])

end

/-! Types whose values can be read back: names are in UTF-8 and do not come twice, and nothing that an option
can hold looks like the option without it. -/

def Ty.Nullable : Ty → Prop
  | .scalar S => ∃ v, S.atom v = .unit
  | .option _ => True
  | .newtype t => t.Nullable
  | _ => False

def NamesWellFormed (names : List Bytes) : Prop := names.Nodup ∧ ∀ name ∈ names, validUtf8 name = true

mutual

def Ty.WellFormed : Ty → Prop
  | .scalar _ => True
  | .option t => ¬ t.Nullable ∧ t.WellFormed
  | .seq t => t.WellFormed
  | .tuple fields => fields.WellFormed
  | .newtype t => t.WellFormed
  | .struct fields => NamesWellFormed fields.names ∧ fields.WellFormed
  | .enum variants => NamesWellFormed variants.names ∧ variants.WellFormed
  | .map _ t => t.WellFormed

def Fields.WellFormed : Fields → Prop
  | .nil => True
  | .cons _ t fields => t.WellFormed ∧ fields.WellFormed

def Variants.WellFormed : Variants → Prop
  | .nil => True
  | .cons _ payload variants => payload.WellFormed ∧ variants.WellFormed

def Payload.WellFormed : Payload → Prop
  | .unit => True
  | .newtype t => t.WellFormed
  | .tuple fields => fields.WellFormed
  | .struct fields => NamesWellFormed fields.names ∧ fields.WellFormed

end

/-! The encoder writes the encoding. -/

theorem encodeFields_keys : (fields : Fields) → (vs : fields.Val) →
    (fields.encodeFields vs).map Prod.fst = fields.names.map DictKey.unicode
  | .nil, _ => rfl
  | .cons name _ fields, vs => congrArg (DictKey.unicode name :: ·) (encodeFields_keys fields vs.2)

theorem unicode_nodup {names : List Bytes} (h : names.Nodup) : (names.map DictKey.unicode).Nodup :=
  h.map fun _ _ heq => DictKey.unicode.inj heq

theorem encodeFields_nodup {fields : Fields} (h : NamesWellFormed fields.names) (vs : fields.Val) :
    ((fields.encodeFields vs).map Prod.fst).Nodup := by
  rw [encodeFields_keys]
  exact unicode_nodup h.1

section Seq

variable {V : Type} {asU8 : V → Option UInt8} {encode : V → Bytes} {vs : List V} {cs : List Call}

theorem writeSeq_list (h : List.Forall₂ (fun v c => write c = .ok (encode v)) vs cs) :
    writeSeq .list cs = .ok (vs.flatMap encode ++ [101]) := by
  induction h with
  | nil => rfl
  | cons hv _ ih =>
    rw [writeSeq, hv, ih, List.flatMap_cons, List.append_assoc]
    rfl

/-- With bytes behind those that came so far. -/
def SeqState.append : SeqState → Bytes → SeqState
  | .list, _ => .list
  | .empty, [] => .empty
  | state, bs => .bytes (state.prior ++ bs)

theorem writeSeq_byte {state : SeqState} (h : state ≠ .list) {item : Call} {byte : UInt8}
    (hprobe : probeU8 item = some byte) (items : List Call) :
    writeSeq state (item :: items) = writeSeq (.bytes (state.prior ++ [byte])) items := by
  cases state with
  | list => exact absurd rfl h
  | empty =>
    rw [writeSeq, hprobe]
    exact h
  | bytes b =>
    rw [writeSeq, hprobe]
    exact h

theorem writeSeq_switch {state : SeqState} (h : state ≠ .list) {item : Call} {items : List Call} {out rest : Bytes}
    (hprobe : probeU8 item = none) (hout : write item = .ok out) (hrest : writeSeq .list items = .ok rest) :
    writeSeq state (item :: items) = .ok (switchToList state ++ out ++ rest) := by
  cases state with
  | list => exact absurd rfl h
  | empty =>
    rw [writeSeq, hprobe, hout, hrest]
    · rfl
    · exact h
  | bytes b =>
    rw [writeSeq, hprobe, hout, hrest]
    · rfl
    · exact h

theorem append_byte {state : SeqState} (h : state ≠ .list) (byte : UInt8) (bs : Bytes) :
    (SeqState.bytes (state.prior ++ [byte])).append bs = state.append (byte :: bs) := by
  cases state with
  | list => exact absurd rfl h
  | empty => simp [SeqState.append, SeqState.prior]
  | bytes b => simp [SeqState.append, SeqState.prior]

/-- A sequence of bytes alone is a byte string. -/
theorem writeSeq_bytes (h : List.Forall₂ (fun v c => probeU8 c = asU8 v) vs cs) {bs : Bytes}
    (hbs : vs.mapM asU8 = some bs) {state : SeqState} (hstate : state ≠ .list) :
    writeSeq state cs = .ok (state.append bs).endSeq := by
  induction h generalizing state bs with
  | nil =>
    cases hbs
    cases state with
    | empty => rfl
    | bytes b => simp [writeSeq, SeqState.append, SeqState.prior]
    | list => exact absurd rfl hstate
  | @cons v c vs cs hprobe _ ih =>
    rw [List.mapM_cons] at hbs
    obtain ⟨byte, hbyte, hbs⟩ := Option.bind_eq_some_iff.mp hbs
    obtain ⟨bs', hbs', heq⟩ := Option.bind_eq_some_iff.mp hbs
    cases heq
    rw [writeSeq_byte hstate (hprobe.trans hbyte), ih hbs' (by simp), append_byte hstate]

/-- Any other sequence is a list, and the bytes that came before are played back. -/
theorem writeSeq_items (h : List.Forall₂ (fun v c => write c = .ok (encode v) ∧ probeU8 c = asU8 v) vs cs)
    (hencode : ∀ v byte, asU8 v = some byte → encode v = writeInt byte.toNat) (hbs : vs.mapM asU8 = none)
    {state : SeqState} (hstate : state ≠ .list) :
    writeSeq state cs = .ok (switchToList state ++ vs.flatMap encode ++ [101]) := by
  induction h generalizing state with
  | nil => cases hbs
  | @cons v c vs cs hv hvs ih =>
    obtain ⟨hwrite, hprobe⟩ := hv
    rw [List.flatMap_cons]
    cases hbyte : asU8 v with
    | none =>
      rw [writeSeq_switch hstate (hprobe.trans hbyte) hwrite (writeSeq_list (hvs.imp fun _ _ h => h.1))]
      simp only [List.append_assoc]
    | some byte =>
      have hrest : vs.mapM asU8 = none := by
        rw [List.mapM_cons, hbyte] at hbs
        cases hmap : vs.mapM asU8 with
        | none => rfl
        | some bs =>
          rw [hmap] at hbs
          cases hbs
      have hprior : switchToList (.bytes (state.prior ++ [byte])) = switchToList state ++ encode v := by
        rw [hencode v byte hbyte]
        simp [switchToList, SeqState.prior]
      rw [writeSeq_byte hstate (hprobe.trans hbyte), ih hrest (by simp), hprior]
      simp only [List.append_assoc]

end Seq

theorem encode_of_asU8 {t : Ty} {v : t.Val} {byte : UInt8} (h : t.asU8 v = some byte) :
    t.encode v = writeInt byte.toNat := by
  cases t with
  | scalar S => exact congrArg Atom.encode (Atom.encode_of_asU8 h)
  | _ => cases h

theorem writeSeq_encode {t : Ty} {vs : List t.Val} {items : List Call}
    (h : List.Forall₂ (fun v c => write c = .ok (t.encode v) ∧ probeU8 c = t.asU8 v) vs items) :
    writeSeq .empty items = .ok ((Ty.seq t).encode vs) := by
  have hencode : (Ty.seq t).encode vs = encodeSeq t.asU8 t.encode vs := rfl
  rw [hencode, encodeSeq]
  cases hbs : vs.mapM t.asU8 with
  | none =>
    rw [writeSeq_items h (fun _ _ => encode_of_asU8) hbs (by simp)]
    rfl
  | some bs =>
    rw [writeSeq_bytes (h.imp fun _ _ h => h.2) hbs (by simp)]
    cases bs with
    | cons byte bytes => rfl
    | nil =>
      cases vs with
      | nil => rfl
      | cons v vs =>
        rw [List.mapM_cons] at hbs
        obtain ⟨_, -, hbs⟩ := Option.bind_eq_some_iff.mp hbs
        obtain ⟨_, -, heq⟩ := Option.bind_eq_some_iff.mp hbs
        cases heq

/-- What a struct writes, in whatever order its fields come. -/
theorem flush_fields {calls calls' : List (Bytes × Call)} {entries : List (DictKey × Bytes)}
    (hperm : calls.Perm calls') (hwrite : writeFields calls = .ok entries) (hkeys : (entries.map Prod.fst).Nodup) :
    ∃ entries', writeFields calls' = .ok entries' ∧ flush entries' = flush entries := by
  rw [writeFields_eq_mapM] at hwrite
  obtain ⟨entries', hwrite', hperm'⟩ := mapM_perm hperm hwrite
  refine ⟨entries', ?_, (flush_eq_of_perm hperm' hkeys).symm⟩
  rw [writeFields_eq_mapM, hwrite']

theorem writeEntries_eq {K : Key} {V : Type} {encode : V → Bytes} {m : List (K.Val × V)}
    {calls : List (Call × Call)}
    (h : List.Forall₂ (fun e call => call.1 = .str (K.display e.1) ∧ write call.2 = .ok (encode e.2)) m calls) :
    writeEntries calls = .ok (m.map fun e => (.unicode (K.display e.1), encode e.2)) := by
  induction h with
  | nil => rfl
  | @cons e call es calls he _ ih =>
    obtain ⟨key, value⟩ := call
    obtain ⟨hkey, hwrite⟩ := he
    obtain rfl : key = _ := hkey
    rw [writeEntries, writeEntry, hwrite, ih]
    rfl

theorem ordered_nodup {K : Key} {V : Type} {m : List (K.Val × V)} (h : K.Ordered m) (encode : V → Bytes) :
    ((m.map fun e => (DictKey.unicode (K.display e.1), encode e.2)).map Prod.fst).Nodup := by
  rw [List.map_map, List.nodup_iff_pairwise_ne, List.pairwise_map]
  exact h.imp fun hlt heq => hlt.2 (DictKey.unicode.inj heq)

/-- The keys of a struct are the names of its fields. -/
theorem writeFields_keys {fields : List (Bytes × Call)} {entries : List (DictKey × Bytes)}
    (h : writeFields fields = .ok entries) :
    entries.map Prod.fst = (fields.map Prod.fst).map DictKey.unicode := by
  induction fields generalizing entries with
  | nil =>
    cases h
    rfl
  | cons field fields ih =>
    rw [writeFields_eq_mapM] at h
    obtain ⟨e, es, he, hes, rfl⟩ := mapM_cons_eq_ok h
    rw [← writeFields_eq_mapM] at hes
    rw [writeField] at he
    cases hwrite : write field.2 with
    | error err =>
      rw [hwrite] at he
      cases he
    | ok out =>
      rw [hwrite] at he
      cases he
      rw [List.map_cons, List.map_cons, List.map_cons, ih hes]

theorem flush_entries {calls calls' : List (Call × Call)} {entries : List (DictKey × Bytes)}
    (hperm : calls.Perm calls') (hwrite : writeEntries calls = .ok entries) (hkeys : (entries.map Prod.fst).Nodup) :
    ∃ entries', writeEntries calls' = .ok entries' ∧ flush entries' = flush entries := by
  rw [writeEntries_eq_mapM] at hwrite
  obtain ⟨entries', hwrite', hperm'⟩ := mapM_perm hperm hwrite
  refine ⟨entries', ?_, (flush_eq_of_perm hperm' hkeys).symm⟩
  rw [writeEntries_eq_mapM, hwrite']

mutual

theorem Ty.write_serializes : (t : Ty) → t.WellFormed → (v : t.Val) → (c : Call) → t.Serializes v c →
    write c = .ok (t.encode v) ∧ probeU8 c = t.asU8 v
  | .scalar S, _, v, c, h => by
    obtain rfl : c = (S.atom v).call := h
    exact ⟨(S.atom v).write_call, (S.atom v).probeU8_call⟩
  | .option t, ht, v, c, h => by
    cases v with
    | none =>
      obtain rfl : c = .none := h
      exact ⟨rfl, rfl⟩
    | some v =>
      obtain ⟨value, rfl, hvalue⟩ := h
      obtain ⟨hwrite, -⟩ := t.write_serializes ht.2 v value hvalue
      exact ⟨by rw [write, hwrite, Ty.encode], rfl⟩
  | .seq t, ht, vs, c, h => by
    obtain ⟨items, rfl, hitems⟩ := h
    exact ⟨writeSeq_encode (hitems.imp fun v c hv => t.write_serializes ht v c hv), rfl⟩
  | .tuple fields, ht, vs, c, h => by
    obtain ⟨items, rfl, hitems⟩ := h
    exact ⟨by rw [write, fields.writeItems_serializes ht vs items hitems]; rfl, rfl⟩
  | .newtype t, ht, v, c, h => by
    obtain ⟨value, rfl, hvalue⟩ := h
    obtain ⟨hwrite, -⟩ := t.write_serializes ht v value hvalue
    exact ⟨by rw [write, hwrite, Ty.encode], rfl⟩
  | .struct fields, ht, vs, c, h => by
    obtain ⟨calls, calls', rfl, hperm, hcalls⟩ := h
    obtain ⟨entries', hwrite, hflush⟩ := flush_fields hperm (fields.writeFields_serializes ht.2 vs calls hcalls)
      (encodeFields_nodup ht.1 vs)
    refine ⟨?_, rfl⟩
    rw [write, hwrite, Ty.encode, ← hflush]
    rfl
  | .enum variants, ht, v, c, h => variants.write_serializes ht.2 v c h
  | .map K t, ht, m, c, h => by
    obtain ⟨calls, calls', rfl, hperm, hcalls⟩ := h
    have hwrite : writeEntries calls = .ok (m.1.map fun e => (.unicode (K.display e.1), t.encode e.2)) :=
      writeEntries_eq (hcalls.imp fun e call he => ⟨he.1, (t.write_serializes ht e.2 call.2 he.2).1⟩)
    obtain ⟨entries', hwrite', hflush⟩ := flush_entries hperm hwrite (ordered_nodup m.2 t.encode)
    refine ⟨?_, rfl⟩
    rw [write, hwrite', Ty.encode, ← hflush]
    rfl

theorem Fields.writeItems_serializes : (fields : Fields) → fields.WellFormed → (vs : fields.Val) →
    (items : List Call) → fields.SerializesItems vs items → writeItems items = .ok (fields.encodeItems vs)
  | .nil, _, _, items, h => by
    obtain rfl : items = [] := h
    rfl
  | .cons _ t fields, ht, vs, items, h => by
    obtain ⟨c, cs, rfl, hc, hcs⟩ := h
    obtain ⟨hwrite, -⟩ := t.write_serializes ht.1 vs.1 c hc
    rw [writeItems, hwrite, fields.writeItems_serializes ht.2 vs.2 cs hcs]
    rfl

theorem Fields.writeFields_serializes : (fields : Fields) → fields.WellFormed → (vs : fields.Val) →
    (calls : List (Bytes × Call)) → fields.SerializesFields vs calls →
    writeFields calls = .ok (fields.encodeFields vs)
  | .nil, _, _, calls, h => by
    obtain rfl : calls = [] := h
    rfl
  | .cons name t fields, ht, vs, calls, h => by
    obtain ⟨c, cs, rfl, hc, hcs⟩ := h
    obtain ⟨hwrite, -⟩ := t.write_serializes ht.1 vs.1 c hc
    rw [writeFields, writeField, hwrite, fields.writeFields_serializes ht.2 vs.2 cs hcs]
    rfl

theorem Variants.write_serializes : (variants : Variants) → variants.WellFormed → (v : variants.Val) → (c : Call) →
    variants.Serializes v c → write c = .ok (variants.encode v) ∧ probeU8 c = none
  | .nil, _, v, _, _ => Empty.elim v
  | .cons name payload variants, ht, v, c, h => by
    cases v with
    | inl v => exact payload.write_serializes ht.1 name v c h
    | inr v => exact variants.write_serializes ht.2 v c h

theorem Payload.write_serializes : (payload : Payload) → payload.WellFormed → (name : Bytes) → (v : payload.Val) →
    (c : Call) → payload.Serializes name v c → write c = .ok (payload.encode name v) ∧ probeU8 c = none
  | .unit, _, name, _, c, h => by
    obtain rfl : c = .unitVariant name := h
    exact ⟨rfl, rfl⟩
  | .newtype t, ht, name, v, c, h => by
    obtain ⟨value, rfl, hvalue⟩ := h
    obtain ⟨hwrite, -⟩ := t.write_serializes ht v value hvalue
    exact ⟨by rw [write, hwrite]; rfl, rfl⟩
  | .tuple fields, ht, name, vs, c, h => by
    obtain ⟨items, rfl, hitems⟩ := h
    exact ⟨by rw [write, fields.writeItems_serializes ht vs items hitems]; rfl, rfl⟩
  | .struct fields, ht, name, vs, c, h => by
    obtain ⟨calls, calls', rfl, hperm, hcalls⟩ := h
    obtain ⟨entries', hwrite, hflush⟩ := flush_fields hperm (fields.writeFields_serializes ht.2 vs calls hcalls)
      (encodeFields_nodup ht.1 vs)
    refine ⟨?_, rfl⟩
    rw [write, hwrite, Payload.encode, ← hflush]
    rfl

end

end Bencodex

end ChiaGaming
