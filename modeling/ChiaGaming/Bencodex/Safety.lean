import ChiaGaming.Bencodex.Grammar
import ChiaGaming.Bencodex.Schema
import ChiaGaming.Lib.Pieces

namespace ChiaGaming

/-! What the decoder may come to on any input, whatever the type that it reads. -/

namespace Bencodex

open Bencode (Spells Stops Value)

open Piece (lit nothing)

def Refuses (e : Failure) : Prop := ∃ err, e = .error err

def Panics (e : Failure) : Prop := e = .panic

theorem refuses_error (e : Error) : Refuses (.error e) := ⟨e, rfl⟩

/-- The reader takes such a piece, or refuses the input, or panics where such a piece has it panic. -/
abbrev Takes {α : Type} (P : Piece UInt8) (x : De α) : Prop := P.Follows Refuses Panics x

/-! Values as pieces. -/

section Values

variable (bits : ℕ)

def value : Piece UInt8 where
  Done w := ∃ v, Spells (deLexicon bits) v w
  Halts := Stops (deLexicon bits)

def entry : Piece UInt8 := (value bits).seq (value bits)

def list : Piece UInt8 := (lit 108).seq ((value bits).many.seq (lit 101))

def dict : Piece UInt8 := (lit 100).seq ((entry bits).many.seq (lit 101))

variable {bits}

theorem exists_items {ws : List Bytes} (h : ∀ u ∈ ws, (value bits).Done u) :
    ∃ items : List (Value × Bytes), items.map Prod.snd = ws ∧ ∀ p ∈ items, Spells (deLexicon bits) p.1 p.2 := by
  induction ws with
  | nil => exact ⟨[], rfl, fun _ hp => absurd hp List.not_mem_nil⟩
  | cons w ws ih =>
    obtain ⟨⟨v, hv⟩, hws⟩ := List.forall_mem_cons.mp h
    obtain ⟨items, rfl, hitems⟩ := ih hws
    exact ⟨(v, w) :: items, rfl, List.forall_mem_cons.mpr ⟨hv, hitems⟩⟩

theorem exists_dictEntries {ws : List Bytes} (h : ∀ u ∈ ws, (entry bits).Done u) :
    ∃ es : List ((Value × Bytes) × (Value × Bytes)), es.map (fun p => p.1.2 ++ p.2.2) = ws ∧
      (∀ p ∈ es, Spells (deLexicon bits) p.1.1 p.1.2) ∧ ∀ p ∈ es, Spells (deLexicon bits) p.2.1 p.2.2 := by
  induction ws with
  | nil => exact ⟨[], rfl, fun _ hp => absurd hp List.not_mem_nil, fun _ hp => absurd hp List.not_mem_nil⟩
  | cons w ws ih =>
    obtain ⟨⟨wk, wv, rfl, ⟨k, hk⟩, v, hv⟩, hws⟩ := List.forall_mem_cons.mp h
    obtain ⟨es, rfl, hkeys, hvalues⟩ := ih hws
    exact ⟨((k, wk), (v, wv)) :: es, rfl, List.forall_mem_cons.mpr ⟨hk, hkeys⟩, List.forall_mem_cons.mpr ⟨hv, hvalues⟩⟩

theorem list_value : Piece.Le (list bits) (value bits) where
  done := by
    rintro w ⟨-, -, rfl, rfl, -, -, rfl, ⟨ws, rfl, hws⟩, rfl⟩
    obtain ⟨items, rfl, hitems⟩ := exists_items hws
    exact ⟨_, .list hitems⟩
  halts := by
    rintro s (hs | ⟨-, r, rfl, rfl, ⟨ws, r, rfl, hws, hr⟩ | ⟨u, r, rfl, -, hr⟩⟩)
    · exact hs.elim
    · obtain ⟨items, rfl, hitems⟩ := exists_items hws
      exact .item hitems hr
    · exact hr.elim

theorem dict_value : Piece.Le (dict bits) (value bits) where
  done := by
    rintro w ⟨-, -, rfl, rfl, -, -, rfl, ⟨ws, rfl, hws⟩, rfl⟩
    obtain ⟨es, rfl, hkeys, hvalues⟩ := exists_dictEntries hws
    exact ⟨_, .map (fun _ _ => rfl) hkeys hvalues rfl⟩
  halts := by
    rintro s (hs | ⟨-, r, rfl, rfl, ⟨ws, r, rfl, hws, hr⟩ | ⟨u, r, rfl, -, hr⟩⟩)
    · exact hs.elim
    · obtain ⟨es, rfl, hkeys, hvalues⟩ := exists_dictEntries hws
      rcases hr with hr | ⟨u, r, rfl, ⟨k, hk⟩, hr⟩
      · exact .key (fun _ _ => rfl) hkeys hvalues hr
      · exact .value (fun _ _ => rfl) hkeys hvalues rfl hk hr
    · exact hr.elim

/-- A variant with its payload. -/
theorem variant_value : Piece.Le ((lit 100).seq ((value bits).seq ((value bits).seq (lit 101)))) (value bits) := by
  have hentry : Piece.Le ((value bits).seq ((value bits).seq (lit 101))) ((entry bits).many.seq (lit 101)) :=
    Piece.assoc_seq.trans (Piece.one_many.seq (.refl _))
  exact ((Piece.Le.refl _).seq hentry).trans dict_value

theorem value_ne_nil {w : Bytes} (h : (value bits).Done w) : w ≠ [] := by
  obtain ⟨v, hv⟩ := h
  exact hv.isOpen.ne_nil

theorem entry_ne_nil {w : Bytes} (h : (entry bits).Done w) : w ≠ [] := by
  obtain ⟨u, v, rfl, hu, -⟩ := h
  exact List.append_ne_nil_of_left_ne_nil (value_ne_nil hu) v

/-! Tokens. -/

variable (bits) in
/-- A length and as many bytes. -/
def sizedPiece : Piece UInt8 where
  Done w := ∃ tok data, w = tok ++ 58 :: data ∧ 58 ∉ tok ∧ overflows bits tok = false ∧
    sizeToken bits tok = some data.length
  Halts s := ∃ tok rest, s = tok ++ 58 :: rest ∧ 58 ∉ tok ∧ overflows bits tok = true

def textPiece (bits : ℕ) : Piece UInt8 where
  Done w := ∃ tok data, w = tok ++ 58 :: data ∧ 58 ∉ tok ∧ overflows bits tok = false ∧
    sizeToken bits tok = some data.length ∧ validUtf8 data = true
  Halts := (sizedPiece bits).Halts

def intPiece : Piece UInt8 where
  Done w := ∃ tok z, w = tok ++ [101] ∧ 101 ∉ tok ∧ integerToken tok = some z
  Halts _ := False

theorem tag_value {c : UInt8} {v : Value} (h : Spells (deLexicon bits) v [c]) :
    Piece.Le ((lit c).seq nothing) (value bits) where
  done := by
    rintro w ⟨-, -, rfl, rfl, rfl⟩
    exact ⟨v, h⟩
  halts := by
    rintro s (hs | ⟨-, r, -, -, hr⟩)
    · exact hs.elim
    · exact hr.elim

theorem int_value : Piece.Le ((lit 105).seq intPiece) (value bits) where
  done := by
    rintro w ⟨-, -, rfl, rfl, tok, z, rfl, hmem, htok⟩
    exact ⟨_, .int hmem htok⟩
  halts := by
    rintro s (hs | ⟨-, r, -, -, hr⟩)
    · exact hs.elim
    · exact hr.elim

theorem text_value : Piece.Le ((lit 117).seq (textPiece bits)) (value bits) where
  done := by
    rintro w ⟨-, -, rfl, rfl, tok, data, rfl, hmem, hgoes, hsize, hutf8⟩
    exact ⟨_, .text hmem hgoes hsize (if_pos hutf8)⟩
  halts := by
    rintro s (hs | ⟨-, r, rfl, rfl, tok, rest, rfl, hmem, hstops⟩)
    · exact hs.elim
    · exact .text hmem hstops

theorem takes_parseBytestring : Takes (sizedPiece bits) (parseBytestring bits) := by
  intro s
  have hmirror : Bencode.Mirror verdict (parseBytestring bits s) (Bencode.sized (deLexicon bits) (sizeToken bits) s) :=
    mirrors_parseBytestring s
  cases hy : Bencode.sized (deLexicon bits) (sizeToken bits) s with
  | ok data r =>
    obtain ⟨tok, hmem, hgoes, hsize, rfl⟩ := Bencode.sized_eq_ok hy
    generalize parseBytestring bits _ = x at hmirror
    rw [hy] at hmirror
    cases hmirror
    exact ⟨tok ++ 58 :: data, rfl, tok, data, rfl, hmem, hgoes, hsize⟩
  | error v s' =>
    have hkind := Bencode.sized_eq_error hy
    generalize parseBytestring bits s = x at hmirror
    rw [hy] at hmirror
    cases hmirror with
    | error e =>
      cases e with
      | error err => exact .inl (refuses_error err)
      | panic =>
        rcases hkind with h | ⟨-, tok, rest, hmem, hstops, hs⟩
        · cases h
        · exact .inr ⟨rfl, tok, rest, hs, hmem, hstops⟩
      | unfinished => rcases hkind with h | ⟨h, -⟩ <;> cases h

theorem takes_parseIntValue : Takes intPiece parseIntValue := by
  intro s
  cases hcut : Bencode.cut 101 s with
  | none =>
    rw [parseIntValue_of_cut_none hcut]
    exact .inl (refuses_error _)
  | some p =>
    obtain ⟨tok, rest⟩ := p
    obtain ⟨rfl, hmem⟩ := Bencode.cut_eq_some hcut
    obtain ⟨-, -, hadvance⟩ := position_of_cut hcut
    rw [parseIntValue_of_cut hcut]
    rcases integerOf_eq tok (tok ++ 101 :: rest) with ⟨z, htok, hz⟩ | ⟨-, d, hd⟩
    · rw [Act.bind_of_ok hz, Act.bind_of_ok hadvance]
      exact ⟨tok ++ [101], by rw [List.append_assoc]; rfl, tok, z, rfl, hmem, htok⟩
    · rw [Act.bind_of_error hd]
      exact .inl (refuses_error _)

theorem takes_parseUnicode : Takes (textPiece bits) (parseUnicode bits) := by
  intro s
  have hsized : (sizedPiece bits).Meets Refuses Panics s (parseBytestring bits s) := takes_parseBytestring s
  rw [parseUnicode]
  cases hx : parseBytestring bits s with
  | ok data r =>
    rw [Act.bind_of_ok hx]
    by_cases hutf8 : validUtf8 data = true
    · rw [if_pos hutf8]
      have hmirror : Bencode.Mirror verdict (parseBytestring bits s) (Bencode.sized (deLexicon bits) (sizeToken bits) s) :=
        mirrors_parseBytestring s
      rw [hx] at hmirror
      cases hy : Bencode.sized (deLexicon bits) (sizeToken bits) s with
      | ok data' r' =>
        rw [hy] at hmirror
        cases hmirror
        obtain ⟨tok, hmem, hgoes, hsize, rfl⟩ := Bencode.sized_eq_ok hy
        exact ⟨tok ++ 58 :: data, rfl, tok, data, rfl, hmem, hgoes, hsize, hutf8⟩
      | error v s' =>
        rw [hy] at hmirror
        cases hmirror
    · rw [if_neg hutf8]
      exact .inl (refuses_error _)
  | error e r =>
    rw [hx] at hsized
    rw [Act.bind_of_error hx]
    exact hsized

/-- A byte string, whose length begins with a digit. -/
theorem meets_bytes {d : UInt8} (hd : isDigit d = true) (s : Bytes) :
    (value bits).Meets Refuses Panics (d :: s) (parseBytestring bits (d :: s)) := by
  have hne : d ≠ 58 := by
    rintro rfl
    cases hd
  have hhead {tok rest : Bytes} (h : d :: s = tok ++ 58 :: rest) : ∃ tok', tok = d :: tok' := by
    cases tok with
    | nil => exact absurd (List.cons.inj h).1 hne
    | cons b tok' => exact ⟨tok', by rw [(List.cons.inj h).1]⟩
  have hsized : (sizedPiece bits).Meets Refuses Panics (d :: s) (parseBytestring bits (d :: s)) :=
    takes_parseBytestring (d :: s)
  cases hx : parseBytestring bits (d :: s) with
  | ok data r =>
    rw [hx] at hsized
    obtain ⟨w, hs, tok, data, rfl, hmem, hgoes, hsize⟩ := hsized
    rw [List.append_assoc, List.cons_append] at hs
    obtain ⟨tok', rfl⟩ := hhead hs
    refine ⟨(d :: tok') ++ 58 :: data, ?_, _, .bytes hd hmem hgoes hsize⟩
    rw [List.append_assoc, List.cons_append]
    exact hs
  | error e r =>
    rw [hx] at hsized
    refine hsized.imp_right ?_
    rintro ⟨hpanic, tok, rest, hs, hmem, hstops⟩
    obtain ⟨tok', rfl⟩ := hhead hs
    rw [hs]
    exact ⟨hpanic, .bytes hd hmem hstops⟩

end Values

/-! Elements of a list and entries of a dictionary. -/

section Access

variable {α κ σ : Type} {P Q : Piece UInt8} {bits : ℕ}

theorem takes_consumeEnd : Takes (lit 101) consumeEnd := by
  intro s
  cases s with
  | nil => exact .inl (refuses_error _)
  | cons b s =>
    by_cases hb : b = 101
    · subst hb
      rw [consumeEnd_end]
      exact ⟨[101], rfl, rfl⟩
    · rw [consumeEnd, Act.bind_of_ok (peek_cons b s), if_neg hb]
      exact .inl (refuses_error _)

/-- Of what comes between the brackets, the last is the mark that ends it. -/
theorem takes_closed {x : De α} (h : Takes P x) : Takes (P.seq (lit 101)) (do
    let result ← x
    consumeEnd
    pure result) := h.bind fun a => takes_consumeEnd.calm fun _ => Piece.follows_pure a

theorem takes_closedTwice {x : De α} (h : Takes P x) : Takes (P.seq ((lit 101).seq (lit 101))) (do
    let result ← x
    consumeEnd
    consumeEnd
    pure result) :=
  h.bind fun a => takes_consumeEnd.bind fun _ => takes_consumeEnd.calm fun _ => Piece.follows_pure a

/-- The payload of a variant, and the end of the dictionary around it. -/
theorem payload_value {c : UInt8} (h : Piece.Le ((lit c).seq (P.seq (lit 101))) (value bits)) :
    Piece.Le ((lit c).seq (P.seq ((lit 101).seq (lit 101)))) ((value bits).seq (lit 101)) :=
  (((Piece.Le.refl _).seq Piece.assoc_seq).trans Piece.assoc_seq).trans (h.seq (.refl _))

theorem takes_next {β : Type} {R : Piece UInt8} {x : De α} {f : Option α → De β} (hx : Takes P x)
    (hnone : Takes R (f none)) (hsome : ∀ a, Takes Q (f (some a))) (hle : Piece.Le (P.seq Q) R) :
    Takes R (nextElement x >>= f) := by
  intro s
  cases s with
  | nil => exact .inl (refuses_error _)
  | cons b s =>
    have hbind := (hx.bind hsome) (b :: s)
    by_cases hb : b = 101
    · have hnext : nextElement x (b :: s) = .ok none (b :: s) := by
        rw [nextElement, Act.bind_of_ok (peek_cons b s), if_pos hb]
        rfl
      rw [Act.bind_of_ok hnext]
      exact hnone (b :: s)
    · have hnext : nextElement x (b :: s) = (some <$> x) (b :: s) := by
        rw [nextElement, Act.bind_of_ok (peek_cons b s), if_neg hb]
      have hsame : (nextElement x >>= f) (b :: s) = (x >>= fun a => f (some a)) (b :: s) := by
        rw [Act.bind_apply, hnext, ← Act.bind_apply, map_eq_pure_bind, bind_assoc]
        simp only [pure_bind]
      rw [hsame]
      exact hbind.mono hle

theorem meets_elements {x : De α} (hx : Takes P x) (hne : ∀ w, P.Done w → w ≠ []) {n : ℕ} {s : Bytes}
    (hn : s.length < n) : P.many.Meets Refuses Panics s (elements x n s) := by
  induction n generalizing s with
  | zero => omega
  | succ n ih =>
    cases s with
    | nil => exact .inl (refuses_error _)
    | cons b s =>
      by_cases hb : b = 101
      · subst hb
        exact ⟨[], rfl, [], rfl, fun _ h => absurd h List.not_mem_nil⟩
      · rw [elements_succ hb]
        have hs := hx (b :: s)
        cases hresult : x (b :: s) with
        | error e r =>
          rw [hresult] at hs
          rw [Act.bind_of_error hresult]
          refine hs.imp_right fun h => ⟨h.1, Piece.one_many.halts _ h.2⟩
        | ok a r =>
          rw [hresult] at hs
          obtain ⟨w, hw, hdone⟩ := hs
          rw [Act.bind_of_ok hresult]
          have hlen : r.length < n := by
            have hlength := congrArg List.length hw
            have hpos := List.length_pos_iff.mpr (hne w hdone)
            rw [List.length_append] at hlength
            omega
          have hrest := (ih hlen).calm fun as => Piece.follows_pure (a :: as)
          rw [hw]
          exact (hrest.append hdone).mono Piece.seq_many

theorem takes_everyElement {x : De α} (hx : Takes P x) (hne : ∀ w, P.Done w → w ≠ []) :
    Takes P.many (everyElement x) := fun s => meets_elements hx hne (Nat.lt_succ_self s.length)

/-- What a reader can return. -/
def Returns (p : α → Prop) (x : De α) : Prop := ∀ s a r, x s = .ok a r → p a

theorem meets_accesses {key : De κ} {value : σ → κ → De σ} {p : κ → Prop} (hkey : Takes P key)
    (hreturns : Returns p key) (hvalue : ∀ acc k, p k → Takes Q (value acc k)) (hne : ∀ w, P.Done w → w ≠ []) {n : ℕ}
    {s : Bytes} (hn : s.length < n) (acc : σ) :
    (P.seq Q).many.Meets Refuses Panics s (accesses key value n acc s) := by
  induction n generalizing s acc with
  | zero => omega
  | succ n ih =>
    cases s with
    | nil => exact .inl (refuses_error _)
    | cons b s =>
      by_cases hb : b = 101
      · subst hb
        exact ⟨[], rfl, [], rfl, fun _ h => absurd h List.not_mem_nil⟩
      · have hnext : nextElement key (b :: s) = (some <$> key) (b :: s) := by
          rw [nextElement, Act.bind_of_ok (peek_cons b s), if_neg hb]
        have hs := hkey (b :: s)
        rw [accesses]
        cases hk : key (b :: s) with
        | error e r =>
          rw [hk] at hs
          rw [Act.bind_of_error (hnext.trans (Act.map_of_error hk some))]
          exact hs.imp_right fun h => ⟨h.1, Piece.one_many.halts _ (.inl h.2)⟩
        | ok k r =>
          rw [hk] at hs
          obtain ⟨u, hu, hdone⟩ := hs
          rw [Act.bind_of_ok (hnext.trans (Act.map_of_ok hk some))]
          dsimp only
          have hv := hvalue acc k (hreturns _ _ _ hk) r
          cases hresult : value acc k r with
          | error e r' =>
            rw [hresult] at hv
            rw [Act.bind_of_error hresult, hu]
            exact hv.imp_right fun h => ⟨h.1, Piece.one_many.halts _ (.inr ⟨u, r, rfl, hdone, h.2⟩)⟩
          | ok acc' r' =>
            rw [hresult] at hv
            obtain ⟨v, rfl, hdone'⟩ := hv
            rw [Act.bind_of_ok hresult]
            have hlen : r'.length < n := by
              have hlength := congrArg List.length hu
              have hpos := List.length_pos_iff.mpr (hne u hdone)
              rw [List.length_append, List.length_append] at hlength
              omega
            have hentry : (P.seq Q).Done (u ++ v) := ⟨u, v, rfl, hdone, hdone'⟩
            rw [hu, ← List.append_assoc]
            exact ((ih hlen acc').append hentry).mono Piece.seq_many

theorem takes_everyKey {key : De κ} {value : σ → κ → De σ} {p : κ → Prop} (hkey : Takes P key)
    (hreturns : Returns p key) (hvalue : ∀ acc k, p k → Takes Q (value acc k)) (hne : ∀ w, P.Done w → w ≠ [])
    (start : σ) : Takes (P.seq Q).many (everyKey key value start) :=
  fun s => meets_accesses hkey hreturns hvalue hne (Nat.lt_succ_self s.length) start

/-! Entry points. -/

theorem takes_orCustom (v : Option α) : Takes nothing (orCustom v) := by
  cases v with
  | none => exact Piece.follows_throw (refuses_error _)
  | some a => exact Piece.follows_pure a

variable (bits) in
/-- The methods of a visitor take no more than what they are given to read. -/
structure Visitor.Sound (visitor : Visitor α) : Prop where
  unit : Takes nothing visitor.unit
  bool : ∀ b, Takes nothing (visitor.bool b)
  int : ∀ z, Takes nothing (visitor.int z)
  str : ∀ s, Takes nothing (visitor.str s)
  bytes : ∀ b, Takes nothing (visitor.bytes b)
  seq : Takes (value bits).many visitor.seq
  bytesSeq : ∀ b, Takes nothing (visitor.bytesSeq b)
  map : Takes (entry bits).many visitor.map

theorem refuse_sound : (Visitor.refuse : Visitor α).Sound bits where
  unit := Piece.follows_throw (refuses_error _)
  bool _ := Piece.follows_throw (refuses_error _)
  int _ := Piece.follows_throw (refuses_error _)
  str _ := Piece.follows_throw (refuses_error _)
  bytes _ := Piece.follows_throw (refuses_error _)
  seq := Piece.follows_throw (refuses_error _)
  bytesSeq _ := Piece.follows_throw (refuses_error _)
  map := Piece.follows_throw (refuses_error _)

theorem meets_behind {c : UInt8} {s : Bytes} {x : De α} (h : Takes P x) (hle : Piece.Le ((lit c).seq P) Q) :
    Q.Meets Refuses Panics (c :: s) (x s) := by
  have hc : (lit c).Done [c] := rfl
  exact ((h s).append hc).mono hle

variable {visitor : Visitor α}

theorem takes_deserializeAny (hv : visitor.Sound bits) : Takes (value bits) (deserializeAny bits visitor) := by
  intro s
  cases s with
  | nil => exact .inl (refuses_error _)
  | cons b s =>
    by_cases hb : Bencode.IsTag b
    · cases hb with
      | digit hd =>
        rw [deserializeAny_digit _ hd]
        exact (meets_bytes hd s).calm hv.bytes
      | null =>
        rw [deserializeAny_null]
        exact meets_behind hv.unit (tag_value .null)
      | true =>
        rw [deserializeAny_true]
        exact meets_behind (hv.bool true) (tag_value .true)
      | false =>
        rw [deserializeAny_false]
        exact meets_behind (hv.bool false) (tag_value .false)
      | int =>
        rw [deserializeAny_int]
        exact meets_behind (takes_parseIntValue.calm hv.int) int_value
      | list =>
        rw [deserializeAny_list]
        exact meets_behind (takes_closed hv.seq) list_value
      | map =>
        rw [deserializeAny_map]
        exact meets_behind (takes_closed hv.map) dict_value
      | text =>
        rw [deserializeAny_text]
        exact meets_behind (takes_parseUnicode.calm hv.str) text_value
    · rw [deserializeAny_other _ hb]
      exact .inl (refuses_error _)

/-- The first byte decides. -/
theorem takes_peek {f : UInt8 → De α} (h : ∀ b s, Q.Meets Refuses Panics (b :: s) (f b (b :: s))) :
    Takes Q (do
      let b ← peek
      f b) := by
  intro s
  cases s with
  | nil => exact .inl (refuses_error _)
  | cons b s =>
    rw [Act.bind_of_ok (peek_cons b s)]
    exact h b s

theorem meets_tag {b c : UInt8} {s : Bytes} {x : De α} (h : Takes P x) (hle : Piece.Le ((lit c).seq P) Q)
    (hb : b = c) : Q.Meets Refuses Panics (b :: s) ((do
      advance 1
      x : De α) (b :: s)) := by
  subst hb
  rw [Act.bind_of_ok (advance_one b s)]
  exact meets_behind h hle

theorem takes_deserializeBool (hv : visitor.Sound bits) : Takes (value bits) (deserializeBool bits visitor) := by
  refine takes_peek fun b s => ?_
  split_ifs with htrue hfalse
  · exact meets_tag (hv.bool true) (tag_value .true) htrue
  · exact meets_tag (hv.bool false) (tag_value .false) hfalse
  · exact takes_deserializeAny hv _

theorem takes_deserializeBytes (hv : visitor.Sound bits) : Takes (value bits) (deserializeBytes bits visitor) := by
  refine takes_peek fun b s => ?_
  split_ifs with hd
  · exact (meets_bytes hd s).calm hv.bytes
  · exact takes_deserializeAny hv _

theorem takes_deserializeOption {visitSome : De α} (visitNone : α) (h : Takes (value bits) visitSome) :
    Takes (value bits) (deserializeOption visitNone visitSome) := by
  refine takes_peek fun b s => ?_
  split_ifs with hnull
  · exact meets_tag (Piece.follows_pure visitNone) (tag_value .null) hnull
  · exact h _

theorem takes_deserializeUnit (hv : visitor.Sound bits) : Takes (value bits) (deserializeUnit bits visitor) := by
  refine takes_peek fun b s => ?_
  split_ifs with hnull
  · exact meets_tag hv.unit (tag_value .null) hnull
  · exact takes_deserializeAny hv _

theorem takes_deserializeSeq (hv : visitor.Sound bits) : Takes (value bits) (deserializeSeq bits visitor) := by
  refine takes_peek fun b s => ?_
  split_ifs with hlist hd
  · exact meets_tag (takes_closed hv.seq) list_value hlist
  · exact (meets_bytes hd s).calm hv.bytesSeq
  · exact takes_deserializeAny hv _

theorem takes_deserializeMap (hv : visitor.Sound bits) : Takes (value bits) (deserializeMap bits visitor) := by
  refine takes_peek fun b s => ?_
  split_ifs with hdict
  · exact meets_tag (takes_closed hv.map) dict_value hdict
  · exact takes_deserializeAny hv _

theorem takes_deserializeEnum (hv : visitor.Sound bits) {unitVariant dictVariant : De α}
    (hunit : Takes (value bits) unitVariant)
    (hdict : Takes ((value bits).seq ((value bits).seq (lit 101))) dictVariant) :
    Takes (value bits) (deserializeEnum bits visitor unitVariant dictVariant) := by
  refine takes_peek fun b s => ?_
  split_ifs with htext htag
  · exact hunit _
  · exact meets_tag hdict variant_value htag
  · exact takes_deserializeAny hv _

theorem takes_deserializeIdentifier (hv : visitor.Sound bits) :
    Takes (value bits) (deserializeIdentifier bits visitor) := by
  refine takes_peek fun b s => ?_
  split_ifs with htext hd
  · exact meets_tag (takes_parseUnicode.calm hv.str) text_value htext
  · refine (meets_bytes hd s).calm fun bytes => ?_
    split_ifs
    · exact hv.str bytes
    · exact hv.bytes bytes
  · exact takes_deserializeAny hv _

theorem takes_deserializeIgnoredAny : Takes (value bits) (deserializeIgnoredAny bits) := by
  intro s
  refine Piece.Meets.map (x := deserializeValue bits (s.length + 1)) ?_ fun _ => ()
  have hmirror := mirrors_deserializeValue bits (s.length + 1) s
  generalize deserializeValue bits (s.length + 1) s = x at hmirror
  cases hy : Bencode.read (deLexicon bits) (s.length + 1) s with
  | ok v r =>
    rw [hy] at hmirror
    cases hmirror
    obtain ⟨w, rfl, hw⟩ := Bencode.read_sound hy
    exact ⟨w, rfl, v, hw⟩
  | error e s' =>
    rw [hy] at hmirror
    have hkind := Bencode.read_eq_error hy (Nat.lt_succ_self _)
    cases hmirror with
    | error err =>
      cases err with
      | error err => exact .inl (refuses_error err)
      | panic =>
        rcases hkind with h | ⟨-, hstops⟩
        · cases h
        · exact .inr ⟨rfl, hstops⟩
      | unfinished => rcases hkind with h | ⟨h, -⟩ <;> cases h

end Access

/-! Types. -/

section Types

variable {bits : ℕ} {α β : Type}

theorem Returns.bind {p : β → Prop} (x : De α) {f : α → De β} (h : ∀ a, Returns p (f a)) : Returns p (x >>= f) := by
  intro s b r hb
  obtain ⟨a, s₁, -, ha⟩ := Act.bind_eq_ok.mp hb
  exact h a s₁ b r ha

theorem returns_throw {p : α → Prop} (e : Failure) : Returns p (throw e : De α) := by
  intro s a r h
  cases h

theorem returns_orCustom {p : α → Prop} {v : Option α} (h : ∀ a, v = some a → p a) : Returns p (orCustom v) := by
  intro s a r ha
  cases v with
  | none => cases ha
  | some b =>
    cases ha
    exact h _ rfl

theorem Returns.closed {p : α → Prop} {x : De α} (h : Returns p x) : Returns p (do
    let result ← x
    consumeEnd
    pure result) := by
  intro s a r ha
  obtain ⟨b, s₁, hb, ha⟩ := Act.bind_eq_ok.mp ha
  obtain ⟨-, s₂, -, ha⟩ := Act.bind_eq_ok.mp ha
  cases ha
  exact h _ _ _ hb

theorem returns_deserializeIdentifier {p : α → Prop} {visitor : Visitor α} (hunit : Returns p visitor.unit)
    (hbool : ∀ b, Returns p (visitor.bool b)) (hint : ∀ z, Returns p (visitor.int z))
    (hstr : ∀ s, Returns p (visitor.str s)) (hbytes : ∀ b, Returns p (visitor.bytes b))
    (hseq : Returns p visitor.seq) (hmap : Returns p visitor.map) :
    Returns p (deserializeIdentifier bits visitor) := by
  have hany : Returns p (deserializeAny bits visitor) := by
    refine .bind _ fun b => ?_
    split_ifs
    · exact .bind _ fun _ => hunit
    · exact .bind _ fun _ => hbool true
    · exact .bind _ fun _ => hbool false
    · exact .bind _ fun _ => .bind _ hint
    · exact .bind _ fun _ => hseq.closed
    · exact .bind _ fun _ => hmap.closed
    · exact .bind _ fun _ => .bind _ hstr
    · exact .bind _ hbytes
    · exact returns_throw _
  refine .bind _ fun b => ?_
  split_ifs
  · exact .bind _ fun _ => .bind _ hstr
  · refine .bind _ fun bytes => ?_
    split_ifs
    · exact hstr bytes
    · exact hbytes bytes
  · exact hany

theorem Fields.index_lt : (fields : Fields) → {s : Bytes} → {i : ℕ} → fields.index s = some i → i < fields.length
  | .nil, _, _, h => by cases h
  | .cons name t fields, s, i, h => by
    rw [Fields.index] at h
    split_ifs at h with hname
    · cases h
      exact Nat.succ_pos _
    · obtain ⟨j, hj, rfl⟩ := Option.map_eq_some_iff.mp h
      exact Nat.succ_lt_succ (fields.index_lt hj)

/-- The name of a field is that of one the type has, or of none. -/
theorem Fields.returns_identifier (fields : Fields) :
    Returns (fun k => ∀ i, k = some i → i < fields.length) (fields.identifier bits) := by
  refine returns_deserializeIdentifier (returns_throw _) (fun _ => returns_throw _) (fun z => returns_orCustom ?_)
    (fun s => ?_) (fun s => ?_) (returns_throw _) (returns_throw _)
  · intro a ha i hi
    split_ifs at ha with hrange hlt
    · cases ha
      cases hi
      omega
    · cases ha
      cases hi
  · intro s' a r ha i hi
    cases ha
    exact fields.index_lt hi
  · intro s' a r ha i hi
    cases ha
    exact fields.index_lt hi

theorem Fields.takes_identifier (fields : Fields) : Takes (value bits) (fields.identifier bits) :=
  takes_deserializeIdentifier { refuse_sound with
    int := fun _ => takes_orCustom _
    str := fun _ => Piece.follows_pure _
    bytes := fun _ => Piece.follows_pure _ }

theorem Variants.takes_identifier (variants : Variants) : Takes (value bits) (variants.identifier bits) :=
  takes_deserializeIdentifier { refuse_sound with
    int := fun _ => takes_orCustom _
    str := fun _ => takes_orCustom _
    bytes := fun _ => takes_orCustom _ }

theorem takes_deserializeU8 : Takes (value bits) (deserializeU8 bits) :=
  takes_deserializeAny { refuse_sound with int := fun _ => takes_orCustom _ }

theorem takes_deserializeString : Takes (value bits) (deserializeString bits) :=
  takes_deserializeAny { refuse_sound with
    str := fun _ => Piece.follows_pure _
    bytes := fun _ => takes_orCustom _ }

theorem Scalar.visitor_sound (S : Scalar) : (S.visitor bits).Sound bits where
  unit := takes_orCustom _
  bool _ := takes_orCustom _
  int _ := takes_orCustom _
  str _ := takes_orCustom _
  bytes _ := takes_orCustom _
  seq := by
    unfold Scalar.visitor
    dsimp only
    split
    · exact Piece.follows_throw (refuses_error _)
    · exact (takes_everyElement takes_deserializeU8 fun _ => value_ne_nil).calm fun _ => takes_orCustom _
  bytesSeq _ := takes_orCustom _
  map := Piece.follows_throw (refuses_error _)

theorem Scalar.takes (S : Scalar) : Takes (value bits) (S.deserialize bits) := by
  unfold Scalar.deserialize
  cases S.method with
  | any => exact takes_deserializeAny S.visitor_sound
  | bool => exact takes_deserializeBool S.visitor_sound
  | unit => exact takes_deserializeUnit S.visitor_sound
  | bytes => exact takes_deserializeBytes S.visitor_sound

theorem Variants.takes_unitVariant : (variants : Variants) → (i : ℕ) → Takes nothing (variants.unitVariant i)
  | .nil, _ => Piece.follows_throw (refuses_error _)
  | .cons _ payload _, 0 => by
    refine Piece.Follows.map ?_ Sum.inl
    cases payload with
    | unit => exact Piece.follows_pure ()
    | _ => exact Piece.follows_throw (refuses_error _)
  | .cons _ _ variants, i + 1 => (variants.takes_unitVariant i).map Sum.inr

theorem Key.takes_putEntry (K : Key) {V : Type} {x : De V} (hx : Takes (value bits) x)
    (m : {m : List (K.Val × V) // K.Ordered m}) (s : Bytes) : Takes (value bits) (K.putEntry x m s) :=
  hx.calm fun _ => (takes_orCustom (K.fromStr s)).calm fun _ => Piece.follows_pure _

/-- The fields of a struct, out of a dictionary. -/
theorem takes_fields (fields : Fields)
    (hread : ∀ acc k, (∀ i, k = some i → i < fields.length) → Takes (value bits) (fields.readField bits acc k)) :
    Takes (entry bits).many (do
      let read ← everyKey (fields.identifier bits) (fields.readField bits) fields.start
      orCustom (fields.finish read)) :=
  (takes_everyKey fields.takes_identifier fields.returns_identifier hread (fun _ => value_ne_nil) fields.start).calm
    fun _ => takes_orCustom _

mutual

/-- Whatever the type, what is taken is a value. -/
theorem Ty.takes : (t : Ty) → Takes (value bits) (t.deserialize bits)
  | .scalar S => S.takes
  | .option t => takes_deserializeOption none (t.takes.map some)
  | .seq t => takes_deserializeSeq { refuse_sound with
      seq := takes_everyElement t.takes fun _ => value_ne_nil
      bytesSeq := fun _ => takes_orCustom _ }
  | .tuple fields => takes_deserializeSeq { refuse_sound with
      seq := fields.takes_visitSeq
      bytesSeq := fun _ => takes_orCustom _ }
  | .newtype t => t.takes
  | .struct fields => by
    have hrefuse : (Visitor.refuse : Visitor fields.Val).Sound bits := refuse_sound
    exact takes_deserializeMap { hrefuse with
      seq := fields.takes_visitSeq
      map := takes_fields fields fields.takes_readField }
  | .enum variants => takes_deserializeEnum refuse_sound (variants.takes_identifier.calm variants.takes_unitVariant)
      (variants.takes_identifier.bind variants.takes_dictVariant)
  | .map K t => takes_deserializeMap { refuse_sound with
      map := takes_everyKey takes_deserializeString (p := fun _ => True) (fun _ _ _ _ => trivial)
        (fun m s _ => K.takes_putEntry t.takes m s) (fun _ => value_ne_nil) _ }

theorem Fields.takes_visitSeq : (fields : Fields) → Takes (value bits).many (fields.visitSeq bits)
  | .nil => (Piece.follows_pure ()).mono Piece.nothing_many
  | .cons _ t fields => takes_next t.takes (Piece.follows_throw (refuses_error _))
      (fun _ => fields.takes_visitSeq.calm fun _ => Piece.follows_pure _) Piece.seq_many

theorem Fields.takes_readField : (fields : Fields) → (acc : fields.Partial) → (k : Option ℕ) →
    (∀ i, k = some i → i < fields.length) → Takes (value bits) (fields.readField bits acc k)
  | .nil, _, none, _ => takes_deserializeIgnoredAny.calm fun _ => Piece.follows_pure _
  | .cons _ _ _, _, none, _ => takes_deserializeIgnoredAny.calm fun _ => Piece.follows_pure _
  | .nil, _, some i, h => absurd (h i rfl) (Nat.not_lt_zero i)
  | .cons _ t _, (v, vs), some 0, _ => by
    cases v with
    | some _ => exact Piece.follows_throw (refuses_error _)
    | none => exact t.takes.calm fun _ => Piece.follows_pure _
  | .cons _ _ fields, (v, vs), some (i + 1), h =>
    (fields.takes_readField vs (some i) fun j hj => by
      cases hj
      exact Nat.lt_of_succ_lt_succ (h (i + 1) rfl)).calm fun _ => Piece.follows_pure _

theorem Variants.takes_dictVariant : (variants : Variants) → (i : ℕ) →
    Takes ((value bits).seq (lit 101)) (variants.dictVariant bits i)
  | .nil, _ => Piece.follows_throw (refuses_error _)
  | .cons _ payload _, 0 => payload.takes_dictValue.map Sum.inl
  | .cons _ _ variants, i + 1 => (variants.takes_dictVariant i).map Sum.inr

theorem Payload.takes_dictValue : (payload : Payload) → Takes ((value bits).seq (lit 101)) (payload.dictValue bits)
  | .unit => Piece.follows_throw (refuses_error _)
  | .newtype t => takes_closed t.takes
  | .tuple fields => takes_peek fun b s => by
    split_ifs with hb
    · exact meets_tag (takes_closedTwice fields.takes_visitSeq) (payload_value list_value) hb
    · exact .inl (refuses_error _)
  | .struct fields => takes_peek fun b s => by
    split_ifs with hb
    · exact meets_tag (takes_closedTwice (takes_fields fields fields.takes_readField)) (payload_value dict_value) hb
    · exact .inl (refuses_error _)

end

/-! The whole input. -/

/-- A value or an error, and not a panic. -/
def Returned : Except Failure α → Prop
  | .ok _ => True
  | .error (.error _) => True
  | .error _ => False

/-- The run of a decoder on the whole input. -/
theorem fromSlice_cases {x : De α} (hx : Takes (value bits) x) (s : Bytes) :
    (∃ a, fromSlice x s = .ok a ∧ ∃ v, Spells (deLexicon bits) v s) ∨ (∃ e, fromSlice x s = .error (.error e)) ∨
      fromSlice x s = .error .panic ∧ Stops (deLexicon bits) s := by
  have hs := hx s
  unfold fromSlice
  cases hresult : x s with
  | ok a r =>
    rw [hresult] at hs
    cases r with
    | nil =>
      obtain ⟨w, hw, v, hv⟩ := hs
      rw [List.append_nil] at hw
      exact .inl ⟨a, rfl, v, hw ▸ hv⟩
    | cons b r => exact .inr (.inl ⟨_, rfl⟩)
  | error e r =>
    rw [hresult] at hs
    rcases hs with ⟨err, rfl⟩ | ⟨hpanic, hstops⟩
    · exact .inr (.inl ⟨err, rfl⟩)
    · obtain rfl : e = .panic := hpanic
      exact .inr (.inr ⟨rfl, hstops⟩)

/-- No type, nor a value of no particular type, has the decoder panic on `s`; and where a type is read, `s` is one
value from its first byte to its last. -/
structure DecodesSafely (bits : ℕ) (s : Bytes) : Prop where
  value : Returned (decodeValue bits s)
  type : ∀ t : Ty, Returned (fromSlice (t.deserialize bits) s)
  consumed : ∀ (t : Ty) v, fromSlice (t.deserialize bits) s = .ok v → ∃ x, Spells (deLexicon bits) x s

/-- The decoder panics where it comes to a length that does not fit behind its own digits, and nowhere else. -/
theorem decodesSafely_iff (bits : ℕ) (s : Bytes) : DecodesSafely bits s ↔ ¬ Stops (deLexicon bits) s := by
  constructor
  · rintro ⟨hvalue, -, -⟩ hstops
    rw [decodeValue_eq_panic.mpr hstops] at hvalue
    exact hvalue
  · intro hgoes
    refine ⟨?_, fun t => ?_, fun t v hv => ?_⟩
    · cases hresult : decodeValue bits s with
      | ok v => trivial
      | error e =>
        cases e with
        | error err => trivial
        | panic => exact absurd (decodeValue_eq_panic.mp hresult) hgoes
        | unfinished => exact absurd hresult decodeValue_ne_unfinished
    · rcases fromSlice_cases t.takes s with ⟨a, h, -⟩ | ⟨e, h⟩ | ⟨-, hstops⟩
      · rw [h]
        trivial
      · rw [h]
        trivial
      · exact absurd hstops hgoes
    · rcases fromSlice_cases t.takes s with ⟨a, -, hspells⟩ | ⟨e, h⟩ | ⟨-, hstops⟩
      · exact hspells
      · rw [h] at hv
        cases hv
      · exact absurd hstops hgoes

/-- A length in the place of a variant's name that fits, but not behind its digits. -/
theorem enum_panics (variants : Variants) {d : UInt8} {tok : Bytes} (hd : isDigit d = true) (htok : 58 ∉ d :: tok)
    (hstops : overflows bits (d :: tok) = true) (rest : Bytes) :
    fromSlice ((Ty.enum variants).deserialize bits) (100 :: (d :: tok ++ 58 :: rest)) = .error .panic := by
  have hpanic : parseBytestring bits (d :: tok ++ 58 :: rest) = .error .panic (d :: tok ++ 58 :: rest) := by
    have hsize : ∃ n, sizeToken bits (d :: tok) = some n ∧ 2 ^ bits ≤ (d :: tok).length + 1 + n := by
      unfold overflows at hstops
      split at hstops
      · next n hn => exact ⟨n, hn, of_decide_eq_true hstops⟩
      · cases hstops
    obtain ⟨n, hn, hle⟩ := hsize
    rw [parseBytestring_of_size (Bencode.cut_append htok rest) hn, if_neg (Nat.not_lt_of_le hle)]
  have hidentifier : variants.identifier bits (d :: tok ++ 58 :: rest) = .error .panic (d :: tok ++ 58 :: rest) := by
    have htext : d ≠ 117 := by
      rintro rfl
      cases hd
    unfold Variants.identifier deserializeIdentifier
    rw [List.cons_append, Act.bind_of_ok (peek_cons d _), if_neg htext, if_pos hd]
    exact Act.bind_of_error hpanic _
  have henum : (Ty.enum variants).deserialize bits (100 :: (d :: tok ++ 58 :: rest)) =
      .error .panic (d :: tok ++ 58 :: rest) := Act.bind_of_error hidentifier _
  rw [fromSlice, henum]

/-- `d18446744073709551615:` -/
def hugeLength64 : Bytes := 100 :: ((49 :: [56, 52, 52, 54, 55, 52, 52, 48, 55, 51, 55, 48, 57, 53, 53, 49, 54, 49, 53]) ++ [58])

/-- `d4294967295:` -/
def hugeLength32 : Bytes := 100 :: ((52 :: [50, 57, 52, 57, 54, 55, 50, 57, 53]) ++ [58])

/-- Messages are of an enumeration. -/
theorem hugeLength_panics :
    (∀ variants : Variants, fromSlice ((Ty.enum variants).deserialize 64) hugeLength64 = .error .panic) ∧
      (∀ variants : Variants, fromSlice ((Ty.enum variants).deserialize 32) hugeLength32 = .error .panic) ∧
      ¬ DecodesSafely 64 hugeLength64 ∧ ¬ DecodesSafely 32 hugeLength32 := by
  have h64 (variants : Variants) : fromSlice ((Ty.enum variants).deserialize 64) hugeLength64 = .error .panic :=
    enum_panics variants (by decide) (by decide) (by decide) []
  have h32 (variants : Variants) : fromSlice ((Ty.enum variants).deserialize 32) hugeLength32 = .error .panic :=
    enum_panics variants (by decide) (by decide) (by decide) []
  refine ⟨h64, h32, fun h => ?_, fun h => ?_⟩
  · have hreturned := h.type (.enum .nil)
    rw [h64] at hreturned
    exact hreturned
  · have hreturned := h.type (.enum .nil)
    rw [h32] at hreturned
    exact hreturned

end Types

end Bencodex

end ChiaGaming
