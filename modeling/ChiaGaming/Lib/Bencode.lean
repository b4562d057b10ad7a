import ChiaGaming.Lib.Act
import ChiaGaming.Lib.Numeral

namespace ChiaGaming

/-! Values written as tagged bytes: what a spelling of a value is under a given reading of its
numbers, lengths and texts, and a reader that finds the value a string spells. -/

namespace Bencode

inductive Value where
  | null
  | bool (b : Bool)
  | int (z : ℤ)
  | bytes (data : Bytes)
  | text (data : Bytes)
  | list (items : List Value)
  | map (entries : List (Value × Value))

/-- How an implementation reads the tokens. -/
structure Lexicon where
  int : Bytes → Option ℤ
  /-- The number in front of a byte string. -/
  size : Bytes → Option ℕ
  /-- The number in front of a text. -/
  textSize : Bytes → Option ℕ
  text : Bytes → Option Bytes
  isKey : Value → Bool
  /-- What becomes of a map's entries. -/
  collect : List (Value × Value) → Option (List (Value × Value))
  /-- The numbers in front of a string that stop the program. -/
  stops : Bytes → Bool

/-- `w` spells `v`. -/
inductive Spells (L : Lexicon) : Value → Bytes → Prop where
  | null : Spells L .null [110]
  | true : Spells L (.bool true) [116]
  | false : Spells L (.bool false) [102]
  | int {tok : Bytes} {z : ℤ} (htok : 101 ∉ tok) (hint : L.int tok = some z) :
      Spells L (.int z) (105 :: tok ++ [101])
  | bytes {d : UInt8} {tok data : Bytes} (hd : isDigit d = true) (htok : 58 ∉ d :: tok)
      (hgoes : L.stops (d :: tok) = false) (hsize : L.size (d :: tok) = some data.length) :
      Spells L (.bytes data) (d :: tok ++ 58 :: data)
  | text {tok data shown : Bytes} (htok : 58 ∉ tok) (hgoes : L.stops tok = false)
      (hsize : L.textSize tok = some data.length) (htext : L.text data = some shown) :
      Spells L (.text shown) (117 :: tok ++ 58 :: data)
  | list {items : List (Value × Bytes)} (h : ∀ p ∈ items, Spells L p.1 p.2) :
      Spells L (.list (items.map Prod.fst)) (108 :: (items.map Prod.snd).flatten ++ [101])
  | map {entries : List ((Value × Bytes) × (Value × Bytes))} {es : List (Value × Value)}
      (hkey : ∀ p ∈ entries, L.isKey p.1.1 = true) (hk : ∀ p ∈ entries, Spells L p.1.1 p.1.2)
      (hv : ∀ p ∈ entries, Spells L p.2.1 p.2.2)
      (hes : L.collect (entries.map fun p => (p.1.1, p.2.1)) = some es) :
      Spells L (.map es) (100 :: (entries.map fun p => p.1.2 ++ p.2.2).flatten ++ [101])

/-- Reading `s` comes to a length that stops the program. -/
inductive Stops (L : Lexicon) : Bytes → Prop where
  | bytes {d : UInt8} {tok rest : Bytes} (hd : isDigit d = true) (htok : 58 ∉ d :: tok)
      (hstops : L.stops (d :: tok) = true) : Stops L (d :: tok ++ 58 :: rest)
  | text {tok rest : Bytes} (htok : 58 ∉ tok) (hstops : L.stops tok = true) :
      Stops L (117 :: tok ++ 58 :: rest)
  | item {items : List (Value × Bytes)} {rest : Bytes} (h : ∀ p ∈ items, Spells L p.1 p.2)
      (hrest : Stops L rest) : Stops L (108 :: (items.map Prod.snd).flatten ++ rest)
  | key {entries : List ((Value × Bytes) × (Value × Bytes))} {rest : Bytes}
      (hkey : ∀ p ∈ entries, L.isKey p.1.1 = true) (hk : ∀ p ∈ entries, Spells L p.1.1 p.1.2)
      (hv : ∀ p ∈ entries, Spells L p.2.1 p.2.2) (hrest : Stops L rest) :
      Stops L (100 :: (entries.map fun p => p.1.2 ++ p.2.2).flatten ++ rest)
  | value {entries : List ((Value × Bytes) × (Value × Bytes))} {k : Value} {w rest : Bytes}
      (hkey : ∀ p ∈ entries, L.isKey p.1.1 = true) (hk : ∀ p ∈ entries, Spells L p.1.1 p.1.2)
      (hv : ∀ p ∈ entries, Spells L p.2.1 p.2.2) (hkey' : L.isKey k = true) (hk' : Spells L k w)
      (hrest : Stops L rest) :
      Stops L (100 :: (entries.map fun p => p.1.2 ++ p.2.2).flatten ++ (w ++ rest))

/-! The reader. -/

inductive Verdict where
  | refused
  | stopped
  | unfinished
  deriving DecidableEq

abbrev Reader := Act Verdict Bytes

/-- What stands before the first `b`, and what stands behind it. -/
def cut (b : UInt8) : Bytes → Option (Bytes × Bytes)
  | [] => none
  | x :: xs => if x = b then some ([], xs) else (cut b xs).map fun p => (x :: p.1, p.2)

def peek : Reader UInt8 := fun s =>
  match s with
  | [] => .error .refused s
  | b :: _ => .ok b s

def skip : Reader Unit := fun s => .ok () s.tail

def delimited (b : UInt8) : Reader Bytes := fun s =>
  match cut b s with
  | none => .error .refused s
  | some (tok, rest) => .ok tok rest

def payload (n : ℕ) : Reader Bytes := fun s =>
  if s.length < n then .error .refused s else .ok (s.take n) (s.drop n)

def orRefuse {α : Type} : Option α → Reader α
  | none => throw .refused
  | some a => pure a

def sized (L : Lexicon) (size : Bytes → Option ℕ) : Reader Bytes := do
  let tok ← delimited 58
  if L.stops tok then throw .stopped
  else do
    let n ← orRefuse (size tok)
    payload n

/-- Items up to the mark that ends a list. -/
def items {α : Type} (x : Reader α) : ℕ → Reader (List α)
  | 0 => throw .unfinished
  | n + 1 => do
    let b ← peek
    if b = 101 then do
      skip
      pure []
    else do
      let a ← x
      let as ← items x n
      pure (a :: as)

def entry (L : Lexicon) (x : Reader Value) : Reader (Value × Value) := do
  let k ← x
  if L.isKey k then do
    let v ← x
    pure (k, v)
  else throw .refused

def read (L : Lexicon) : ℕ → Reader Value
  | 0 => throw .unfinished
  | fuel + 1 => do
    let tag ← peek
    if isDigit tag then Value.bytes <$> sized L L.size
    else do
      skip
      if tag = 110 then pure .null
      else if tag = 116 then pure (.bool true)
      else if tag = 102 then pure (.bool false)
      else if tag = 105 then do
        let tok ← delimited 101
        Value.int <$> orRefuse (L.int tok)
      else if tag = 108 then Value.list <$> items (read L fuel) fuel
      else if tag = 100 then do
        let es ← items (entry L (read L fuel)) fuel
        Value.map <$> orRefuse (L.collect es)
      else if tag = 117 then do
        let data ← sized L L.textSize
        Value.text <$> orRefuse (L.text data)
      else throw .refused

/-- The value that the whole of `s` spells. -/
def readAll (L : Lexicon) (s : Bytes) : Except Verdict Value :=
  match read L (s.length + 1) s with
  | .ok v [] => .ok v
  | .ok _ (_ :: _) => .error .refused
  | .error e _ => .error e

theorem cut_append {b : UInt8} {tok : Bytes} (h : b ∉ tok) (rest : Bytes) :
    cut b (tok ++ b :: rest) = some (tok, rest) := by
  induction tok with
  | nil => simp [cut]
  | cons x xs ih =>
    rw [List.mem_cons, not_or] at h
    rw [List.cons_append, cut, if_neg (Ne.symm h.1), ih h.2]
    rfl

theorem cut_eq_some {b : UInt8} {s tok rest : Bytes} (h : cut b s = some (tok, rest)) :
    s = tok ++ b :: rest ∧ b ∉ tok := by
  induction s generalizing tok with
  | nil => cases h
  | cons x xs ih =>
    rw [cut] at h
    split at h
    · rename_i hx
      cases h
      exact ⟨by rw [hx, List.nil_append], List.not_mem_nil⟩
    · rename_i hx
      obtain ⟨p, hp, heq⟩ := Option.map_eq_some_iff.mp h
      cases heq
      obtain ⟨rfl, hmem⟩ := ih hp
      refine ⟨rfl, ?_⟩
      rw [List.mem_cons, not_or]
      exact ⟨Ne.symm hx, hmem⟩

theorem delimited_append {b : UInt8} {tok : Bytes} (h : b ∉ tok) (rest : Bytes) :
    delimited b (tok ++ b :: rest) = .ok tok rest := by
  rw [delimited, cut_append h]

theorem delimited_eq_ok {b : UInt8} {s tok rest : Bytes} (h : delimited b s = .ok tok rest) :
    s = tok ++ b :: rest ∧ b ∉ tok := by
  rw [delimited] at h
  split at h
  · cases h
  · rename_i hcut
    cases h
    exact cut_eq_some hcut

theorem delimited_eq_error {b : UInt8} {s s' : Bytes} {e : Verdict}
    (h : delimited b s = .error e s') : e = .refused := by
  rw [delimited] at h
  split at h
  · cases h
    rfl
  · cases h

theorem payload_append (data rest : Bytes) : payload data.length (data ++ rest) = .ok data rest := by
  rw [payload, if_neg (by simp), List.take_left, List.drop_left]

theorem payload_eq_ok {n : ℕ} {s data rest : Bytes} (h : payload n s = .ok data rest) :
    s = data ++ rest ∧ n = data.length := by
  rw [payload] at h
  split at h
  · cases h
  · cases h
    refine ⟨(List.take_append_drop n s).symm, ?_⟩
    rw [List.length_take]
    omega

theorem orRefuse_eq_ok {α : Type} {x : Option α} {s r : Bytes} {a : α}
    (h : orRefuse x s = .ok a r) : x = some a ∧ r = s := by
  cases x with
  | none => cases h
  | some b =>
    cases h
    exact ⟨rfl, rfl⟩

theorem orRefuse_eq_error {α : Type} {x : Option α} {s s' : Bytes} {e : Verdict}
    (h : orRefuse x s = .error e s') : e = .refused := by
  cases x with
  | none =>
    cases h
    rfl
  | some b => cases h

section Sized

variable {L : Lexicon} {size : Bytes → Option ℕ}

theorem sized_append {tok data : Bytes} (htok : 58 ∉ tok) (hgoes : L.stops tok = false)
    (hsize : size tok = some data.length) (rest : Bytes) :
    sized L size (tok ++ 58 :: data ++ rest) = .ok data rest := by
  rw [sized, List.append_assoc, List.cons_append, Act.bind_of_ok (delimited_append htok _), hgoes,
    if_neg Bool.false_ne_true, hsize]
  exact payload_append data rest

theorem sized_eq_ok {s data rest : Bytes} (h : sized L size s = .ok data rest) :
    ∃ tok, 58 ∉ tok ∧ L.stops tok = false ∧ size tok = some data.length ∧
      s = tok ++ 58 :: data ++ rest := by
  obtain ⟨tok, s₁, htok, h₁⟩ := Act.bind_eq_ok.mp h
  obtain ⟨rfl, hmem⟩ := delimited_eq_ok htok
  obtain ⟨-, h₂⟩ | ⟨hgoes, h₂⟩ := Act.ite_eq_ok.mp h₁
  · cases h₂
  obtain ⟨n, s₂, hn, h₃⟩ := Act.bind_eq_ok.mp h₂
  obtain ⟨hsize, rfl⟩ := orRefuse_eq_ok hn
  obtain ⟨rfl, rfl⟩ := payload_eq_ok h₃
  exact ⟨tok, hmem, by simpa using hgoes, hsize, by simp⟩

theorem sized_stopped {tok : Bytes} (htok : 58 ∉ tok) (hstops : L.stops tok = true) (rest : Bytes) :
    sized L size (tok ++ 58 :: rest) = .error .stopped rest := by
  rw [sized, Act.bind_of_ok (delimited_append htok _), hstops, if_pos rfl]
  rfl

theorem sized_eq_error {s s' : Bytes} {e : Verdict} (h : sized L size s = .error e s') :
    e = .refused ∨ e = .stopped ∧ ∃ tok rest, 58 ∉ tok ∧ L.stops tok = true ∧ s = tok ++ 58 :: rest := by
  rcases Act.bind_eq_error.mp h with htok | ⟨tok, s₁, htok, h₁⟩
  · exact .inl (delimited_eq_error htok)
  obtain ⟨rfl, hmem⟩ := delimited_eq_ok htok
  obtain ⟨hstops, h₂⟩ | ⟨-, h₂⟩ := Act.ite_eq_error.mp h₁
  · cases h₂
    exact .inr ⟨rfl, tok, _, hmem, hstops, rfl⟩
  rcases Act.bind_eq_error.mp h₂ with hn | ⟨n, s₂, hn, h₃⟩
  · exact .inl (orRefuse_eq_error hn)
  · rw [payload] at h₃
    split at h₃
    · cases h₃
      exact .inl rfl
    · cases h₃

end Sized

section Items

variable {α : Type} {x : Reader α}

theorem items_end (n : ℕ) (r : Bytes) : items x (n + 1) (101 :: r) = .ok [] r := rfl

theorem items_succ {n : ℕ} {b : UInt8} {s : Bytes} (hb : b ≠ 101) :
    items x (n + 1) (b :: s) =
      (do
        let a ← x
        let as ← items x n
        pure (a :: as) : Reader (List α)) (b :: s) := by
  have hpeek : peek (b :: s) = .ok b (b :: s) := rfl
  rw [items, Act.bind_of_ok hpeek, if_neg hb]

/-- What a reader of items reads, item by item. -/
theorem items_sound {P : α → Bytes → Prop}
    (hx : ∀ s a r, x s = .ok a r → ∃ w, s = w ++ r ∧ P a w) {n : ℕ} {s r : Bytes} {as : List α}
    (h : items x n s = .ok as r) :
    ∃ ps : List (α × Bytes), ps.map Prod.fst = as ∧ (∀ p ∈ ps, P p.1 p.2) ∧
      s = (ps.map Prod.snd).flatten ++ 101 :: r := by
  induction n generalizing s as with
  | zero => cases h
  | succ n ih =>
    cases s with
    | nil => cases h
    | cons b s =>
      by_cases hb : b = 101
      · subst hb
        cases h
        exact ⟨[], rfl, by simp, rfl⟩
      · rw [items_succ hb] at h
        obtain ⟨a, s₁, ha, h⟩ := Act.bind_eq_ok.mp h
        obtain ⟨bs, s₂, hbs, h⟩ := Act.bind_eq_ok.mp h
        cases h
        obtain ⟨w, hw, hP⟩ := hx _ _ _ ha
        obtain ⟨ps, rfl, hps, rfl⟩ := ih hbs
        refine ⟨(a, w) :: ps, rfl, ?_, by simp [hw]⟩
        rintro p (_ | ⟨_, hp⟩)
        · exact hP
        · exact hps p hp

/-- A spelling of an item is not the mark that ends a list. -/
def Open (w : Bytes) : Prop := ∃ b t, w = b :: t ∧ b ≠ 101

theorem items_complete {ps : List (α × Bytes)} (hopen : ∀ p ∈ ps, Open p.2)
    (hx : ∀ p ∈ ps, ∀ r, x (p.2 ++ r) = .ok p.1 r) {n : ℕ} (hn : ps.length < n) (r : Bytes) :
    items x n ((ps.map Prod.snd).flatten ++ 101 :: r) = .ok (ps.map Prod.fst) r := by
  induction ps generalizing n with
  | nil =>
    obtain ⟨m, rfl⟩ : ∃ m, n = m + 1 := ⟨n - 1, by simp at hn; omega⟩
    exact items_end m r
  | cons p ps ih =>
    obtain ⟨m, rfl⟩ : ∃ m, n = m + 1 := ⟨n - 1, by simp at hn; omega⟩
    have hp := hx p List.mem_cons_self ((ps.map Prod.snd).flatten ++ 101 :: r)
    have hps := ih (fun q hq => hopen q (List.mem_cons_of_mem p hq))
      (fun q hq => hx q (List.mem_cons_of_mem p hq)) (by simpa using hn)
    obtain ⟨b, t, hw, hb⟩ := hopen p List.mem_cons_self
    rw [hw] at hp
    simp only [List.map_cons, List.flatten_cons, List.append_assoc, hw, List.cons_append] at hp ⊢
    rw [items_succ hb, Act.bind_of_ok hp, Act.bind_of_ok hps]
    rfl

theorem items_stopped {ps : List (α × Bytes)} (hopen : ∀ p ∈ ps, Open p.2)
    (hx : ∀ p ∈ ps, ∀ r, x (p.2 ++ r) = .ok p.1 r) {rest s' : Bytes} {e : Verdict}
    (hrest : Open rest) (he : x rest = .error e s') {n : ℕ} (hn : ps.length < n) :
    items x n ((ps.map Prod.snd).flatten ++ rest) = .error e s' := by
  induction ps generalizing n with
  | nil =>
    obtain ⟨m, rfl⟩ : ∃ m, n = m + 1 := ⟨n - 1, by simp at hn; omega⟩
    obtain ⟨b, t, rfl, hb⟩ := hrest
    exact (items_succ hb).trans (Act.bind_of_error he _)
  | cons p ps ih =>
    obtain ⟨m, rfl⟩ : ∃ m, n = m + 1 := ⟨n - 1, by simp at hn; omega⟩
    have hp := hx p List.mem_cons_self ((ps.map Prod.snd).flatten ++ rest)
    have hps := ih (fun q hq => hopen q (List.mem_cons_of_mem p hq))
      (fun q hq => hx q (List.mem_cons_of_mem p hq)) (n := m) (by simpa using hn)
    obtain ⟨b, t, hw, hb⟩ := hopen p List.mem_cons_self
    rw [hw] at hp
    simp only [List.map_cons, List.flatten_cons, List.append_assoc, hw, List.cons_append] at hp ⊢
    rw [items_succ hb, Act.bind_of_ok hp, Act.bind_of_error hps]

/-- Where a reader of items fails, it has come to an item that cannot be read. -/
theorem items_eq_error {P : α → Bytes → Prop}
    (hx : ∀ s a r, x s = .ok a r → ∃ w, s = w ++ r ∧ P a w) {n : ℕ} {s s' : Bytes} {e : Verdict}
    (h : items x n s = .error e s') (hlen : s.length < n) (hw : ∀ a w, P a w → w ≠ []) :
    e = .refused ∨ ∃ (ps : List (α × Bytes)) (rest : Bytes), (∀ p ∈ ps, P p.1 p.2) ∧
      s = (ps.map Prod.snd).flatten ++ rest ∧ x rest = .error e s' := by
  induction n generalizing s with
  | zero => omega
  | succ n ih =>
    cases s with
    | nil =>
      cases h
      exact .inl rfl
    | cons b s =>
      by_cases hb : b = 101
      · subst hb
        cases h
      · rw [items_succ hb] at h
        rcases Act.bind_eq_error.mp h with ha | ⟨a, s₁, ha, h⟩
        · exact .inr ⟨[], b :: s, by simp, rfl, ha⟩
        rcases Act.bind_eq_error.mp h with hbs | ⟨bs, s₂, hbs, h⟩
        · obtain ⟨w, hw', hP⟩ := hx _ _ _ ha
          have hlen' : s₁.length < n := by
            have hpos := List.length_pos_iff.mpr (hw a w hP)
            have := congrArg List.length hw'
            rw [List.length_append] at this
            omega
          rcases ih hbs hlen' with he | ⟨ps, rest, hps, rfl, hrest⟩
          · exact .inl he
          refine .inr ⟨(a, w) :: ps, rest, ?_, by simp [hw'], hrest⟩
          rintro p (_ | ⟨_, hp⟩)
          · exact hP
          · exact hps p hp
        · cases h

end Items

section Read

variable {L : Lexicon} {n : ℕ} {s : Bytes}

theorem read_digit {d : UInt8} (h : isDigit d = true) :
    read L (n + 1) (d :: s) = (Value.bytes <$> sized L L.size) (d :: s) := by
  have hpeek : peek (d :: s) = .ok d (d :: s) := rfl
  rw [read, Act.bind_of_ok hpeek, if_pos h]

theorem read_null : read L (n + 1) (110 :: s) = .ok .null s := rfl

theorem read_true : read L (n + 1) (116 :: s) = .ok (.bool true) s := rfl

theorem read_false : read L (n + 1) (102 :: s) = .ok (.bool false) s := rfl

theorem read_int : read L (n + 1) (105 :: s) =
    (do
      let tok ← delimited 101
      Value.int <$> orRefuse (L.int tok) : Reader Value) s := rfl

theorem read_list : read L (n + 1) (108 :: s) = (Value.list <$> items (read L n) n) s := rfl

theorem read_map : read L (n + 1) (100 :: s) =
    (do
      let es ← items (entry L (read L n)) n
      Value.map <$> orRefuse (L.collect es) : Reader Value) s := rfl

theorem read_text : read L (n + 1) (117 :: s) =
    (do
      let data ← sized L L.textSize
      Value.text <$> orRefuse (L.text data) : Reader Value) s := rfl

inductive IsTag : UInt8 → Prop where
  | digit {d : UInt8} (h : isDigit d = true) : IsTag d
  | null : IsTag 110
  | true : IsTag 116
  | false : IsTag 102
  | int : IsTag 105
  | list : IsTag 108
  | map : IsTag 100
  | text : IsTag 117

theorem read_other {b : UInt8} (h : ¬ IsTag b) : read L (n + 1) (b :: s) = .error .refused s := by
  have hpeek : peek (b :: s) = .ok b (b :: s) := rfl
  have hskip : skip (b :: s) = .ok () s := rfl
  have hdigit : ¬ isDigit b = true := fun hd => h (.digit hd)
  have hnull : b ≠ 110 := fun heq => h (heq ▸ .null)
  have htrue : b ≠ 116 := fun heq => h (heq ▸ .true)
  have hfalse : b ≠ 102 := fun heq => h (heq ▸ .false)
  have hint : b ≠ 105 := fun heq => h (heq ▸ .int)
  have hlist : b ≠ 108 := fun heq => h (heq ▸ .list)
  have hmap : b ≠ 100 := fun heq => h (heq ▸ .map)
  have htext : b ≠ 117 := fun heq => h (heq ▸ .text)
  rw [read, Act.bind_of_ok hpeek, if_neg hdigit, Act.bind_of_ok hskip, if_neg hnull, if_neg htrue,
    if_neg hfalse, if_neg hint, if_neg hlist, if_neg hmap, if_neg htext]
  rfl

theorem Spells.isOpen {v : Value} {w : Bytes} (h : Spells L v w) : Open w := by
  cases h with
  | null => exact ⟨110, [], rfl, by decide⟩
  | true => exact ⟨116, [], rfl, by decide⟩
  | false => exact ⟨102, [], rfl, by decide⟩
  | int => exact ⟨105, _, rfl, by decide⟩
  | list => exact ⟨108, _, rfl, by decide⟩
  | map => exact ⟨100, _, rfl, by decide⟩
  | text => exact ⟨117, _, rfl, by decide⟩
  | bytes hd =>
    refine ⟨_, _, rfl, ?_⟩
    rintro rfl
    cases hd

theorem Stops.isOpen (h : Stops L s) : Open s := by
  cases h with
  | bytes hd =>
    refine ⟨_, _, rfl, ?_⟩
    rintro rfl
    cases hd
  | text => exact ⟨117, _, rfl, by decide⟩
  | item => exact ⟨108, _, rfl, by decide⟩
  | key => exact ⟨100, _, rfl, by decide⟩
  | value => exact ⟨100, _, rfl, by decide⟩

theorem Open.ne_nil {w : Bytes} (h : Open w) : w ≠ [] := by
  obtain ⟨b, t, rfl, -⟩ := h
  exact List.cons_ne_nil b t

def SpellsEntry (L : Lexicon) (e : Value × Value) (w : Bytes) : Prop :=
  ∃ wk wv, w = wk ++ wv ∧ L.isKey e.1 = true ∧ Spells L e.1 wk ∧ Spells L e.2 wv

theorem SpellsEntry.isOpen {e : Value × Value} {w : Bytes} (h : SpellsEntry L e w) : Open w := by
  obtain ⟨wk, wv, rfl, -, hk, -⟩ := h
  obtain ⟨b, t, rfl, hb⟩ := hk.isOpen
  exact ⟨b, t ++ wv, rfl, hb⟩

theorem entry_sound {x : Reader Value} {e : Value × Value} {r : Bytes}
    (hx : ∀ s v r, x s = .ok v r → ∃ w, s = w ++ r ∧ Spells L v w) (h : entry L x s = .ok e r) :
    ∃ w, s = w ++ r ∧ SpellsEntry L e w := by
  obtain ⟨k, s₁, hk, h₁⟩ := Act.bind_eq_ok.mp h
  obtain ⟨hkey, h₂⟩ | ⟨-, h₂⟩ := Act.ite_eq_ok.mp h₁
  · obtain ⟨v, s₂, hv, h₃⟩ := Act.bind_eq_ok.mp h₂
    cases h₃
    obtain ⟨wk, rfl, hwk⟩ := hx _ _ _ hk
    obtain ⟨wv, rfl, hwv⟩ := hx _ _ _ hv
    exact ⟨wk ++ wv, by simp, wk, wv, rfl, hkey, hwk, hwv⟩
  · cases h₂

/-- Entries, with the spellings of their keys and values told apart. -/
theorem exists_entries {ps : List ((Value × Value) × Bytes)}
    (h : ∀ p ∈ ps, SpellsEntry L p.1 p.2) :
    ∃ es : List ((Value × Bytes) × (Value × Bytes)),
      es.map (fun p => ((p.1.1, p.2.1), p.1.2 ++ p.2.2)) = ps ∧
        (∀ p ∈ es, L.isKey p.1.1 = true) ∧ (∀ p ∈ es, Spells L p.1.1 p.1.2) ∧
        ∀ p ∈ es, Spells L p.2.1 p.2.2 := by
  induction ps with
  | nil => exact ⟨[], rfl, by simp, by simp, by simp⟩
  | cons p ps ih =>
    obtain ⟨es, rfl, hkey, hk, hv⟩ := ih fun q hq => h q (List.mem_cons_of_mem p hq)
    obtain ⟨⟨k, v⟩, w⟩ := p
    obtain ⟨wk, wv, rfl, hkey₁, hk₁, hv₁⟩ := h _ List.mem_cons_self
    refine ⟨((k, wk), (v, wv)) :: es, rfl, ?_, ?_, ?_⟩
    all_goals
      rintro q (_ | ⟨_, hq⟩)
    · exact hkey₁
    · exact hkey q hq
    · exact hk₁
    · exact hk q hq
    · exact hv₁
    · exact hv q hq

/-- What the reader returns is spelled by what it has read. -/
theorem read_sound {fuel : ℕ} {v : Value} {r : Bytes} (h : read L fuel s = .ok v r) :
    ∃ w, s = w ++ r ∧ Spells L v w := by
  induction fuel generalizing s v r with
  | zero => cases h
  | succ fuel ih =>
    cases s with
    | nil => cases h
    | cons b s =>
      by_cases hb : IsTag b
      · cases hb with
        | digit hd =>
          rw [read_digit hd] at h
          obtain ⟨data, hdata, rfl⟩ := Act.map_eq_ok.mp h
          obtain ⟨tok, htok, hgoes, hsize, hs⟩ := sized_eq_ok hdata
          cases tok with
          | nil =>
            cases hs
            cases hd
          | cons d tok =>
            obtain ⟨rfl, rfl⟩ := List.cons.inj hs
            exact ⟨_, rfl, .bytes hd htok hgoes hsize⟩
        | null =>
          cases h
          exact ⟨[110], rfl, .null⟩
        | true =>
          cases h
          exact ⟨[116], rfl, .true⟩
        | false =>
          cases h
          exact ⟨[102], rfl, .false⟩
        | int =>
          rw [read_int] at h
          obtain ⟨tok, s₁, htok, h₁⟩ := Act.bind_eq_ok.mp h
          obtain ⟨z, hz, rfl⟩ := Act.map_eq_ok.mp h₁
          obtain ⟨hint, rfl⟩ := orRefuse_eq_ok hz
          obtain ⟨rfl, hmem⟩ := delimited_eq_ok htok
          exact ⟨105 :: tok ++ [101], by simp, .int hmem hint⟩
        | list =>
          rw [read_list] at h
          obtain ⟨vs, hvs, rfl⟩ := Act.map_eq_ok.mp h
          obtain ⟨ps, rfl, hps, rfl⟩ := items_sound (P := Spells L) (fun _ _ _ => ih) hvs
          exact ⟨108 :: (ps.map Prod.snd).flatten ++ [101], by simp, .list hps⟩
        | map =>
          rw [read_map] at h
          obtain ⟨es, s₁, hes, h₁⟩ := Act.bind_eq_ok.mp h
          obtain ⟨fs, hfs, rfl⟩ := Act.map_eq_ok.mp h₁
          obtain ⟨hcollect, rfl⟩ := orRefuse_eq_ok hfs
          obtain ⟨ps, rfl, hps, rfl⟩ :=
            items_sound (P := SpellsEntry L) (fun _ _ _ => entry_sound fun _ _ _ => ih) hes
          obtain ⟨entries, rfl, hkey, hk, hv⟩ := exists_entries hps
          rw [List.map_map] at hcollect
          refine ⟨100 :: (entries.map fun p => p.1.2 ++ p.2.2).flatten ++ [101], ?_,
            .map hkey hk hv hcollect⟩
          simp [Function.comp_def]
        | text =>
          rw [read_text] at h
          obtain ⟨data, s₁, hdata, h₁⟩ := Act.bind_eq_ok.mp h
          obtain ⟨shown, hshown, rfl⟩ := Act.map_eq_ok.mp h₁
          obtain ⟨htext, rfl⟩ := orRefuse_eq_ok hshown
          obtain ⟨tok, htok, hgoes, hsize, rfl⟩ := sized_eq_ok hdata
          exact ⟨117 :: tok ++ 58 :: data, by simp, .text htok hgoes hsize htext⟩
      · rw [read_other hb] at h
        cases h

theorem length_le_flatten {α : Type} {ps : List (α × Bytes)} (h : ∀ p ∈ ps, Open p.2) :
    ps.length ≤ ((ps.map Prod.snd).flatten).length := by
  induction ps with
  | nil => simp
  | cons p ps ih =>
    have := ih fun q hq => h q (List.mem_cons_of_mem p hq)
    have := List.length_pos_iff.mpr (h p List.mem_cons_self).ne_nil
    simp only [List.length_cons, List.map_cons, List.flatten_cons, List.length_append]
    omega

theorem length_le_of_mem {α : Type} {ps : List (α × Bytes)} {p : α × Bytes} (h : p ∈ ps) :
    p.2.length ≤ ((ps.map Prod.snd).flatten).length :=
  (List.sublist_flatten_of_mem (List.mem_map_of_mem h)).length_le

theorem entry_complete {x : Reader Value} {k v : Value} {wk wv : Bytes} (hkey : L.isKey k = true)
    (hk : ∀ r, x (wk ++ r) = .ok k r) (hv : ∀ r, x (wv ++ r) = .ok v r) (r : Bytes) :
    entry L x (wk ++ wv ++ r) = .ok (k, v) r := by
  rw [entry, List.append_assoc, Act.bind_of_ok (hk _), if_pos hkey, Act.bind_of_ok (hv _)]
  rfl

/-- Entries as items: each a key and a value with what spells the two. -/
def entryItems (es : List ((Value × Bytes) × (Value × Bytes))) : List ((Value × Value) × Bytes) :=
  es.map fun p => ((p.1.1, p.2.1), p.1.2 ++ p.2.2)

theorem entryItems_snd (es : List ((Value × Bytes) × (Value × Bytes))) :
    (entryItems es).map Prod.snd = es.map fun p => p.1.2 ++ p.2.2 := by
  simp [entryItems]

theorem entryItems_fst (es : List ((Value × Bytes) × (Value × Bytes))) :
    (entryItems es).map Prod.fst = es.map fun p => (p.1.1, p.2.1) := by
  simp [entryItems]

theorem entryItems_open {es : List ((Value × Bytes) × (Value × Bytes))}
    (hk : ∀ p ∈ es, Spells L p.1.1 p.1.2) : ∀ p ∈ entryItems es, Open p.2 := by
  intro p hp
  obtain ⟨q, hq, rfl⟩ := List.mem_map.mp hp
  obtain ⟨b, t, hw, hb⟩ := (hk q hq).isOpen
  exact ⟨b, t ++ q.2.2, by simp [hw], hb⟩

/-- Where the keys and the values of entries are read, the entries are. -/
theorem entryItems_read {es : List ((Value × Bytes) × (Value × Bytes))} {x : Reader Value}
    (hkey : ∀ p ∈ es, L.isKey p.1.1 = true)
    (hread : ∀ p ∈ es, p.1.2.length + p.2.2.length ≤ ((entryItems es).map Prod.snd).flatten.length →
      (∀ r, x (p.1.2 ++ r) = .ok p.1.1 r) ∧ ∀ r, x (p.2.2 ++ r) = .ok p.2.1 r) :
    ∀ p ∈ entryItems es, ∀ r, entry L x (p.2 ++ r) = .ok p.1 r := by
  intro p hp r
  have hlen := length_le_of_mem hp
  obtain ⟨q, hq, rfl⟩ := List.mem_map.mp hp
  rw [List.length_append] at hlen
  obtain ⟨hk, hv⟩ := hread q hq hlen
  exact entry_complete (hkey q hq) hk hv r

/-- A spelling is read back as the value it spells. -/
theorem Spells.read {v : Value} {w : Bytes} (h : Spells L v w) {fuel : ℕ} (hfuel : w.length ≤ fuel)
    (r : Bytes) : read L fuel (w ++ r) = .ok v r := by
  induction h generalizing fuel r with
  | null =>
    obtain ⟨n, rfl⟩ : ∃ n, fuel = n + 1 := ⟨fuel - 1, by simp at hfuel; omega⟩
    rfl
  | true =>
    obtain ⟨n, rfl⟩ : ∃ n, fuel = n + 1 := ⟨fuel - 1, by simp at hfuel; omega⟩
    rfl
  | false =>
    obtain ⟨n, rfl⟩ : ∃ n, fuel = n + 1 := ⟨fuel - 1, by simp at hfuel; omega⟩
    rfl
  | int htok hint =>
    obtain ⟨n, rfl⟩ : ∃ n, fuel = n + 1 := ⟨fuel - 1, by simp at hfuel; omega⟩
    rw [List.cons_append, List.cons_append, read_int, List.append_assoc, List.singleton_append,
      Act.bind_of_ok (delimited_append htok r), hint]
    rfl
  | bytes hd htok hgoes hsize =>
    obtain ⟨n, rfl⟩ : ∃ n, fuel = n + 1 := ⟨fuel - 1, by simp at hfuel; omega⟩
    have hdata := sized_append (L := L) htok hgoes hsize r
    rw [List.cons_append, List.cons_append] at hdata ⊢
    rw [read_digit hd, Act.map_of_ok hdata]
  | text htok hgoes hsize htext =>
    obtain ⟨n, rfl⟩ : ∃ n, fuel = n + 1 := ⟨fuel - 1, by simp at hfuel; omega⟩
    have hdata := sized_append (L := L) htok hgoes hsize r
    rw [List.cons_append, List.cons_append, read_text, Act.bind_of_ok hdata, htext]
    rfl
  | @list ps hps ih =>
    obtain ⟨n, rfl⟩ : ∃ n, fuel = n + 1 := ⟨fuel - 1, by simp at hfuel; omega⟩
    have hopen : ∀ p ∈ ps, Open p.2 := fun p hp => (hps p hp).isOpen
    have hcount := length_le_flatten hopen
    simp only [List.cons_append, List.length_cons, List.length_append, List.length_nil] at hfuel
    have hread : ∀ p ∈ ps, ∀ r, Bencode.read L n (p.2 ++ r) = .ok p.1 r := by
      intro p hp r
      have := length_le_of_mem hp
      exact ih p hp (by omega) r
    have hitems := items_complete hopen hread (n := n) (by omega) r
    rw [List.cons_append, List.cons_append, read_list, List.append_assoc, List.singleton_append,
      Act.map_of_ok hitems]
  | @map es fs hkey hk hv hes ihk ihv =>
    obtain ⟨n, rfl⟩ : ∃ n, fuel = n + 1 := ⟨fuel - 1, by simp at hfuel; omega⟩
    have hopen := entryItems_open hk
    have hcount := length_le_flatten hopen
    rw [← entryItems_snd] at hfuel ⊢
    simp only [List.cons_append, List.length_cons, List.length_append, List.length_nil] at hfuel
    have hread := entryItems_read (x := Bencode.read L n) hkey fun p hp hlen =>
      ⟨fun r => ihk p hp (by omega) r, fun r => ihv p hp (by omega) r⟩
    have hitems := items_complete hopen hread (n := n) (by omega) r
    rw [entryItems_fst] at hitems
    rw [List.cons_append, List.cons_append, read_map, List.append_assoc, List.singleton_append,
      Act.bind_of_ok hitems, hes]
    rfl

/-- The reader comes to an end, and stops only at a length that stops the program. -/
theorem read_eq_error {fuel : ℕ} {s' : Bytes} {e : Verdict} (h : Bencode.read L fuel s = .error e s')
    (hfuel : s.length < fuel) : e = .refused ∨ e = .stopped ∧ Stops L s := by
  induction fuel generalizing s s' e with
  | zero => omega
  | succ fuel ih =>
    cases s with
    | nil =>
      cases h
      exact .inl rfl
    | cons b s =>
      rw [List.length_cons] at hfuel
      by_cases hb : IsTag b
      · cases hb with
        | digit hd =>
          rw [read_digit hd] at h
          rcases sized_eq_error (Act.map_eq_error.mp h) with he | ⟨he, tok, rest, htok, hstops, hs⟩
          · exact .inl he
          cases tok with
          | nil =>
            cases hs
            cases hd
          | cons d tok =>
            obtain ⟨rfl, rfl⟩ := List.cons.inj hs
            exact .inr ⟨he, .bytes hd htok hstops⟩
        | null => cases h
        | true => cases h
        | false => cases h
        | int =>
          rw [read_int] at h
          rcases Act.bind_eq_error.mp h with htok | ⟨tok, s₁, htok, h₁⟩
          · exact .inl (delimited_eq_error htok)
          · exact .inl (orRefuse_eq_error (Act.map_eq_error.mp h₁))
        | list =>
          rw [read_list] at h
          rcases items_eq_error (P := Spells L) (fun _ _ _ => read_sound) (Act.map_eq_error.mp h)
            (by omega) (fun _ _ hw => hw.isOpen.ne_nil) with he | ⟨ps, rest, hps, rfl, hrest⟩
          · exact .inl he
          rw [List.length_append] at hfuel
          rcases ih hrest (by omega) with he | ⟨he, hstops⟩
          · exact .inl he
          · exact .inr ⟨he, .item hps hstops⟩
        | map =>
          rw [read_map] at h
          rcases Act.bind_eq_error.mp h with hes | ⟨es, s₁, hes, h₁⟩
          · rcases items_eq_error (P := SpellsEntry L) (fun _ _ _ => entry_sound fun _ _ _ => read_sound)
              hes (by omega) (fun _ _ hw => hw.isOpen.ne_nil) with he | ⟨ps, rest, hps, rfl, hrest⟩
            · exact .inl he
            obtain ⟨entries, rfl, hkey, hk, hv⟩ := exists_entries hps
            rw [List.length_append] at hfuel
            have hflat : ((entries.map fun p => ((p.1.1, p.2.1), p.1.2 ++ p.2.2)).map Prod.snd).flatten =
                (entries.map fun p => p.1.2 ++ p.2.2).flatten := by
              simp [Function.comp_def]
            rw [hflat]
            rcases Act.bind_eq_error.mp hrest with hk' | ⟨k, s₂, hk', h₂⟩
            · rcases ih hk' (by omega) with he | ⟨he, hstops⟩
              · exact .inl he
              · exact .inr ⟨he, .key hkey hk hv hstops⟩
            obtain ⟨hkey', h₃⟩ | ⟨-, h₃⟩ := Act.ite_eq_error.mp h₂
            · rcases Act.bind_eq_error.mp h₃ with hv' | ⟨v, s₃, hv', h₄⟩
              · obtain ⟨w, rfl, hw⟩ := read_sound hk'
                rw [List.length_append] at hfuel
                rcases ih hv' (by omega) with he | ⟨he, hstops⟩
                · exact .inl he
                · exact .inr ⟨he, .value hkey hk hv hkey' hw hstops⟩
              · cases h₄
            · cases h₃
              exact .inl rfl
          · exact .inl (orRefuse_eq_error (Act.map_eq_error.mp h₁))
        | text =>
          rw [read_text] at h
          rcases Act.bind_eq_error.mp h with hdata | ⟨data, s₁, hdata, h₁⟩
          · rcases sized_eq_error hdata with he | ⟨he, tok, rest, htok, hstops, rfl⟩
            · exact .inl he
            · exact .inr ⟨he, .text htok hstops⟩
          · exact .inl (orRefuse_eq_error (Act.map_eq_error.mp h₁))
      · rw [read_other hb] at h
        cases h
        exact .inl rfl

theorem Stops.read (h : Stops L s) {fuel : ℕ} (hfuel : s.length ≤ fuel) :
    ∃ s', Bencode.read L fuel s = .error .stopped s' := by
  induction h generalizing fuel with
  | bytes hd htok hstops =>
    obtain ⟨n, rfl⟩ : ∃ n, fuel = n + 1 := ⟨fuel - 1, by simp at hfuel; omega⟩
    have hsized := @sized_stopped L L.size _ htok hstops
    rw [List.cons_append, read_digit hd]
    exact ⟨_, Act.map_of_error (hsized _) _⟩
  | text htok hstops =>
    obtain ⟨n, rfl⟩ : ∃ n, fuel = n + 1 := ⟨fuel - 1, by simp at hfuel; omega⟩
    rw [List.cons_append, read_text]
    exact ⟨_, Act.bind_of_error (sized_stopped htok hstops _) _⟩
  | @item ps rest hps hrest ih =>
    obtain ⟨n, rfl⟩ : ∃ n, fuel = n + 1 := ⟨fuel - 1, by simp at hfuel; omega⟩
    have hopen : ∀ p ∈ ps, Open p.2 := fun p hp => (hps p hp).isOpen
    have hcount := length_le_flatten hopen
    have hpos := List.length_pos_iff.mpr hrest.isOpen.ne_nil
    simp only [List.cons_append, List.length_cons, List.length_append] at hfuel
    have hread : ∀ p ∈ ps, ∀ r, Bencode.read L n (p.2 ++ r) = .ok p.1 r := by
      intro p hp r
      have := length_le_of_mem hp
      exact (hps p hp).read (by omega) r
    obtain ⟨s', hs'⟩ := @ih n (by omega)
    rw [List.cons_append, read_list]
    exact ⟨s', Act.map_of_error (items_stopped hopen hread hrest.isOpen hs' (by omega)) _⟩
  | @key es rest hkey hk hv hrest ih =>
    obtain ⟨n, rfl⟩ : ∃ n, fuel = n + 1 := ⟨fuel - 1, by simp at hfuel; omega⟩
    have hopen := entryItems_open hk
    have hcount := length_le_flatten hopen
    have hpos := List.length_pos_iff.mpr hrest.isOpen.ne_nil
    rw [← entryItems_snd] at hfuel ⊢
    simp only [List.cons_append, List.length_cons, List.length_append] at hfuel
    have hread := entryItems_read (x := Bencode.read L n) hkey fun p hp hlen =>
      ⟨fun r => (hk p hp).read (by omega) r, fun r => (hv p hp).read (by omega) r⟩
    obtain ⟨s', hs'⟩ := @ih n (by omega)
    have hentry : entry L (Bencode.read L n) rest = .error .stopped s' := Act.bind_of_error hs' _
    rw [List.cons_append, read_map]
    exact ⟨s', Act.bind_of_error (items_stopped hopen hread hrest.isOpen hentry (by omega)) _⟩
  | @value es k w rest hkey hk hv hkey' hk' hrest ih =>
    obtain ⟨n, rfl⟩ : ∃ n, fuel = n + 1 := ⟨fuel - 1, by simp at hfuel; omega⟩
    have hopen := entryItems_open hk
    have hcount := length_le_flatten hopen
    have hpos := List.length_pos_iff.mpr hrest.isOpen.ne_nil
    rw [← entryItems_snd] at hfuel ⊢
    simp only [List.cons_append, List.length_cons, List.length_append] at hfuel
    have hread := entryItems_read (x := Bencode.read L n) hkey fun p hp hlen =>
      ⟨fun r => (hk p hp).read (by omega) r, fun r => (hv p hp).read (by omega) r⟩
    obtain ⟨s', hs'⟩ := @ih n (by omega)
    have hentry : entry L (Bencode.read L n) (w ++ rest) = .error .stopped s' := by
      rw [entry, Act.bind_of_ok (hk'.read (by omega) rest), if_pos hkey', Act.bind_of_error hs']
    have hopen' : Open (w ++ rest) := by
      obtain ⟨b, t, rfl, hb⟩ := hk'.isOpen
      exact ⟨b, t ++ rest, rfl, hb⟩
    rw [List.cons_append, read_map]
    exact ⟨s', Act.bind_of_error (items_stopped hopen hread hopen' hentry (by omega)) _⟩

/-! What a whole string spells. -/

theorem readAll_eq_ok {v : Value} : readAll L s = .ok v ↔ Spells L v s := by
  rw [readAll]
  constructor
  · intro h
    split at h
    · rename_i hread
      cases h
      obtain ⟨w, rfl, hw⟩ := read_sound hread
      rw [List.append_nil]
      exact hw
    · cases h
    · cases h
  · intro h
    have hread := h.read (Nat.le_succ s.length) []
    rw [List.append_nil] at hread
    rw [hread]

theorem readAll_eq_stopped : readAll L s = .error .stopped ↔ Stops L s := by
  rw [readAll]
  constructor
  · intro h
    split at h
    · cases h
    · cases h
    · rename_i hread
      cases h
      rcases read_eq_error hread (Nat.lt_succ_self s.length) with he | ⟨-, hstops⟩
      · cases he
      · exact hstops
  · intro h
    obtain ⟨s', hread⟩ := h.read (Nat.le_succ s.length)
    rw [hread]

theorem readAll_ne_unfinished : readAll L s ≠ .error .unfinished := by
  intro h
  rw [readAll] at h
  split at h
  · cases h
  · cases h
  · rename_i hread
    cases h
    rcases read_eq_error hread (Nat.lt_succ_self s.length) with he | ⟨he, -⟩
    · cases he
    · cases he

/-- A string spells one value at most. -/
theorem Spells.unique {v v' : Value} (h : Spells L v s) (h' : Spells L v' s) : v = v' := by
  have hok := readAll_eq_ok.mpr h
  rw [readAll_eq_ok.mpr h'] at hok
  exact (Except.ok.inj hok).symm

theorem Stops.not_spells (h : Stops L s) (v : Value) : ¬ Spells L v s := by
  intro hv
  have hok := readAll_eq_ok.mpr hv
  rw [readAll_eq_stopped.mpr h] at hok
  cases hok

theorem not_stops (h : ∀ tok, L.stops tok = false) : ¬ Stops L s := by
  intro hs
  induction hs with
  | bytes hd htok hstops => rw [h] at hstops; cases hstops
  | text htok hstops => rw [h] at hstops; cases hstops
  | item => assumption
  | key => assumption
  | value => assumption

end Read

end Bencode

end ChiaGaming
