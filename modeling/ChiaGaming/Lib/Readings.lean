import ChiaGaming.Lib.Bencode

namespace ChiaGaming

namespace Bencode

/-! Two readings of one string. -/

/-- What the one reading takes, the other takes as well. -/
structure Lexicon.Within (L M : Lexicon) : Prop where
  int : ∀ tok z, L.int tok = some z → M.int tok = some z
  size : ∀ tok n, L.size tok = some n → M.size tok = some n
  textSize : ∀ tok n, L.textSize tok = some n → M.textSize tok = some n
  text : ∀ data t, L.text data = some t → M.text data = some t
  isKey : ∀ v, L.isKey v = true → M.isKey v = true
  collect : ∀ es fs, L.collect es = some fs → M.collect es = some fs
  stops : ∀ tok, L.stops tok = false → M.stops tok = false

theorem Spells.mono {L M : Lexicon} (hLM : L.Within M) {v : Value} {w : Bytes} (h : Spells L v w) :
    Spells M v w := by
  induction h with
  | null => exact .null
  | true => exact .true
  | false => exact .false
  | int htok hint => exact .int htok (hLM.int _ _ hint)
  | bytes hd htok hgoes hsize => exact .bytes hd htok (hLM.stops _ hgoes) (hLM.size _ _ hsize)
  | text htok hgoes hsize htext =>
    exact .text htok (hLM.stops _ hgoes) (hLM.textSize _ _ hsize) (hLM.text _ _ htext)
  | list _ ih => exact .list ih
  | map hkey _ _ hes ihk ihv =>
    exact .map (fun p hp => hLM.isKey _ (hkey p hp)) ihk ihv (hLM.collect _ _ hes)

/-- What two readings both take, and take for the same value, the third takes. -/
structure Lexicon.Meets (A L M : Lexicon) : Prop where
  int : ∀ tok z, L.int tok = some z → M.int tok = some z → A.int tok = some z
  size : ∀ tok n m, L.size tok = some n → M.size tok = some m → n = m ∧ A.size tok = some n
  textSize : ∀ tok n m, L.textSize tok = some n → M.textSize tok = some m →
    n = m ∧ A.textSize tok = some n
  text : ∀ data t, L.text data = some t → M.text data = some t → A.text data = some t
  isKey : ∀ v, L.isKey v = true → M.isKey v = true → A.isKey v = true
  collect : ∀ es es' fs, es.length = es'.length → L.collect es = some fs → M.collect es' = some fs →
    es = es' ∧ A.collect es = some fs
  stops : ∀ tok, L.stops tok = false → M.stops tok = false → A.stops tok = false

/-- Two readers that go equally far, and a third that does what they do where they agree. -/
def Alike {α : Type} (x y z : Reader α) : Prop :=
  ∀ s a b r r', x s = .ok a r → y s = .ok b r' → r = r' ∧ (a = b → z s = .ok a r)

section Meet

variable {A L M : Lexicon}

theorem sized_meet {size size' size'' : Bytes → Option ℕ}
    (hsize : ∀ tok n m, size tok = some n → size' tok = some m → n = m ∧ size'' tok = some n)
    (hstops : ∀ tok, L.stops tok = false → M.stops tok = false → A.stops tok = false)
    {s data data' r r' : Bytes} (h : sized L size s = .ok data r)
    (h' : sized M size' s = .ok data' r') :
    data = data' ∧ r = r' ∧ sized A size'' s = .ok data r := by
  obtain ⟨tok, htok, hgoes, hn, rfl⟩ := sized_eq_ok h
  obtain ⟨tok', htok', hgoes', hn', heq⟩ := sized_eq_ok h'
  have hcut := cut_append htok (data ++ r)
  rw [← List.cons_append, ← List.append_assoc, heq, List.append_assoc, List.cons_append,
    cut_append htok'] at hcut
  obtain ⟨rfl, hrest⟩ := Prod.mk.inj (Option.some.inj hcut)
  obtain ⟨hlen, hA⟩ := hsize tok' _ _ hn hn'
  obtain ⟨rfl, rfl⟩ := List.append_inj hrest hlen.symm
  exact ⟨rfl, rfl, sized_append htok (hstops tok' hgoes hgoes') hA r'⟩

theorem items_meet {α : Type} {x y z : Reader α} (h : Alike x y z) {n : ℕ} {s r r' : Bytes}
    {as bs : List α} (hx : items x n s = .ok as r) (hy : items y n s = .ok bs r') :
    r = r' ∧ as.length = bs.length ∧ (as = bs → items z n s = .ok as r) := by
  induction n generalizing s as bs with
  | zero => cases hx
  | succ n ih =>
    cases s with
    | nil => cases hx
    | cons b s =>
      by_cases hb : b = 101
      · subst hb
        cases hx
        cases hy
        exact ⟨rfl, rfl, fun _ => rfl⟩
      · rw [items_succ hb] at hx hy ⊢
        obtain ⟨a, s₁, ha, hx₁⟩ := Act.bind_eq_ok.mp hx
        obtain ⟨as, s₂, has, hx₂⟩ := Act.bind_eq_ok.mp hx₁
        obtain ⟨a', s₁', ha', hy₁⟩ := Act.bind_eq_ok.mp hy
        obtain ⟨as', s₂', has', hy₂⟩ := Act.bind_eq_ok.mp hy₁
        cases hx₂
        cases hy₂
        obtain ⟨rfl, hz⟩ := h _ _ _ _ _ ha ha'
        obtain ⟨rfl, hlen, hzs⟩ := ih has has'
        refine ⟨rfl, by rw [List.length_cons, List.length_cons, hlen], fun heq => ?_⟩
        obtain ⟨rfl, rfl⟩ := List.cons.inj heq
        rw [Act.bind_of_ok (hz rfl), Act.bind_of_ok (hzs rfl)]
        rfl

theorem entry_meet (hA : A.Meets L M) {x y z : Reader Value} (h : Alike x y z) :
    Alike (entry L x) (entry M y) (entry A z) := by
  intro s a b r r' hx hy
  obtain ⟨k, s₁, hk, hx₁⟩ := Act.bind_eq_ok.mp hx
  obtain ⟨k', s₁', hk', hy₁⟩ := Act.bind_eq_ok.mp hy
  obtain ⟨hkey, hx₂⟩ | ⟨-, hx₂⟩ := Act.ite_eq_ok.mp hx₁
  · obtain ⟨hkey', hy₂⟩ | ⟨-, hy₂⟩ := Act.ite_eq_ok.mp hy₁
    · obtain ⟨v, s₂, hv, hx₃⟩ := Act.bind_eq_ok.mp hx₂
      obtain ⟨v', s₂', hv', hy₃⟩ := Act.bind_eq_ok.mp hy₂
      cases hx₃
      cases hy₃
      obtain ⟨rfl, hzk⟩ := h _ _ _ _ _ hk hk'
      obtain ⟨rfl, hzv⟩ := h _ _ _ _ _ hv hv'
      refine ⟨rfl, fun heq => ?_⟩
      obtain ⟨rfl, rfl⟩ := Prod.mk.inj heq
      rw [entry, Act.bind_of_ok (hzk rfl), if_pos (hA.isKey k hkey hkey'), Act.bind_of_ok (hzv rfl)]
      rfl
    · cases hy₂
  · cases hx₂

theorem read_meet (hA : A.Meets L M) (fuel : ℕ) : Alike (read L fuel) (read M fuel) (read A fuel) := by
  induction fuel with
  | zero =>
    intro s a b r r' hx
    cases hx
  | succ fuel ih =>
    intro s v v' r r' hx hy
    cases s with
    | nil => cases hx
    | cons b s =>
      by_cases hb : IsTag b
      · cases hb with
        | digit hd =>
          rw [read_digit hd] at hx hy ⊢
          obtain ⟨data, hdata, rfl⟩ := Act.map_eq_ok.mp hx
          obtain ⟨data', hdata', rfl⟩ := Act.map_eq_ok.mp hy
          obtain ⟨rfl, rfl, hz⟩ := sized_meet hA.size hA.stops hdata hdata'
          exact ⟨rfl, fun _ => Act.map_of_ok hz _⟩
        | null =>
          cases hx
          cases hy
          exact ⟨rfl, fun _ => rfl⟩
        | true =>
          cases hx
          cases hy
          exact ⟨rfl, fun _ => rfl⟩
        | false =>
          cases hx
          cases hy
          exact ⟨rfl, fun _ => rfl⟩
        | int =>
          rw [read_int] at hx hy ⊢
          obtain ⟨tok, s₁, htok, hx₁⟩ := Act.bind_eq_ok.mp hx
          obtain ⟨tok', s₁', htok', hy₁⟩ := Act.bind_eq_ok.mp hy
          rw [htok] at htok'
          cases htok'
          obtain ⟨z, hz, rfl⟩ := Act.map_eq_ok.mp hx₁
          obtain ⟨z', hz', rfl⟩ := Act.map_eq_ok.mp hy₁
          obtain ⟨hint, rfl⟩ := orRefuse_eq_ok hz
          obtain ⟨hint', rfl⟩ := orRefuse_eq_ok hz'
          refine ⟨rfl, fun heq => ?_⟩
          cases heq
          rw [Act.bind_of_ok htok, hA.int tok z hint hint']
          rfl
        | list =>
          rw [read_list] at hx hy ⊢
          obtain ⟨vs, hvs, rfl⟩ := Act.map_eq_ok.mp hx
          obtain ⟨vs', hvs', rfl⟩ := Act.map_eq_ok.mp hy
          obtain ⟨rfl, -, hz⟩ := items_meet ih hvs hvs'
          refine ⟨rfl, fun heq => ?_⟩
          cases heq
          exact Act.map_of_ok (hz rfl) _
        | map =>
          rw [read_map] at hx hy ⊢
          obtain ⟨es, s₁, hes, hx₁⟩ := Act.bind_eq_ok.mp hx
          obtain ⟨es', s₁', hes', hy₁⟩ := Act.bind_eq_ok.mp hy
          obtain ⟨fs, hfs, rfl⟩ := Act.map_eq_ok.mp hx₁
          obtain ⟨fs', hfs', rfl⟩ := Act.map_eq_ok.mp hy₁
          obtain ⟨hcollect, rfl⟩ := orRefuse_eq_ok hfs
          obtain ⟨hcollect', rfl⟩ := orRefuse_eq_ok hfs'
          obtain ⟨rfl, hlen, hz⟩ := items_meet (entry_meet hA ih) hes hes'
          refine ⟨rfl, fun heq => ?_⟩
          cases heq
          obtain ⟨rfl, hcollect''⟩ := hA.collect es es' fs hlen hcollect hcollect'
          rw [Act.bind_of_ok (hz rfl), hcollect'']
          rfl
        | text =>
          rw [read_text] at hx hy ⊢
          obtain ⟨data, s₁, hdata, hx₁⟩ := Act.bind_eq_ok.mp hx
          obtain ⟨data', s₁', hdata', hy₁⟩ := Act.bind_eq_ok.mp hy
          obtain ⟨t, ht, rfl⟩ := Act.map_eq_ok.mp hx₁
          obtain ⟨t', ht', rfl⟩ := Act.map_eq_ok.mp hy₁
          obtain ⟨htext, rfl⟩ := orRefuse_eq_ok ht
          obtain ⟨htext', rfl⟩ := orRefuse_eq_ok ht'
          obtain ⟨rfl, rfl, hz⟩ := sized_meet hA.textSize hA.stops hdata hdata'
          refine ⟨rfl, fun heq => ?_⟩
          cases heq
          rw [Act.bind_of_ok hz, hA.text data t htext htext']
          rfl
      · rw [read_other hb] at hx
        cases hx

/-- A string that two readings take for the same value. -/
theorem Spells.meet (hA : A.Meets L M) {v : Value} {w : Bytes} (h : Spells L v w)
    (h' : Spells M v w) : Spells A v w := by
  have hx := h.read (Nat.le_refl w.length) []
  have hy := h'.read (Nat.le_refl w.length) []
  have hz := (read_meet hA w.length _ _ _ _ _ hx hy).2 rfl
  obtain ⟨w', hw', hspells⟩ := read_sound hz
  rw [List.append_nil, List.append_nil] at hw'
  rw [hw']
  exact hspells

end Meet

/-! Readings in which a value is spelled in one way. -/

structure Lexicon.Rigid (L : Lexicon) : Prop where
  int : ∀ tok tok' z, L.int tok = some z → L.int tok' = some z → tok = tok'
  size : ∀ tok tok' n, L.size tok = some n → L.size tok' = some n → tok = tok'
  textSize : ∀ tok tok' n, L.textSize tok = some n → L.textSize tok' = some n → tok = tok'
  text : ∀ data data' t, L.text data = some t → L.text data' = some t → data = data'
  collect : ∀ es es' fs, L.collect es = some fs → L.collect es' = some fs → es = es'

theorem Spells.rigid {L : Lexicon} (hL : L.Rigid) {v : Value} {w w' : Bytes} (h : Spells L v w)
    (h' : Spells L v w') : w = w' := by
  induction h generalizing w' with
  | null =>
    cases h'
    rfl
  | true =>
    cases h'
    rfl
  | false =>
    cases h'
    rfl
  | int _ hint =>
    cases h' with
    | int _ hint' => rw [hL.int _ _ _ hint hint']
  | bytes _ _ _ hsize =>
    cases h' with
    | bytes _ _ _ hsize' => rw [hL.size _ _ _ hsize hsize']
  | text _ _ hsize htext =>
    cases h' with
    | text _ _ hsize' htext' =>
      obtain rfl := hL.text _ _ _ htext htext'
      rw [hL.textSize _ _ _ hsize hsize']
  | @list ps hspells ih =>
    clear hspells
    generalize hvs : ps.map Prod.fst = vs at h'
    cases h' with
    | @list ps' hps' =>
      congr 3
      clear * - ih hvs hps'
      induction ps generalizing ps' with
      | nil =>
        rw [List.map_nil, eq_comm, List.map_eq_nil_iff] at hvs
        rw [hvs]
      | cons p ps ihps =>
        cases ps' with
        | nil => cases hvs
        | cons p' ps' =>
          obtain ⟨hp, hps⟩ := List.cons.inj hvs
          have hw := ih p List.mem_cons_self (hp ▸ hps' p' List.mem_cons_self)
          rw [List.map_cons, List.map_cons, hw,
            ihps (fun q hq => ih q (List.mem_cons_of_mem p hq))
              (fun q hq => hps' q (List.mem_cons_of_mem p' hq)) hps]
  | @map es fs _ _ _ hes ihk ihv =>
    cases h' with
    | @map es' _ _ hk' hv' hes' =>
      congr 3
      have hfs := hL.collect _ _ _ hes hes'
      clear * - ihk ihv hfs hk' hv'
      induction es generalizing es' with
      | nil =>
        rw [List.map_nil, eq_comm, List.map_eq_nil_iff] at hfs
        rw [hfs]
      | cons p es ihes =>
        cases es' with
        | nil => cases hfs
        | cons p' es' =>
          obtain ⟨hp, hes⟩ := List.cons.inj hfs
          obtain ⟨hkey, hval⟩ := Prod.mk.inj hp
          have hwk := ihk p List.mem_cons_self (hkey ▸ hk' p' List.mem_cons_self)
          have hwv := ihv p List.mem_cons_self (hval ▸ hv' p' List.mem_cons_self)
          rw [List.map_cons, List.map_cons, hwk, hwv,
            ihes (fun q hq => ihk q (List.mem_cons_of_mem p hq))
              (fun q hq => ihv q (List.mem_cons_of_mem p hq))
              (fun q hq => hk' q (List.mem_cons_of_mem p' hq))
              (fun q hq => hv' q (List.mem_cons_of_mem p' hq)) hes]

/-! Programs that read what a reader reads, and programs that also stop where it stops. -/

section Programs

variable {ε α β : Type}

def Reads (x : Act ε Bytes α) (y : Reader α) : Prop := ∀ s a r, x s = .ok a r ↔ y s = .ok a r

/-- `f` is the verdict that an error stands for. -/
inductive Mirror (f : ε → Verdict) : EStateM.Result ε Bytes α → EStateM.Result Verdict Bytes α → Prop where
  | ok (a : α) (r : Bytes) : Mirror f (.ok a r) (.ok a r)
  | error (e : ε) (s s' : Bytes) : Mirror f (.error e s) (.error (f e) s')

def Mirrors (f : ε → Verdict) (x : Act ε Bytes α) (y : Reader α) : Prop := ∀ s, Mirror f (x s) (y s)

variable {verdict : ε → Verdict} {x : Act ε Bytes α} {y : Reader α}

theorem Reads.bind {f : α → Act ε Bytes β} {g : α → Reader β} (h : Reads x y) (hf : ∀ a, Reads (f a) (g a)) :
    Reads (x >>= f) (y >>= g) := by
  intro s b r
  rw [Act.bind_eq_ok, Act.bind_eq_ok]
  exact exists_congr fun a => exists_congr fun s₁ => and_congr (h s a s₁) (hf a s₁ b r)

theorem Reads.map (h : Reads x y) (f : α → β) : Reads (f <$> x) (f <$> y) := by
  intro s b r
  rw [Act.map_eq_ok, Act.map_eq_ok]
  exact exists_congr fun a => and_congr_left' (h s a r)

theorem Mirrors.bind {f : α → Act ε Bytes β} {g : α → Reader β} (h : Mirrors verdict x y)
    (hf : ∀ a, Mirrors verdict (f a) (g a)) : Mirrors verdict (x >>= f) (y >>= g) := by
  intro s
  have hs := h s
  rw [Act.bind_apply, Act.bind_apply]
  generalize x s = xs at hs
  generalize y s = ys at hs
  cases hs with
  | ok a r => exact hf a r
  | error e s s' => exact .error e s s'

theorem Mirrors.map (h : Mirrors verdict x y) (f : α → β) : Mirrors verdict (f <$> x) (f <$> y) := by
  rw [map_eq_pure_bind, map_eq_pure_bind]
  exact h.bind fun a s => .ok (f a) s

end Programs

end Bencode

end ChiaGaming
