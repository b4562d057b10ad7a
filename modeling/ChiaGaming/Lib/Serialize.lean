import ChiaGaming.Lib.Clvm
import Mathlib.Data.List.Sort

namespace ChiaGaming

/-! Byte strings in lexicographic order. -/

def bytesLe : Bytes → Bytes → Bool
  | [], _ => true
  | _ :: _, [] => false
  | x :: xs, y :: ys => decide (x < y) || (decide (x = y) && bytesLe xs ys)

theorem bytesLe_cons {x y : UInt8} {xs ys : Bytes} :
    bytesLe (x :: xs) (y :: ys) = true ↔ x.toNat < y.toNat ∨ x = y ∧ bytesLe xs ys = true := by
  simp [bytesLe, UInt8.lt_iff_toNat_lt]

theorem bytesLe_total (a b : Bytes) : bytesLe a b = true ∨ bytesLe b a = true := by
  induction a generalizing b with
  | nil => exact .inl rfl
  | cons x xs ih =>
    cases b with
    | nil => exact .inr rfl
    | cons y ys =>
      rw [bytesLe_cons, bytesLe_cons]
      rcases lt_trichotomy x.toNat y.toNat with h | h | h
      · exact .inl (.inl h)
      · obtain rfl := UInt8.toNat_inj.mp h
        exact (ih ys).imp (fun h => .inr ⟨rfl, h⟩) fun h => .inr ⟨rfl, h⟩
      · exact .inr (.inl h)

theorem bytesLe_trans {a b c : Bytes} (hab : bytesLe a b = true) (hbc : bytesLe b c = true) :
    bytesLe a c = true := by
  induction a generalizing b c with
  | nil => rfl
  | cons x xs ih =>
    cases b with
    | nil => cases hab
    | cons y ys =>
      cases c with
      | nil => cases hbc
      | cons z zs =>
        rw [bytesLe_cons] at hab hbc ⊢
        rcases hab with hxy | ⟨rfl, hab⟩
        · rcases hbc with hyz | ⟨rfl, -⟩
          · exact .inl (hxy.trans hyz)
          · exact .inl hxy
        · rcases hbc with hyz | ⟨rfl, hbc⟩
          · exact .inl hyz
          · exact .inr ⟨rfl, ih hab hbc⟩

theorem bytesLe_antisymm {a b : Bytes} (hab : bytesLe a b = true) (hba : bytesLe b a = true) :
    a = b := by
  induction a generalizing b with
  | nil =>
    cases b with
    | nil => rfl
    | cons y ys => cases hba
  | cons x xs ih =>
    cases b with
    | nil => cases hab
    | cons y ys =>
      rw [bytesLe_cons] at hab hba
      rcases hab with hxy | ⟨rfl, hab⟩
      · rcases hba with hyx | ⟨rfl, -⟩
        · exact absurd hxy (lt_asymm hyx)
        · exact absurd hxy (lt_irrefl _)
      · rcases hba with hyx | ⟨-, hba⟩
        · exact absurd hyx (lt_irrefl _)
        · rw [ih hab hba]

def sortBytes (l : List Bytes) : List Bytes := l.insertionSort fun a b => bytesLe a b = true

/-- Two lists sort to the same list if they have the same elements. -/
theorem sortBytes_eq_iff {l l' : List Bytes} : sortBytes l = sortBytes l' ↔ l.Perm l' := by
  have hperm : ∀ l, (sortBytes l).Perm l := List.perm_insertionSort _
  constructor
  · intro h
    exact (hperm l).symm.trans (h ▸ hperm l')
  · intro h
    have : Std.Total fun a b : Bytes => bytesLe a b = true := ⟨bytesLe_total⟩
    have : IsTrans Bytes fun a b => bytesLe a b = true := ⟨fun _ _ _ => bytesLe_trans⟩
    have : Std.Antisymm fun a b : Bytes => bytesLe a b = true := ⟨fun _ _ => bytesLe_antisymm⟩
    exact ((hperm l).trans (h.trans (hperm l').symm)).eq_of_pairwise'
      (List.pairwise_insertionSort _ l) (List.pairwise_insertionSort _ l')

/-! The serialisation of a CLVM value.  An atom has its length in front, unless it is a single byte
that cannot be taken for one; a pair is marked. -/

/-- The length of an atom, the larger the longer. -/
def sizePrefix (n : ℕ) : Option Bytes :=
  if n < 0x40 then some [.ofNat (0x80 + n)]
  else if n < 0x2000 then some [.ofNat (0xc0 + n / 256), .ofNat (n % 256)]
  else if n < 0x100000 then
    some [.ofNat (0xe0 + n / 65536), .ofNat (n / 256 % 256), .ofNat (n % 256)]
  else if n < 0x8000000 then
    some [.ofNat (0xf0 + n / 16777216), .ofNat (n / 65536 % 256), .ofNat (n / 256 % 256),
      .ofNat (n % 256)]
  else if n < 0x400000000 then
    some [.ofNat (0xf8 + n / 4294967296), .ofNat (n / 16777216 % 256), .ofNat (n / 65536 % 256),
      .ofNat (n / 256 % 256), .ofNat (n % 256)]
  else none

/-- The length is read off the first byte and those that it asks for. -/
def readSize : Bytes → Option (ℕ × Bytes)
  | [] => none
  | x :: xs =>
    if x.toNat < 0xc0 then some (x.toNat - 0x80, xs)
    else if x.toNat < 0xe0 then
      match xs with
      | a :: xs => some ((x.toNat - 0xc0) * 256 + a.toNat, xs)
      | _ => none
    else if x.toNat < 0xf0 then
      match xs with
      | a :: b :: xs => some ((x.toNat - 0xe0) * 65536 + a.toNat * 256 + b.toNat, xs)
      | _ => none
    else if x.toNat < 0xf8 then
      match xs with
      | a :: b :: c :: xs =>
        some ((x.toNat - 0xf0) * 16777216 + a.toNat * 65536 + b.toNat * 256 + c.toNat, xs)
      | _ => none
    else
      match xs with
      | a :: b :: c :: d :: xs =>
        some ((x.toNat - 0xf8) * 4294967296 + a.toNat * 16777216 + b.toNat * 65536 +
          c.toNat * 256 + d.toNat, xs)
      | _ => none

theorem toNat_ofNat_of_lt {n : ℕ} (h : n < 256) : (UInt8.ofNat n).toNat = n := by
  rw [UInt8.toNat_ofNat']
  exact Nat.mod_eq_of_lt h

theorem readSize_sizePrefix {n : ℕ} {p : Bytes} (h : sizePrefix n = some p) (rest : Bytes) :
    readSize (p ++ rest) = some (n, rest) := by
  have hmod : ∀ m : ℕ, (UInt8.ofNat (m % 256)).toNat = m % 256 :=
    fun m => toNat_ofNat_of_lt (Nat.mod_lt _ (by decide))
  rw [sizePrefix] at h
  split_ifs at h with h₁ h₂ h₃ h₄ h₅
  all_goals
    obtain rfl := Option.some.inj h
    simp only [List.cons_append, List.nil_append, readSize, hmod]
  · rw [toNat_ofNat_of_lt (by omega), if_pos (by omega)]
    simp
  · rw [toNat_ofNat_of_lt (by omega), if_neg (by omega), if_pos (by omega)]
    simp only [Option.some.injEq, Prod.mk.injEq, and_true]
    omega
  · rw [toNat_ofNat_of_lt (by omega), if_neg (by omega), if_neg (by omega), if_pos (by omega)]
    simp only [Option.some.injEq, Prod.mk.injEq, and_true]
    omega
  · rw [toNat_ofNat_of_lt (by omega), if_neg (by omega), if_neg (by omega), if_neg (by omega),
      if_pos (by omega)]
    simp only [Option.some.injEq, Prod.mk.injEq, and_true]
    omega
  · rw [toNat_ofNat_of_lt (by omega), if_neg (by omega), if_neg (by omega), if_neg (by omega),
      if_neg (by omega)]
    simp only [Option.some.injEq, Prod.mk.injEq, and_true]
    omega

/-- The first byte of a length is neither an atom of its own nor the mark of a pair. -/
theorem sizePrefix_head {n : ℕ} {p : Bytes} (h : sizePrefix n = some p) :
    ∃ x xs, p = x :: xs ∧ 0x80 ≤ x.toNat ∧ x.toNat < 0xff := by
  rw [sizePrefix] at h
  split_ifs at h with h₁ h₂ h₃ h₄ h₅
  all_goals
    obtain rfl := Option.some.inj h
    refine ⟨_, _, rfl, ?_⟩
    rw [toNat_ofNat_of_lt (by omega)]
    omega

/-- What stands for an atom: a byte below 128, or a length with as many bytes behind it. -/
def Written (b out : Bytes) : Prop :=
  (∃ x : UInt8, x.toNat < 0x80 ∧ b = [x] ∧ out = [x]) ∨
    ∃ p, sizePrefix b.length = some p ∧ out = p ++ b

def serializeAtom (b : Bytes) : Option Bytes :=
  match b with
  | [x] => if x.toNat < 0x80 then some [x] else (sizePrefix 1).map (· ++ [x])
  | b => (sizePrefix b.length).map (· ++ b)

def serialize : Clvm → Option Bytes
  | .atom b => serializeAtom b
  | .pair f r => do
    let first ← serialize f
    let rest ← serialize r
    some (0xff :: first ++ rest)

/-- No more than two million bytes are written. -/
def nodeToBytes (v : Clvm) : Option Bytes := (serialize v).filter fun b => b.length ≤ 2000000

theorem written_of_serializeAtom {b out : Bytes} (h : serializeAtom b = some out) : Written b out := by
  unfold serializeAtom at h
  split at h
  · rename_i x
    split_ifs at h with hx
    · cases h
      exact .inl ⟨x, hx, rfl, rfl⟩
    · obtain ⟨p, hp, rfl⟩ := Option.map_eq_some_iff.mp h
      exact .inr ⟨p, hp, rfl⟩
  · obtain ⟨p, hp, rfl⟩ := Option.map_eq_some_iff.mp h
    exact .inr ⟨p, hp, rfl⟩

/-- No atom is written as the beginning of another. -/
theorem Written.unique {b b' out out' : Bytes} (h : Written b out) (h' : Written b' out')
    {rest rest' : Bytes} (heq : out ++ rest = out' ++ rest') : b = b' ∧ rest = rest' := by
  have hclash : ∀ {x : UInt8} {n : ℕ} {p tail tail' : Bytes}, x.toNat < 0x80 →
      sizePrefix n = some p → [x] ++ tail ≠ p ++ tail' := by
    intro x n p tail tail' hx hp heq
    obtain ⟨y, ys, rfl, hy, -⟩ := sizePrefix_head hp
    obtain rfl := (List.cons.inj heq).1
    omega
  rcases h with ⟨x, hx, rfl, rfl⟩ | ⟨p, hp, rfl⟩
  · rcases h' with ⟨y, hy, rfl, rfl⟩ | ⟨q, hq, rfl⟩
    · obtain ⟨rfl, rfl⟩ := List.cons.inj heq
      exact ⟨rfl, rfl⟩
    · rw [List.append_assoc] at heq
      exact absurd heq (hclash hx hq)
  · rcases h' with ⟨y, hy, rfl, rfl⟩ | ⟨q, hq, rfl⟩
    · rw [List.append_assoc] at heq
      exact absurd heq.symm (hclash hy hp)
    · rw [List.append_assoc, List.append_assoc] at heq
      have hread := readSize_sizePrefix hp (b ++ rest)
      rw [heq, readSize_sizePrefix hq] at hread
      obtain ⟨hlength, hbytes⟩ := Prod.mk.inj (Option.some.inj hread)
      exact List.append_inj hbytes.symm hlength.symm

theorem Written.head {b out : Bytes} (h : Written b out) : ∃ x xs, out = x :: xs ∧ x.toNat < 0xff := by
  rcases h with ⟨x, hx, -, rfl⟩ | ⟨p, hp, rfl⟩
  · exact ⟨x, [], rfl, by omega⟩
  · obtain ⟨x, xs, rfl, -, hx⟩ := sizePrefix_head hp
    exact ⟨x, xs ++ b, rfl, hx⟩

/-- The serialisation can be read back, whatever stands behind it. -/
theorem serialize_unique {v v' : Clvm} {out out' : Bytes} (h : serialize v = some out)
    (h' : serialize v' = some out') {rest rest' : Bytes} (heq : out ++ rest = out' ++ rest') :
    v = v' ∧ rest = rest' := by
  have hclash : ∀ {b first tail : Bytes} {out : Bytes}, Written b out → out ++ tail ≠ 0xff :: first := by
    intro b first tail out hout heq
    obtain ⟨x, xs, rfl, hx⟩ := hout.head
    obtain rfl := (List.cons.inj heq).1
    exact absurd hx (by decide)
  induction v generalizing v' out out' rest rest' with
  | atom b =>
    have hout := written_of_serializeAtom h
    cases v' with
    | atom b' =>
      obtain ⟨rfl, hrest⟩ := hout.unique (written_of_serializeAtom h') heq
      exact ⟨rfl, hrest⟩
    | pair f' r' =>
      obtain ⟨first', -, h₁⟩ := Option.bind_eq_some_iff.mp h'
      obtain ⟨second', -, h₂⟩ := Option.bind_eq_some_iff.mp h₁
      obtain rfl := Option.some.inj h₂
      exact absurd heq (hclash hout)
  | pair f r ihf ihr =>
    obtain ⟨first, hf, h₁⟩ := Option.bind_eq_some_iff.mp h
    obtain ⟨second, hr, h₂⟩ := Option.bind_eq_some_iff.mp h₁
    obtain rfl := Option.some.inj h₂
    cases v' with
    | atom b' => exact absurd heq.symm (hclash (written_of_serializeAtom h'))
    | pair f' r' =>
      obtain ⟨first', hf', h₁'⟩ := Option.bind_eq_some_iff.mp h'
      obtain ⟨second', hr', h₂'⟩ := Option.bind_eq_some_iff.mp h₁'
      obtain rfl := Option.some.inj h₂'
      simp only [List.cons_append, List.append_assoc, List.cons.injEq, true_and] at heq
      obtain ⟨rfl, htail⟩ := ihf hf hf' heq
      obtain ⟨rfl, hrest⟩ := ihr hr hr' htail
      exact ⟨rfl, hrest⟩

theorem nodeToBytes_injective {v v' : Clvm} {out : Bytes} (h : nodeToBytes v = some out)
    (h' : nodeToBytes v' = some out) : v = v' :=
  (serialize_unique (Option.filter_eq_some_iff.mp h).1 (Option.filter_eq_some_iff.mp h').1
    (rfl : out ++ [] = out ++ [])).1

def nodesToBytes : List Clvm → Option (List Bytes)
  | [] => some []
  | v :: vs => do
    let out ← nodeToBytes v
    let outs ← nodesToBytes vs
    some (out :: outs)

theorem nodesToBytes_forall₂ {vs : List Clvm} {outs : List Bytes} (h : nodesToBytes vs = some outs) :
    List.Forall₂ (fun out v => nodeToBytes v = some out) outs vs := by
  induction vs generalizing outs with
  | nil =>
    obtain rfl := Option.some.inj h
    exact .nil
  | cons v vs ih =>
    obtain ⟨out, hv, h₁⟩ := Option.bind_eq_some_iff.mp h
    obtain ⟨outs, hvs, h₂⟩ := Option.bind_eq_some_iff.mp h₁
    obtain rfl := Option.some.inj h₂
    exact .cons hv (ih hvs)

/-- Lists of values are the same up to order if their serialisations are. -/
theorem perm_of_nodesToBytes {vs vs' : List Clvm} {outs outs' : List Bytes}
    (h : nodesToBytes vs = some outs) (h' : nodesToBytes vs' = some outs') (hperm : outs.Perm outs') :
    vs.Perm vs' := by
  have hunique : Relator.RightUnique fun (out : Bytes) (v : Clvm) => nodeToBytes v = some out :=
    fun _ _ _ hv hv' => nodeToBytes_injective hv hv'
  exact List.rel_perm_imp hunique (nodesToBytes_forall₂ h) (nodesToBytes_forall₂ h') hperm

end ChiaGaming
