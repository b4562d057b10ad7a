import Mathlib.Data.Int.Bitwise
import Mathlib.Data.List.Basic
import Mathlib.Tactic

namespace ChiaGaming

abbrev Bytes := List UInt8

/-- A CLVM value: a byte string or a pair. -/
inductive Clvm where
  | atom (b : Bytes)
  | pair (f r : Clvm)
  deriving DecidableEq, Repr, Inhabited

/-! Integers.  An atom read as a number is signed, big endian; the encoder
writes the shortest such string, so that zero is the empty atom. -/

def natOfBytes (b : Bytes) : ℕ := b.foldl (fun n x => 256 * n + x.toNat) 0

def intOfBytes : Bytes → ℤ
  | [] => 0
  | x :: xs =>
    if x.toNat < 128 then natOfBytes (x :: xs)
    else (natOfBytes (x :: xs) : ℤ) - 256 ^ (xs.length + 1)

def digitsOfNat : ℕ → ℕ → Bytes → Bytes
  | 0, _, acc => acc
  | fuel + 1, n, acc =>
    if n = 0 then acc else digitsOfNat fuel (n / 256) (UInt8.ofNat (n % 256) :: acc)

/-- A zero byte keeps the sign bit of a non-negative number clear. -/
def padSign : Bytes → Bytes
  | [] => []
  | x :: xs => if x.toNat < 128 then x :: xs else 0 :: x :: xs

def bytesOfNat (n : ℕ) : Bytes := padSign (digitsOfNat (n.log2 + 1) n [])

def bytesOfInt : ℤ → Bytes
  | .ofNat n => bytesOfNat n
  | .negSucc m => (if m = 0 then [0] else bytesOfNat m).map (fun x => 255 - x)

theorem natOfBytes_nil : natOfBytes [] = 0 := rfl

theorem foldl_natOfBytes (b : Bytes) (n : ℕ) :
    b.foldl (fun n x => 256 * n + x.toNat) n = n * 256 ^ b.length + natOfBytes b := by
  induction b generalizing n with
  | nil => simp [natOfBytes]
  | cons x xs ih =>
    rw [natOfBytes, List.foldl_cons, List.foldl_cons, ih, ih (256 * 0 + x.toNat)]
    simp only [List.length_cons, pow_succ]
    ring

theorem natOfBytes_append (a b : Bytes) :
    natOfBytes (a ++ b) = natOfBytes a * 256 ^ b.length + natOfBytes b := by
  rw [natOfBytes, List.foldl_append]
  exact foldl_natOfBytes b _

theorem natOfBytes_cons (x : UInt8) (xs : Bytes) :
    natOfBytes (x :: xs) = x.toNat * 256 ^ xs.length + natOfBytes xs := by
  have h := natOfBytes_append [x] xs
  simpa [natOfBytes] using h

theorem natOfBytes_singleton (x : UInt8) : natOfBytes [x] = x.toNat := by
  simp [natOfBytes]

theorem natOfBytes_lt (b : Bytes) : natOfBytes b < 256 ^ b.length := by
  induction b with
  | nil => simp [natOfBytes]
  | cons x xs ih =>
    rw [natOfBytes_cons, List.length_cons, pow_succ]
    have hx : x.toNat ≤ 255 := by have := x.toNat_lt; omega
    nlinarith [Nat.mul_le_mul_right (256 ^ xs.length) hx]

theorem digitsOfNat_spec (fuel n : ℕ) (acc : Bytes) (h : n < 256 ^ fuel) :
    natOfBytes (digitsOfNat fuel n acc) = n * 256 ^ acc.length + natOfBytes acc := by
  induction fuel generalizing n acc with
  | zero =>
    have : n = 0 := by simpa using h
    simp [digitsOfNat, this]
  | succ fuel ih =>
    rw [digitsOfNat]
    split
    · simp_all
    · have hd : n / 256 < 256 ^ fuel := by
        rw [Nat.div_lt_iff_lt_mul (by norm_num)]
        simpa [pow_succ] using h
      rw [ih _ _ hd, natOfBytes_cons, List.length_cons, pow_succ]
      have hb : (UInt8.ofNat (n % 256)).toNat = n % 256 := by
        rw [UInt8.toNat_ofNat']
        omega
      rw [hb]
      have hn := Nat.div_add_mod n 256
      calc n / 256 * (256 ^ acc.length * 256) +
            (n % 256 * 256 ^ acc.length + natOfBytes acc)
          = (256 * (n / 256) + n % 256) * 256 ^ acc.length + natOfBytes acc := by ring
        _ = n * 256 ^ acc.length + natOfBytes acc := by rw [hn]

theorem lt_pow_log2 (n : ℕ) : n < 256 ^ (n.log2 + 1) := by
  have h : n < 2 ^ (n.log2 + 1) := Nat.lt_log2_self
  exact h.trans_le (Nat.pow_le_pow_left (by norm_num) _)

theorem digitsOfNat_length (k fuel n : ℕ) (acc : Bytes) (hk : k ≤ fuel) (hn : n < 256 ^ k)
    (hlow : k = 0 ∨ 256 ^ (k - 1) ≤ n) : (digitsOfNat fuel n acc).length = acc.length + k := by
  induction k generalizing fuel n acc with
  | zero =>
    obtain rfl : n = 0 := by simpa using hn
    cases fuel <;> simp [digitsOfNat]
  | succ k ih =>
    have hlow : 256 ^ k ≤ n := by simpa using hlow
    have hpos : 0 < 256 ^ k := by positivity
    obtain ⟨fuel, rfl⟩ : ∃ f, fuel = f + 1 := ⟨fuel - 1, by omega⟩
    rw [digitsOfNat, if_neg (by omega), ih fuel (n / 256) _ (by omega)]
    · simp only [List.length_cons]
      omega
    · rw [Nat.div_lt_iff_lt_mul (by norm_num)]
      simpa [pow_succ] using hn
    · cases k with
      | zero => exact .inl rfl
      | succ k =>
        right
        rw [Nat.le_div_iff_mul_le (by norm_num)]
        simpa [pow_succ] using hlow

theorem natOfBytes_padSign (b : Bytes) : natOfBytes (padSign b) = natOfBytes b := by
  cases b with
  | nil => rfl
  | cons x xs =>
    rw [padSign]
    split
    · rfl
    · simp [natOfBytes_cons 0]

@[simp] theorem natOfBytes_bytesOfNat (n : ℕ) : natOfBytes (bytesOfNat n) = n := by
  rw [bytesOfNat, natOfBytes_padSign, digitsOfNat_spec _ _ _ (lt_pow_log2 n)]
  simp [natOfBytes]

theorem intOfBytes_padSign (b : Bytes) : intOfBytes (padSign b) = natOfBytes b := by
  cases b with
  | nil => rfl
  | cons x xs =>
    rw [padSign]
    split
    · rename_i h
      rw [intOfBytes, if_pos h]
    · rw [intOfBytes, if_pos (by decide), natOfBytes_cons 0]
      simp

@[simp] theorem intOfBytes_bytesOfNat (n : ℕ) : intOfBytes (bytesOfNat n) = n := by
  rw [bytesOfNat, intOfBytes_padSign, digitsOfNat_spec _ _ _ (lt_pow_log2 n)]
  simp [natOfBytes]

theorem intOfBytes_of_nonneg {b : Bytes} (h : 0 ≤ intOfBytes b) : intOfBytes b = natOfBytes b := by
  cases b with
  | nil => rfl
  | cons x xs =>
    rw [intOfBytes] at h ⊢
    split
    · rfl
    · rename_i hneg
      have hlt : (natOfBytes (x :: xs) : ℤ) < 256 ^ (xs.length + 1) := by
        exact_mod_cast natOfBytes_lt (x :: xs)
      rw [if_neg hneg] at h
      omega

theorem bytesOfNat_length_one {n : ℕ} (h0 : 0 < n) (h : n < 128) : (bytesOfNat n).length = 1 := by
  have hl := digitsOfNat_length 1 (n.log2 + 1) n [] (by omega) (by omega) (.inr (by omega))
  have hv := digitsOfNat_spec (n.log2 + 1) n [] (lt_pow_log2 n)
  rw [bytesOfNat]
  generalize digitsOfNat (n.log2 + 1) n [] = ds at hl hv
  obtain ⟨x, rfl⟩ := List.length_eq_one_iff.mp hl
  have hx : x.toNat = n := by simpa [natOfBytes_cons, natOfBytes_nil] using hv
  rw [padSign, if_pos (by omega)]
  rfl

theorem natOfBytes_complement (b : Bytes) :
    (natOfBytes (b.map fun x => 255 - x) : ℤ) = 256 ^ b.length - 1 - natOfBytes b := by
  induction b with
  | nil => simp [natOfBytes]
  | cons x xs ih =>
    rw [List.map_cons, natOfBytes_cons, natOfBytes_cons, List.length_map, List.length_cons]
    have hx : (255 - x).toNat = 255 - x.toNat := by
      have := x.toNat_lt
      rw [UInt8.toNat_sub_of_le]
      · rfl
      · rw [UInt8.le_iff_toNat_le]
        change x.toNat ≤ 255
        omega
    have hl : x.toNat ≤ 255 := by have := x.toNat_lt; omega
    push_cast [hx, Nat.cast_sub hl]
    rw [ih]
    ring

theorem padSign_head (b : Bytes) : padSign b = [] ∨ ∃ x xs, padSign b = x :: xs ∧ x.toNat < 128 := by
  cases b with
  | nil => exact .inl rfl
  | cons x xs =>
    right
    rw [padSign]
    split
    · exact ⟨x, xs, rfl, by assumption⟩
    · exact ⟨0, x :: xs, rfl, by decide⟩

theorem intOfBytes_complement {x : UInt8} {xs : Bytes} (h : x.toNat < 128) :
    intOfBytes ((x :: xs).map fun y => 255 - y) = - (natOfBytes (x :: xs) : ℤ) - 1 := by
  have hx : ¬ (255 - x).toNat < 128 := by
    rw [UInt8.toNat_sub_of_le]
    · change ¬ 255 - x.toNat < 128
      omega
    · rw [UInt8.le_iff_toNat_le]
      change x.toNat ≤ 255
      omega
  have hc := natOfBytes_complement (x :: xs)
  rw [List.map_cons] at hc ⊢
  rw [intOfBytes, if_neg hx, hc, List.length_map, List.length_cons]
  ring

@[simp] theorem intOfBytes_bytesOfInt (z : ℤ) : intOfBytes (bytesOfInt z) = z := by
  cases z with
  | ofNat n => exact intOfBytes_bytesOfNat n
  | negSucc m =>
    rw [bytesOfInt]
    split
    · rename_i h
      subst h
      decide
    · rename_i h
      obtain h0 | ⟨x, xs, hx, hlt⟩ := padSign_head (digitsOfNat (m.log2 + 1) m [])
      · have hn := natOfBytes_bytesOfNat m
        rw [bytesOfNat, h0] at hn
        exact absurd hn.symm h
      · have hn := natOfBytes_bytesOfNat m
        rw [bytesOfNat, hx] at hn ⊢
        rw [intOfBytes_complement hlt, hn, Int.negSucc_eq]
        ring

theorem bytesOfInt_injective : Function.Injective bytesOfInt := by
  intro a b h
  have := congrArg intOfBytes h
  simpa using this

theorem bytesOfNat_injective : Function.Injective bytesOfNat := by
  intro a b h
  have := congrArg natOfBytes h
  simpa using this

theorem bytesOfInt_natCast (n : ℕ) : bytesOfInt n = bytesOfNat n := rfl

/-- `(substr b i j)`. -/
def substr (b : Bytes) (i j : ℕ) : Option Bytes :=
  if i ≤ j ∧ j ≤ b.length then some ((b.take j).drop i) else none

theorem length_of_substr {b part : Bytes} {i j : ℕ} (h : substr b i j = some part) :
    part.length = j - i := by
  rw [substr] at h
  split_ifs at h with hbounds
  cases h
  rw [List.length_drop, List.length_take, Nat.min_eq_left hbounds.2]

theorem substr_append_left {a b : Bytes} {n : ℕ} (h : a.length = n) : substr (a ++ b) 0 n = some a := by
  subst h
  rw [substr, if_pos ⟨Nat.zero_le _, by rw [List.length_append]; exact Nat.le_add_right _ _⟩,
    List.take_left, List.drop_zero]

theorem substr_append_right {a b : Bytes} {n m : ℕ} (ha : a.length = n) (hb : n + b.length = m) :
    substr (a ++ b) n m = some b := by
  subst ha hb
  have hlength : a.length + b.length = (a ++ b).length := List.length_append.symm
  rw [substr, if_pos ⟨Nat.le_add_right _ _, hlength.le⟩, hlength, List.take_length, List.drop_left]

/-- `(logxor a b)` on signed numbers of any length. -/
def logxor (a b : Bytes) : Bytes := bytesOfInt (Int.xor (intOfBytes a) (intOfBytes b))

namespace Clvm

abbrev nil : Clvm := atom []

def int (z : ℤ) : Clvm := atom (bytesOfInt z)

def nat (n : ℕ) : Clvm := atom (bytesOfNat n)

def bool (b : Bool) : Clvm := if b then atom [1] else nil

/-- Only the empty atom is false. -/
def truthy : Clvm → Bool
  | atom b => !b.isEmpty
  | pair _ _ => true

/-! The operators abort on an argument of the wrong shape; `none` is the abort. -/

def first : Clvm → Option Clvm
  | atom _ => none
  | pair f _ => some f

def rest : Clvm → Option Clvm
  | atom _ => none
  | pair _ r => some r

def bytes : Clvm → Option Bytes
  | atom b => some b
  | pair _ _ => none

def isPair : Clvm → Bool
  | atom _ => false
  | pair _ _ => true

def list : List Clvm → Clvm
  | [] => nil
  | x :: xs => pair x (list xs)

/-- The elements of a proper list; a list that ends in anything but nil has none. -/
def properList : Clvm → Option (List Clvm)
  | atom b => if b.isEmpty then some [] else none
  | pair f r => (properList r).map (f :: ·)

def nth : ℕ → Clvm → Option Clvm
  | 0, v => v.first
  | n + 1, v => v.rest.bind (nth n)

/-- `(append L R)`. -/
def append : Clvm → Clvm → Option Clvm
  | atom b, r => if b.isEmpty then some r else none
  | pair f t, r => (append t r).map (pair f)

/-- `(len L)`. -/
def len : Clvm → Option ℕ
  | atom b => if b.isEmpty then some 0 else none
  | pair _ t => t.len.map (· + 1)

@[simp] theorem truthy_pair (f r : Clvm) : truthy (pair f r) = true := rfl
@[simp] theorem truthy_nil : truthy (atom []) = false := rfl
@[simp] theorem first_pair (f r : Clvm) : first (pair f r) = some f := rfl
@[simp] theorem rest_pair (f r : Clvm) : rest (pair f r) = some r := rfl
@[simp] theorem first_atom (b : Bytes) : first (atom b) = none := rfl
@[simp] theorem rest_atom (b : Bytes) : rest (atom b) = none := rfl
@[simp] theorem bytes_atom (b : Bytes) : bytes (atom b) = some b := rfl
@[simp] theorem bytes_pair (f r : Clvm) : bytes (pair f r) = none := rfl
@[simp] theorem list_nil : list [] = nil := rfl
@[simp] theorem list_cons (x : Clvm) (xs : List Clvm) : list (x :: xs) = pair x (list xs) := rfl

theorem truthy_atom (b : Bytes) : truthy (atom b) = !b.isEmpty := rfl

theorem truthy_eq_false_iff (v : Clvm) : v.truthy = false ↔ v = nil := by
  cases v with
  | atom b => cases b <;> simp [truthy]
  | pair f r => simp

@[simp] theorem properList_list (xs : List Clvm) : properList (list xs) = some xs := by
  induction xs with
  | nil => rfl
  | cons x xs ih => simp [properList, ih]

theorem properList_eq_some_iff (v : Clvm) (xs : List Clvm) :
    properList v = some xs ↔ v = list xs := by
  constructor
  · intro h
    induction v generalizing xs with
    | atom b =>
      cases b with
      | nil => simp_all [properList]
      | cons x t => simp [properList] at h
    | pair f r _ ih =>
      simp only [properList, Option.map_eq_some_iff] at h
      obtain ⟨ys, hy, rfl⟩ := h
      rw [list_cons, ← ih ys hy]
  · rintro rfl
    exact properList_list xs

@[simp] theorem len_list (xs : List Clvm) : len (list xs) = some xs.length := by
  induction xs with
  | nil => rfl
  | cons x xs ih => simp [len, ih]

@[simp] theorem append_list (xs : List Clvm) (r : Clvm) :
    append (list xs) r = some (xs.foldr pair r) := by
  induction xs with
  | nil => rfl
  | cons x xs ih => simp [append, ih]

theorem nth_list (xs : List Clvm) (n : ℕ) : nth n (list xs) = xs[n]? := by
  induction xs generalizing n with
  | nil => cases n <;> rfl
  | cons x xs ih =>
    cases n with
    | zero => rfl
    | succ n => simpa [nth] using ih n

theorem first_list_drop (xs : List Clvm) (k : ℕ) : first (list (xs.drop k)) = xs[k]? := by
  induction xs generalizing k with
  | nil => simp
  | cons x xs ih =>
    cases k with
    | zero => rfl
    | succ k => simpa using ih k

theorem bytes_eq_some_iff (v : Clvm) (b : Bytes) : v.bytes = some b ↔ v = atom b := by
  cases v <;> simp

/-- The numbers of a list of atoms. -/
def natList : Clvm → Option (List ℕ)
  | atom b => if b.isEmpty then some [] else none
  | pair (atom b) r => (natList r).map (natOfBytes b :: ·)
  | pair (pair _ _) _ => none

@[simp] theorem natList_list (xs : List ℕ) : natList (list (xs.map nat)) = some xs := by
  induction xs with
  | nil => rfl
  | cons x xs ih => simp [nat, natList, ih]

theorem list_injective : Function.Injective list := by
  intro a b h
  have := congrArg properList h
  simpa using this

end Clvm

end ChiaGaming
