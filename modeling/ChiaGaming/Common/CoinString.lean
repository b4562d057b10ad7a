import ChiaGaming.Lib.Canonical
import ChiaGaming.Lib.Sha256
import ChiaGaming.Referee.Types

namespace ChiaGaming.Common

/-! Numbers as atoms. -/

/-- Big endian, on `width` bytes. -/
def beBytes : ℕ → ℕ → Bytes
  | 0, _ => []
  | width + 1, n => UInt8.ofNat (n / 256 ^ width % 256) :: beBytes width n

def toBeBytes (v : UInt64) : Bytes := beBytes 8 v.toNat

def canonicalAtomFromUsize (v : UInt64) : Bytes :=
  if v = 0 then []
  else
    let be := toBeBytes v
    let start := (be.findIdx? (· ≠ 0)).getD 7
    if be.getD start 0 &&& 0x80 ≠ 0 then 0 :: be.drop start else be.drop start

/-- The atom is read without a sign. -/
def u64FromAtom (a : Bytes) : Option UInt64 :=
  if natOfBytes a < 2 ^ 64 then some (UInt64.ofNat (natOfBytes a)) else none

/-! Hashes and coins. -/

structure Hash where
  bytes : Bytes
  length : bytes.length = 32

/-- Nothing counts as the zero hash. -/
def Hash.fromSlice (b : Bytes) : Except Error Hash :=
  if b = [] then .ok ⟨List.replicate 32 0, rfl⟩
  else if h : b.length = 32 then .ok ⟨b, h⟩
  else .error (.strErr "hash must be 32 bytes" [.nat b.length])

abbrev CoinID := Hash
abbrev PuzzleHash := Hash
abbrev Amount := UInt64

structure CoinString where
  bytes : Bytes

namespace CoinString

/-- `toClvm` encodes an amount. -/
def fromParts (toClvm : Amount → Bytes) (parent : CoinID) (puzzleHash : PuzzleHash) (amount : Amount) :
    CoinString := ⟨parent.bytes ++ puzzleHash.bytes ++ toClvm amount⟩

def toParts (c : CoinString) : Option (CoinID × PuzzleHash × Amount) := do
  if c.bytes.length < 64 then none
  else
    let parentId ← (Hash.fromSlice (c.bytes.take 32)).toOption
    let puzzleHash ← (Hash.fromSlice ((c.bytes.take 64).drop 32)).toOption
    let amount ← u64FromAtom (c.bytes.drop 64)
    some (parentId, puzzleHash, amount)

def amount (c : CoinString) : Option Amount :=
  match c.toParts with
  | some (_, _, amt) => some amt
  | none => none

def toCoinId (sha256 : Bytes → Hash) (c : CoinString) : CoinID := sha256 c.bytes

end CoinString

/-! The encoders. -/

theorem beBytes_length (width n : ℕ) : (beBytes width n).length = width := by
  induction width with
  | zero => rfl
  | succ width ih => rw [beBytes, List.length_cons, ih]

theorem natOfBytes_beBytes (width n : ℕ) : natOfBytes (beBytes width n) = n % 256 ^ width := by
  induction width with
  | zero => rw [beBytes, natOfBytes_nil, pow_zero, Nat.mod_one]
  | succ width ih =>
    have hdigit : (UInt8.ofNat (n / 256 ^ width % 256)).toNat = n / 256 ^ width % 256 := by
      rw [UInt8.toNat_ofNat']
      omega
    rw [beBytes, natOfBytes_cons, beBytes_length, ih, hdigit, pow_succ, Nat.mod_mul]
    ring

theorem natOfBytes_toBeBytes (v : UInt64) : natOfBytes (toBeBytes v) = v.toNat := by
  rw [toBeBytes, natOfBytes_beBytes]
  exact Nat.mod_eq_of_lt v.toNat_lt

/-- The top bit of a byte. -/
theorem and_0x80_ne_zero_iff (x : UInt8) : x &&& 0x80 ≠ 0 ↔ 128 ≤ x.toNat := by
  have hlt := x.toNat_lt
  have hand : (x &&& 0x80).toNat = (x.toNat.testBit 7).toNat * 128 := by
    rw [UInt8.toNat_and]
    exact Nat.and_two_pow x.toNat 7
  rw [← UInt8.toNat_inj.ne, hand, UInt8.toNat_zero, Nat.testBit_eq_decide_div_mod_eq]
  by_cases hbit : x.toNat / 2 ^ 7 % 2 = 1
  · simp only [hbit, decide_true, Bool.toNat_true]
    omega
  · simp only [hbit, decide_false, Bool.toNat_false]
    omega

/-- The first byte that counts, and what follows it. -/
theorem findIdx?_significant {b : Bytes} (h : natOfBytes b ≠ 0) :
    ∃ start x rest, b.findIdx? (· ≠ 0) = some start ∧ b.getD start 0 = x ∧ b.drop start = x :: rest ∧ x ≠ 0 ∧
      natOfBytes (x :: rest) = natOfBytes b := by
  induction b with
  | nil => exact absurd natOfBytes_nil h
  | cons y b ih =>
    by_cases hy : y = 0
    · subst hy
      have hskip : natOfBytes (0 :: b) = natOfBytes b := by simp [natOfBytes_cons 0]
      rw [hskip] at h ⊢
      obtain ⟨start, x, rest, hfind, hget, hdrop, hx, hvalue⟩ := ih h
      refine ⟨start + 1, x, rest, ?_, hget, hdrop, hx, hvalue⟩
      rw [List.findIdx?_cons, hfind]
      rfl
    · refine ⟨0, y, b, ?_, rfl, rfl, hy, rfl⟩
      rw [List.findIdx?_cons, if_pos (by simpa using hy)]

theorem canonicalAtomFromUsize_shortest (v : UInt64) : ShortestAtom v.toNat (canonicalAtomFromUsize v) := by
  rw [shortestAtom_iff, canonicalAtomFromUsize]
  by_cases hv : v = 0
  · subst hv
    rw [if_pos rfl]
    exact ⟨rfl, fun rest hrest => by cases hrest⟩
  · have hpos : natOfBytes (toBeBytes v) ≠ 0 := by
      rw [natOfBytes_toBeBytes]
      exact fun hzero => hv (UInt64.toNat_inj.mp hzero)
    obtain ⟨start, x, rest, hfind, hget, hdrop, hx, hvalue⟩ := findIdx?_significant hpos
    rw [natOfBytes_toBeBytes] at hvalue
    simp only [hfind, Option.getD_some, hget, hdrop, and_0x80_ne_zero_iff, if_neg hv]
    split
    · rename_i hsign
      refine ⟨?_, fun rest' hrest => ?_⟩
      · rw [intOfBytes, if_pos (by decide), natOfBytes_cons 0, hvalue]
        simp
      · obtain rfl := (List.cons.inj hrest).2
        exact ⟨x, rest, rfl, hsign⟩
    · rename_i hsign
      refine ⟨?_, fun rest' hrest => absurd (List.cons.inj hrest).1 hx⟩
      rw [intOfBytes, if_pos (by omega), hvalue]

/-- What the model elsewhere calls by this name. -/
theorem canonicalAtomFromUsize_eq (v : UInt64) :
    canonicalAtomFromUsize v = ChiaGaming.canonicalAtomFromUsize v.toNat :=
  (canonicalAtomFromUsize_shortest v).unique (bytesOfNat_shortest v.toNat)

theorem u64FromAtom_of_int {v : UInt64} {a : Bytes} (h : intOfBytes a = v.toNat) : u64FromAtom a = some v := by
  have hnat := natOfBytes_of_int h
  rw [u64FromAtom, hnat, if_pos v.toNat_lt, UInt64.ofNat_toNat]

/-- An encoder of CLVM numbers: the atom has the number's value, and no byte more than the sign needs. -/
structure EncodesNumbers (toClvm : Amount → Bytes) : Prop where
  value : ∀ amount, intOfBytes (toClvm amount) = amount.toNat
  minimal : ∀ amount, Minimal (toClvm amount)

theorem EncodesNumbers.shortest {toClvm : Amount → Bytes} (h : EncodesNumbers toClvm) (amount : Amount) :
    ShortestAtom amount.toNat (toClvm amount) :=
  shortestAtom_iff.mpr ⟨h.value amount, h.minimal amount⟩

theorem encodesNumbers_canonical : EncodesNumbers canonicalAtomFromUsize :=
  ⟨fun v => (canonicalAtomFromUsize_shortest v).value,
    fun v => (shortestAtom_iff.mp (canonicalAtomFromUsize_shortest v)).2⟩

/-! The coins. -/

theorem Hash.ext_bytes {a b : Hash} (h : a.bytes = b.bytes) : a = b := by
  cases a
  cases b
  cases h
  rfl

theorem Hash.fromSlice_bytes (h : Hash) : Hash.fromSlice h.bytes = .ok h := by
  have hne : h.bytes ≠ [] := by
    intro hnil
    have := h.length
    rw [hnil] at this
    cases this
  rw [Hash.fromSlice, if_neg hne, dif_pos h.length]

section Coins

variable {toClvm : Amount → Bytes} {sha256 : Bytes → Hash} {parent : CoinID} {puzzleHash : PuzzleHash}
  {amount : Amount}

theorem toParts_fromParts (h : EncodesNumbers toClvm) :
    (CoinString.fromParts toClvm parent puzzleHash amount).toParts = some (parent, puzzleHash, amount) := by
  have hparent := parent.length
  have hpuzzle := puzzleHash.length
  have hboth : (parent.bytes ++ puzzleHash.bytes).length = 64 := by
    rw [List.length_append, hparent, hpuzzle]
  have hlong : ¬ (parent.bytes ++ puzzleHash.bytes ++ toClvm amount).length < 64 := by
    rw [List.length_append, hboth]
    omega
  have htake : (parent.bytes ++ puzzleHash.bytes ++ toClvm amount).take 32 = parent.bytes := by
    rw [List.append_assoc]
    exact List.take_left' hparent
  have hmiddle : ((parent.bytes ++ puzzleHash.bytes ++ toClvm amount).take 64).drop 32 = puzzleHash.bytes := by
    rw [List.take_left' hboth]
    exact List.drop_left' hparent
  have hdrop : (parent.bytes ++ puzzleHash.bytes ++ toClvm amount).drop 64 = toClvm amount := List.drop_left' hboth
  rw [CoinString.toParts, CoinString.fromParts, if_neg hlong, htake, hmiddle, hdrop, Hash.fromSlice_bytes,
    Hash.fromSlice_bytes, u64FromAtom_of_int (h.value amount)]
  rfl

/-- The name of a coin is that of the coin's parts elsewhere in the model. -/
theorem toCoinId_eq (h : EncodesNumbers toClvm) :
    ((CoinString.fromParts toClvm parent puzzleHash amount).toCoinId sha256).bytes =
      ChiaGaming.CoinString.toCoinId (fun b => (sha256 b).bytes)
        ⟨parent.bytes, puzzleHash.bytes, amount.toNat⟩ := by
  rw [CoinString.toCoinId, CoinString.fromParts, (h.shortest amount).unique (bytesOfNat_shortest amount.toNat)]
  rfl

end Coins

/-- Numbers and coins are told by their encodings, and the encodings by the numbers and coins. -/
theorem encodings_canonical {toClvm : Amount → Bytes} (h : EncodesNumbers toClvm) (sha256 : Bytes → Hash) :
    (∀ v : UInt64, ShortestAtom v.toNat (canonicalAtomFromUsize v) ∧ ShortestAtom v.toNat (toClvm v) ∧
      u64FromAtom (canonicalAtomFromUsize v) = some v ∧ u64FromAtom (toClvm v) = some v) ∧
    (∀ parent puzzleHash amount,
      (CoinString.fromParts toClvm parent puzzleHash amount).toParts = some (parent, puzzleHash, amount)) ∧
    (∀ parent puzzleHash amount parent' puzzleHash' amount',
      (parent, puzzleHash, amount) ≠ (parent', puzzleHash', amount') →
        CoinString.fromParts toClvm parent puzzleHash amount ≠
          CoinString.fromParts toClvm parent' puzzleHash' amount') ∧
    ∀ parent puzzleHash amount, (CoinString.fromParts toClvm parent puzzleHash amount).toCoinId sha256 =
      sha256 (parent.bytes ++ puzzleHash.bytes ++ canonicalAtomFromUsize amount) := by
  refine ⟨fun v => ?_, fun parent puzzleHash amount => toParts_fromParts h, ?_, fun parent puzzleHash amount => ?_⟩
  · have hcanonical := canonicalAtomFromUsize_shortest v
    exact ⟨hcanonical, h.shortest v, u64FromAtom_of_int hcanonical.value, u64FromAtom_of_int (h.value v)⟩
  · intro parent puzzleHash amount parent' puzzleHash' amount' hne heq
    have hparts := congrArg CoinString.toParts heq
    rw [toParts_fromParts h, toParts_fromParts h] at hparts
    exact hne (Option.some.inj hparts)
  · rw [(canonicalAtomFromUsize_shortest amount).unique (h.shortest amount)]
    rfl

theorem encodings_canonical_at_sign :
    u64FromAtom (canonicalAtomFromUsize 0x80) = some 0x80 ∧
    u64FromAtom (canonicalAtomFromUsize 0xffffffffffffffff) = some 0xffffffffffffffff := by
  have h := (encodings_canonical encodesNumbers_canonical fun b =>
    ⟨Sha256.sha256 b, Sha256.sha256_length b⟩).1
  exact ⟨(h 0x80).2.2.1, (h 0xffffffffffffffff).2.2.1⟩

example : canonicalAtomFromUsize 0x80 = [0x00, 0x80] := by decide

example : canonicalAtomFromUsize 0xffffffffffffffff = 0x00 :: List.replicate 8 0xff := by decide

end ChiaGaming.Common
