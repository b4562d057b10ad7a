import ChiaGaming.Lib.Clvm

namespace ChiaGaming

/-! The shortest atom of a number. -/

theorem natOfBytes_inj {a b : Bytes} (hlength : a.length = b.length)
    (h : natOfBytes a = natOfBytes b) : a = b := by
  induction a generalizing b with
  | nil => exact (List.length_eq_zero_iff.mp hlength.symm).symm
  | cons x a ih =>
    cases b with
    | nil => cases hlength
    | cons y b =>
      have hlength' : a.length = b.length := Nat.succ_injective hlength
      rw [natOfBytes_cons, natOfBytes_cons, hlength'] at h
      have ha := natOfBytes_lt a
      have hb := natOfBytes_lt b
      rw [hlength'] at ha
      have hx : x.toNat = y.toNat := by
        rcases lt_trichotomy x.toNat y.toNat with hlt | heq | hlt
        · nlinarith
        · exact heq
        · nlinarith
      rw [hx, Nat.add_left_cancel_iff] at h
      rw [UInt8.toNat_inj.mp hx, ih hlength' h]

/-- A zero in front is there for the sign of the next byte only. -/
def Minimal (b : Bytes) : Prop := ∀ rest, b = 0 :: rest → ∃ y t, rest = y :: t ∧ 128 ≤ y.toNat

/-- Every other atom of the number is longer. -/
structure ShortestAtom (n : ℕ) (b : Bytes) : Prop where
  value : intOfBytes b = n
  shortest : ∀ b', intOfBytes b' = n → b' = b ∨ b.length < b'.length

theorem ShortestAtom.unique {n : ℕ} {b b' : Bytes} (h : ShortestAtom n b) (h' : ShortestAtom n b') :
    b = b' := by
  rcases h.shortest b' h'.value with heq | hlt
  · exact heq.symm
  · rcases h'.shortest b h.value with heq | hlt'
    · exact heq
    · omega

theorem natOfBytes_of_int {n : ℕ} {b : Bytes} (h : intOfBytes b = n) : natOfBytes b = n := by
  have hnat := intOfBytes_of_nonneg (b := b) (by omega)
  omega

/-- The sign takes one bit of an atom. -/
theorem natOfBytes_lt_of_nonneg {b : Bytes} (h : 0 ≤ intOfBytes b) : 2 * natOfBytes b < 256 ^ b.length := by
  cases b with
  | nil => simp [natOfBytes_nil]
  | cons x xs =>
    have hlt := natOfBytes_lt xs
    have hbound : (natOfBytes (x :: xs) : ℤ) < 256 ^ (xs.length + 1) := by
      exact_mod_cast natOfBytes_lt (x :: xs)
    have hx : x.toNat < 128 := by
      by_contra hneg
      rw [intOfBytes, if_neg hneg] at h
      omega
    rw [natOfBytes_cons, List.length_cons, pow_succ]
    nlinarith

/-- A minimal atom has no room for its number in one byte less. -/
theorem le_natOfBytes_of_minimal {x : UInt8} {xs : Bytes} (h : Minimal (x :: xs)) :
    256 ^ xs.length ≤ 2 * natOfBytes (x :: xs) := by
  rw [natOfBytes_cons]
  by_cases hx : x = 0
  · subst hx
    obtain ⟨y, t, rfl, hy⟩ := h xs rfl
    rw [natOfBytes_cons, List.length_cons, pow_succ]
    simp only [UInt8.toNat_zero, zero_mul, zero_add]
    nlinarith [Nat.zero_le (natOfBytes t), Nat.mul_le_mul_right (256 ^ t.length) hy]
  · have hpos : 1 ≤ x.toNat := by
      rcases Nat.eq_zero_or_pos x.toNat with hzero | hpos
      · exact absurd (UInt8.toNat_inj.mp hzero) hx
      · exact hpos
    have hmul := Nat.mul_le_mul_right (256 ^ xs.length) hpos
    omega

/-- An atom of a number is the shortest if no byte of it can be left out. -/
theorem shortestAtom_iff {n : ℕ} {b : Bytes} : ShortestAtom n b ↔ intOfBytes b = n ∧ Minimal b := by
  constructor
  · rintro ⟨hvalue, hshortest⟩
    refine ⟨hvalue, ?_⟩
    rintro rest rfl
    have hzero : natOfBytes (0 :: rest) = natOfBytes rest := by simp [natOfBytes_cons 0]
    have hnat := natOfBytes_of_int hvalue
    have hlonger : ¬ intOfBytes rest = n := by
      intro hrest
      rcases hshortest rest hrest with heq | hlt
      · exact absurd (congrArg List.length heq) (by simp)
      · simp at hlt
    cases rest with
    | nil => exact absurd (by rw [← hnat, hzero]; rfl) hlonger
    | cons y t =>
      refine ⟨y, t, rfl, ?_⟩
      by_contra hlt
      rw [intOfBytes, if_pos (by omega), ← hzero, hnat] at hlonger
      exact hlonger rfl
  · rintro ⟨hvalue, hminimal⟩
    refine ⟨hvalue, fun b' hvalue' => ?_⟩
    have hnat := natOfBytes_of_int hvalue
    have hnat' := natOfBytes_of_int hvalue'
    rcases lt_trichotomy b.length b'.length with hlt | heq | hgt
    · exact .inr hlt
    · exact .inl (natOfBytes_inj heq.symm (hnat'.trans hnat.symm))
    · cases b with
      | nil => exact absurd hgt (Nat.not_lt_zero _)
      | cons x xs =>
        have hlow := le_natOfBytes_of_minimal hminimal
        have hhigh := natOfBytes_lt_of_nonneg (b := b') (by omega)
        have hpow : 256 ^ b'.length ≤ 256 ^ xs.length :=
          Nat.pow_le_pow_right (by decide) (Nat.le_of_lt_succ hgt)
        omega

/-- Digits without a zero in front, and the sign. -/
theorem minimal_padSign {b : Bytes} (h : ∀ rest, b ≠ 0 :: rest) : Minimal (padSign b) := by
  intro rest hrest
  cases b with
  | nil => cases hrest
  | cons x xs =>
    rw [padSign] at hrest
    split at hrest
    · exact absurd hrest (h rest)
    · obtain rfl := (List.cons.inj hrest).2
      exact ⟨x, xs, rfl, by omega⟩

theorem digitsOfNat_head (fuel n : ℕ) (acc : Bytes) (hn : n ≠ 0) (h : n < 256 ^ fuel) :
    ∃ x xs, digitsOfNat fuel n acc = x :: xs ∧ x ≠ 0 := by
  induction fuel generalizing n acc with
  | zero => exact absurd (by simpa using h) hn
  | succ fuel ih =>
    rw [digitsOfNat, if_neg hn]
    by_cases hlast : n / 256 = 0
    · have hdigit : UInt8.ofNat (n % 256) ≠ 0 := by
        intro hzero
        have := congrArg UInt8.toNat hzero
        rw [UInt8.toNat_ofNat', UInt8.toNat_zero] at this
        omega
      refine ⟨UInt8.ofNat (n % 256), acc, ?_, hdigit⟩
      rw [hlast]
      cases fuel <;> rfl
    · apply ih _ _ hlast
      rw [Nat.div_lt_iff_lt_mul (by norm_num)]
      simpa [pow_succ] using h

theorem bytesOfNat_shortest (n : ℕ) : ShortestAtom n (bytesOfNat n) := by
  rw [shortestAtom_iff]
  refine ⟨intOfBytes_bytesOfNat n, ?_⟩
  rw [bytesOfNat]
  apply minimal_padSign
  intro rest hrest
  by_cases hn : n = 0
  · subst hn
    cases hrest
  · obtain ⟨x, xs, hdigits, hx⟩ := digitsOfNat_head (n.log2 + 1) n [] hn (lt_pow_log2 n)
    rw [hdigits] at hrest
    exact hx (List.cons.inj hrest).1

end ChiaGaming
