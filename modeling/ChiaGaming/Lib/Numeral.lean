import ChiaGaming.Lib.Clvm

namespace ChiaGaming

/-! Decimal numerals, as bytes. -/

def isDigit (b : UInt8) : Bool := 48 ≤ b.toNat ∧ b.toNat ≤ 57

def digitValue (b : UInt8) : ℕ := b.toNat - 48

def numeralValue (ds : Bytes) : ℕ := ds.foldl (fun n d => 10 * n + digitValue d) 0

/-- One digit or more. -/
def readNat (tok : Bytes) : Option ℕ :=
  if tok ≠ [] ∧ tok.all isDigit then some (numeralValue tok) else none

/-- `[1-9][0-9]*` -/
def isPositive : Bytes → Bool
  | [] => false
  | d :: ds => isDigit d && d.toNat ≠ 48 && ds.all isDigit

/-- `0|[1-9][0-9]*` -/
def isCanonicalNat (tok : Bytes) : Bool := tok = [48] || isPositive tok

/-- `0|-?[1-9][0-9]*` -/
def isCanonicalInt : Bytes → Bool
  | [] => false
  | d :: ds => if d.toNat = 45 then isPositive ds else isCanonicalNat (d :: ds)

/-- The minus sign and the digits behind it. -/
def intValue : Bytes → ℤ
  | [] => 0
  | d :: ds => if d.toNat = 45 then -(numeralValue ds : ℤ) else numeralValue (d :: ds)

/-- The numeral that is written for a number. -/
def decimalOf : ℕ → ℕ → Bytes → Bytes
  | 0, _, acc => acc
  | fuel + 1, n, acc =>
    if n < 10 then UInt8.ofNat (48 + n) :: acc
    else decimalOf fuel (n / 10) (UInt8.ofNat (48 + n % 10) :: acc)

def decimal (n : ℕ) : Bytes := decimalOf (n.log2 + 1) n []

def decimalInt : ℤ → Bytes
  | .ofNat n => decimal n
  | .negSucc m => 45 :: decimal (m + 1)

theorem isDigit_iff {b : UInt8} : isDigit b = true ↔ 48 ≤ b.toNat ∧ b.toNat ≤ 57 := by
  simp [isDigit]

theorem numeralValue_concat (ds : Bytes) (d : UInt8) :
    numeralValue (ds ++ [d]) = 10 * numeralValue ds + digitValue d := by
  simp [numeralValue]

theorem digitValue_lt {d : UInt8} (h : isDigit d = true) : digitValue d < 10 := by
  have hd := isDigit_iff.mp h
  rw [digitValue]
  omega

theorem ofNat_digitValue {d : UInt8} (h : isDigit d = true) : UInt8.ofNat (48 + digitValue d) = d := by
  have hd := isDigit_iff.mp h
  apply UInt8.toNat_inj.mp
  rw [UInt8.toNat_ofNat', digitValue]
  omega

theorem toNat_digit {n : ℕ} (h : n < 10) : (UInt8.ofNat (48 + n)).toNat = 48 + n := by
  rw [UInt8.toNat_ofNat']
  omega

theorem isDigit_digit {n : ℕ} (h : n < 10) : isDigit (UInt8.ofNat (48 + n)) = true := by
  rw [isDigit_iff, toNat_digit h]
  omega

theorem digitValue_digit {n : ℕ} (h : n < 10) : digitValue (UInt8.ofNat (48 + n)) = n := by
  rw [digitValue, toNat_digit h]
  omega

theorem isPositive_concat {ds : Bytes} (hds : ds ≠ []) (d : UInt8) :
    isPositive (ds ++ [d]) = (isPositive ds && isDigit d) := by
  cases ds with
  | nil => exact absurd rfl hds
  | cons x xs => simp [isPositive, Bool.and_assoc]

theorem numeralValue_pos {tok : Bytes} (h : isPositive tok = true) : 0 < numeralValue tok := by
  induction tok using List.reverseRecOn with
  | nil => cases h
  | append_singleton ds d ih =>
    rw [numeralValue_concat]
    by_cases hds : ds = []
    · subst hds
      simp only [List.nil_append, isPositive, List.all_nil, Bool.and_true, Bool.and_eq_true,
        decide_eq_true_eq, isDigit_iff] at h
      rw [digitValue]
      omega
    · rw [isPositive_concat hds, Bool.and_eq_true] at h
      have := ih h.1
      omega

/-- A numeral without leading zeros is the one that is written for its value. -/
theorem decimalOf_numeralValue {fuel : ℕ} {tok : Bytes} (h : isPositive tok = true)
    (hfuel : numeralValue tok < 10 ^ fuel) (acc : Bytes) :
    decimalOf fuel (numeralValue tok) acc = tok ++ acc := by
  induction fuel generalizing tok acc with
  | zero =>
    have := numeralValue_pos h
    rw [pow_zero] at hfuel
    omega
  | succ fuel ih =>
    rcases List.eq_nil_or_concat' tok with rfl | ⟨ds, d, rfl⟩
    · cases h
    rw [decimalOf]
    by_cases hds : ds = []
    · subst hds
      simp only [List.nil_append, isPositive, List.all_nil, Bool.and_true, Bool.and_eq_true] at h
      have hvalue : numeralValue [d] = digitValue d := by simp [numeralValue]
      rw [List.nil_append, hvalue, if_pos (digitValue_lt h.1), ofNat_digitValue h.1]
      rfl
    · rw [isPositive_concat hds, Bool.and_eq_true] at h
      have hpos := numeralValue_pos h.1
      have hlt := digitValue_lt h.2
      rw [numeralValue_concat] at hfuel ⊢
      have hdiv : (10 * numeralValue ds + digitValue d) / 10 = numeralValue ds := by omega
      have hmod : (10 * numeralValue ds + digitValue d) % 10 = digitValue d := by omega
      rw [if_neg (by omega), hdiv, hmod, ofNat_digitValue h.2, ih h.1 (by rw [pow_succ] at hfuel; omega)]
      rw [List.append_assoc]
      rfl

theorem lt_pow_log2_ten (n : ℕ) : n < 10 ^ (n.log2 + 1) :=
  Nat.lt_log2_self.trans_le (Nat.pow_le_pow_left (by norm_num) _)

theorem decimal_numeralValue {tok : Bytes} (h : isCanonicalNat tok = true) :
    decimal (numeralValue tok) = tok := by
  rw [isCanonicalNat, Bool.or_eq_true, decide_eq_true_eq] at h
  rcases h with rfl | h
  · rfl
  · rw [decimal, decimalOf_numeralValue h (lt_pow_log2_ten _), List.append_nil]

theorem decimalInt_intValue {tok : Bytes} (h : isCanonicalInt tok = true) :
    decimalInt (intValue tok) = tok := by
  cases tok with
  | nil => cases h
  | cons d ds =>
    rw [isCanonicalInt] at h
    rw [intValue]
    split at h
    · rename_i hd
      have hpos := numeralValue_pos h
      obtain ⟨m, hm⟩ : ∃ m, numeralValue ds = m + 1 := ⟨numeralValue ds - 1, by omega⟩
      have hneg : -((numeralValue ds : ℕ) : ℤ) = .negSucc m := by
        rw [hm, Int.negSucc_eq]
        push_cast
        rfl
      have hcanonical : isCanonicalNat ds = true := by simp [isCanonicalNat, h]
      rw [if_pos hd, hneg, decimalInt, ← hm, decimal_numeralValue hcanonical]
      congr 1
      exact UInt8.toNat_inj.mp hd.symm
    · rename_i hd
      rw [if_neg hd]
      exact decimal_numeralValue h

/-! Canonical numerals. -/

section Canonical

variable {tok : Bytes}

theorem isPositive_iff : isPositive tok = true ↔
    ∃ d ds, tok = d :: ds ∧ isDigit d = true ∧ d.toNat ≠ 48 ∧ ds.all isDigit = true := by
  cases tok with
  | nil => simp [isPositive]
  | cons d ds => simp [isPositive, and_assoc]

/-- Digits, and no zero in front of others. -/
theorem isCanonicalNat_iff : isCanonicalNat tok = true ↔
    tok ≠ [] ∧ tok.all isDigit = true ∧ ¬ (1 < tok.length ∧ [48].isPrefixOf tok = true) := by
  rw [isCanonicalNat, Bool.or_eq_true, decide_eq_true_eq, isPositive_iff]
  constructor
  · rintro (rfl | ⟨d, ds, rfl, hd, hne, hds⟩)
    · exact ⟨by decide, by decide, by decide⟩
    · refine ⟨List.cons_ne_nil d ds, by rw [List.all_cons, hd, hds]; rfl, ?_⟩
      rintro ⟨-, hzero⟩
      obtain ⟨t, ht⟩ := List.isPrefixOf_iff_prefix.mp hzero
      obtain ⟨rfl, -⟩ := List.cons.inj ht
      exact hne rfl
  · rintro ⟨hne, hall, hzero⟩
    obtain ⟨d, ds, rfl⟩ := List.exists_cons_of_ne_nil hne
    rw [List.all_cons, Bool.and_eq_true] at hall
    by_cases hd : d.toNat = 48
    · have hd48 : d = 48 := UInt8.toNat_inj.mp hd
      subst hd48
      left
      have hnil : ds = [] := by
        by_contra hds
        have hpos := List.length_pos_iff.mpr hds
        exact hzero ⟨by rw [List.length_cons]; omega, by simp⟩
      rw [hnil]
    · exact .inr ⟨d, ds, rfl, hall.1, hd, hall.2⟩

theorem isDigit_ascii {b : UInt8} (h : isDigit b = true) : b < 0x80 := by
  have hb := isDigit_iff.mp h
  rw [UInt8.lt_iff_toNat_lt]
  change b.toNat < 128
  omega

/-- A canonical integer is made of digits and a minus sign. -/
theorem mem_canonicalInt (h : isCanonicalInt tok = true) : ∀ b ∈ tok, isDigit b = true ∨ b = 45 := by
  cases tok with
  | nil => cases h
  | cons d ds =>
    rw [isCanonicalInt] at h
    intro b hb
    split at h
    · rename_i hd
      obtain ⟨x, xs, rfl, hx, -, hxs⟩ := isPositive_iff.mp h
      rcases List.mem_cons.mp hb with rfl | hb
      · exact .inr (UInt8.toNat_inj.mp hd)
      · rcases List.mem_cons.mp hb with rfl | hb
        · exact .inl hx
        · exact .inl (List.all_eq_true.mp hxs b hb)
    · exact .inl (List.all_eq_true.mp (isCanonicalNat_iff.mp h).2.1 b hb)

theorem ascii_canonicalInt (h : isCanonicalInt tok = true) : ∀ b ∈ tok, b < 0x80 := by
  intro b hb
  rcases mem_canonicalInt h b hb with hd | rfl
  · exact isDigit_ascii hd
  · decide

theorem ascii_canonicalNat (h : isCanonicalNat tok = true) : ∀ b ∈ tok, b < 0x80 :=
  fun b hb => isDigit_ascii (List.all_eq_true.mp (isCanonicalNat_iff.mp h).2.1 b hb)

/-- No zero stands in front of other digits, and none behind the sign. -/
theorem no_leading_zero (h : isCanonicalInt tok = true) :
    ¬ ([45, 48].isPrefixOf tok = true ∨ [48].isPrefixOf tok = true ∧ 1 < tok.length) := by
  cases tok with
  | nil => cases h
  | cons d ds =>
    rw [isCanonicalInt] at h
    split at h
    · rename_i hd
      obtain rfl : d = 45 := UInt8.toNat_inj.mp hd
      obtain ⟨x, xs, rfl, -, hx, -⟩ := isPositive_iff.mp h
      have hx' : ¬ (48 : UInt8) = x := fun heq => hx (heq ▸ rfl)
      simp [hx']
    · rename_i hd
      have hd' : ¬ (45 : UInt8) = d := fun heq => hd (heq ▸ rfl)
      rintro (hminus | ⟨hzero, hlen⟩)
      · simp [hd'] at hminus
      · exact (isCanonicalNat_iff.mp h).2.2 ⟨hlen, hzero⟩

theorem readNat_canonicalNat (h : isCanonicalNat tok = true) : readNat tok = some (numeralValue tok) := by
  obtain ⟨hne, hall, -⟩ := isCanonicalNat_iff.mp h
  rw [readNat, if_pos ⟨hne, hall⟩]

end Canonical

theorem isCanonicalNat_of_isPositive {tok : Bytes} (h : isPositive tok = true) : isCanonicalNat tok = true := by
  rw [isCanonicalNat, h, Bool.or_true]

theorem canonical_digit {n : ℕ} (h : n < 10) : isCanonicalNat [UInt8.ofNat (48 + n)] = true := by
  by_cases hn : n = 0
  · subst hn
    rfl
  · refine isCanonicalNat_of_isPositive ?_
    simp only [isPositive, isDigit_digit h, toNat_digit h, List.all_nil, Bool.and_true, Bool.true_and, ne_eq,
      decide_eq_true_eq]
    omega

theorem decimalOf_digit {n : ℕ} (hn : n < 10) (fuel : ℕ) (acc : Bytes) :
    ∃ ds, decimalOf (fuel + 1) n acc = ds ++ acc ∧ numeralValue ds = n ∧ isCanonicalNat ds = true := by
  refine ⟨[UInt8.ofNat (48 + n)], ?_, ?_, canonical_digit hn⟩
  · rw [decimalOf, if_pos hn]
    rfl
  · simp only [numeralValue, List.foldl_cons, List.foldl_nil, digitValue_digit hn]
    omega

/-- What is written for a number is a numeral of its value, without leading zeros. -/
theorem decimalOf_eq {fuel n : ℕ} (hfuel : n < 10 ^ (fuel + 1)) (acc : Bytes) :
    ∃ ds, decimalOf (fuel + 1) n acc = ds ++ acc ∧ numeralValue ds = n ∧ isCanonicalNat ds = true := by
  induction fuel generalizing n acc with
  | zero => exact decimalOf_digit (by simpa using hfuel) 0 acc
  | succ fuel ih =>
    by_cases hn : n < 10
    · exact decimalOf_digit hn (fuel + 1) acc
    have hlt : n / 10 < 10 ^ (fuel + 1) := by
      rw [pow_succ] at hfuel
      omega
    have hmod : n % 10 < 10 := Nat.mod_lt n (by norm_num)
    obtain ⟨ds, hds, hvalue, hcanonical⟩ := ih hlt (UInt8.ofNat (48 + n % 10) :: acc)
    have hpositive : isPositive ds = true := by
      rw [isCanonicalNat, Bool.or_eq_true, decide_eq_true_eq] at hcanonical
      rcases hcanonical with rfl | h
      · have hzero : numeralValue [48] = 0 := rfl
        omega
      · exact h
    have hne : ds ≠ [] := by
      rintro rfl
      cases hpositive
    refine ⟨ds ++ [UInt8.ofNat (48 + n % 10)], ?_, ?_, isCanonicalNat_of_isPositive ?_⟩
    · rw [decimalOf, if_neg hn, hds, List.append_assoc]
      rfl
    · rw [numeralValue_concat, hvalue, digitValue_digit hmod]
      omega
    · rw [isPositive_concat hne, hpositive, isDigit_digit hmod]
      rfl

theorem decimal_eq (n : ℕ) : numeralValue (decimal n) = n ∧ isCanonicalNat (decimal n) = true := by
  obtain ⟨ds, hds, hspec⟩ := decimalOf_eq (lt_pow_log2_ten n) []
  rw [decimal, hds, List.append_nil]
  exact hspec

theorem decimalInt_eq (z : ℤ) : intValue (decimalInt z) = z ∧ isCanonicalInt (decimalInt z) = true := by
  cases z with
  | ofNat n =>
    obtain ⟨hvalue, hcanonical⟩ := decimal_eq n
    have hdigits := (isCanonicalNat_iff.mp hcanonical).2.1
    rw [decimalInt]
    cases hdecimal : decimal n with
    | nil =>
      rw [hdecimal] at hcanonical
      cases hcanonical
    | cons d ds =>
      rw [hdecimal] at hvalue hcanonical hdigits
      rw [List.all_cons, Bool.and_eq_true, isDigit_iff] at hdigits
      have hminus : d.toNat ≠ 45 := by omega
      rw [intValue, isCanonicalInt, if_neg hminus, if_neg hminus, hvalue]
      exact ⟨rfl, hcanonical⟩
  | negSucc m =>
    obtain ⟨hvalue, hcanonical⟩ := decimal_eq (m + 1)
    have hpositive : isPositive (decimal (m + 1)) = true := by
      rw [isCanonicalNat, Bool.or_eq_true, decide_eq_true_eq] at hcanonical
      rcases hcanonical with h | h
      · rw [h] at hvalue
        have hzero : numeralValue [48] = 0 := rfl
        omega
      · exact h
    have hminus : (45 : UInt8).toNat = 45 := rfl
    rw [decimalInt, intValue, isCanonicalInt, if_pos hminus, if_pos hminus, hvalue]
    refine ⟨?_, hpositive⟩
    rw [Int.negSucc_eq]
    push_cast
    rfl

/-- No two numerals in canonical form have the same value. -/
theorem canonicalNat_unique {tok tok' : Bytes} (h : isCanonicalNat tok = true)
    (h' : isCanonicalNat tok' = true) (hvalue : numeralValue tok = numeralValue tok') : tok = tok' := by
  rw [← decimal_numeralValue h, hvalue, decimal_numeralValue h']

theorem canonicalInt_unique {tok tok' : Bytes} (h : isCanonicalInt tok = true)
    (h' : isCanonicalInt tok' = true) (hvalue : intValue tok = intValue tok') : tok = tok' := by
  rw [← decimalInt_intValue h, hvalue, decimalInt_intValue h']

end ChiaGaming
