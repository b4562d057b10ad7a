import ChiaGaming.Lib.Utf8

namespace ChiaGaming

/-! Decoding of UTF-8 that replaces what is malformed.  A text is given by its own UTF-8 bytes. -/

namespace TextDecoder

def replacement : Bytes := [0xef, 0xbf, 0xbd]

def byteOrderMark : Bytes := [0xef, 0xbb, 0xbf]

/-- A sequence of which some bytes are read: how many are to come, and the bounds of the next. -/
structure Pending where
  seen : Bytes
  needed : ℕ
  lower : UInt8
  upper : UInt8

/-- A byte in the place where a character begins. -/
def lead (b : UInt8) : Bytes × Option Pending :=
  if b < 0x80 then ([b], none)
  else if 0xc2 ≤ b ∧ b ≤ 0xdf then ([], some ⟨[b], 1, 0x80, 0xbf⟩)
  else if 0xe0 ≤ b ∧ b ≤ 0xef then
    ([], some ⟨[b], 2, if b = 0xe0 then 0xa0 else 0x80, if b = 0xed then 0x9f else 0xbf⟩)
  else if 0xf0 ≤ b ∧ b ≤ 0xf4 then
    ([], some ⟨[b], 3, if b = 0xf0 then 0x90 else 0x80, if b = 0xf4 then 0x8f else 0xbf⟩)
  else (replacement, none)

/-- A byte that does not continue a sequence ends it and is read again as the beginning of a character. -/
def next : Option Pending → UInt8 → Bytes × Option Pending
  | none, b => lead b
  | some p, b =>
    if p.lower ≤ b ∧ b ≤ p.upper then
      if p.needed = 1 then (p.seen ++ [b], none) else ([], some ⟨p.seen ++ [b], p.needed - 1, 0x80, 0xbf⟩)
    else (replacement ++ (lead b).1, (lead b).2)

def run : Option Pending → Bytes → Bytes
  | none, [] => []
  | some _, [] => replacement
  | p, b :: bs => (next p b).1 ++ run (next p b).2 bs

/-- `new TextDecoder().decode(data)`; a mark of the byte order is not part of the text. -/
def decode (data : Bytes) : Bytes :=
  if byteOrderMark.isPrefixOf data then run none (data.drop 3) else run none data

theorem run_cons (p : Option Pending) (b : UInt8) (bs : Bytes) :
    run p (b :: bs) = (next p b).1 ++ run (next p b).2 bs := by
  cases p <;> rfl

section Sequences

variable {b0 b1 b2 b3 : UInt8} {rest : Bytes}

theorem next_last {p : Pending} {b : UInt8} (h : p.lower ≤ b ∧ b ≤ p.upper) (hn : p.needed = 1) :
    next (some p) b = (p.seen ++ [b], none) := by
  rw [next, if_pos h, if_pos hn]

theorem next_more {p : Pending} {b : UInt8} (h : p.lower ≤ b ∧ b ≤ p.upper) (hn : p.needed ≠ 1) :
    next (some p) b = ([], some ⟨p.seen ++ [b], p.needed - 1, 0x80, 0xbf⟩) := by
  rw [next, if_pos h, if_neg hn]

theorem run_one (h0 : b0 < 0x80) : run none (b0 :: rest) = b0 :: run none rest := by
  rw [run_cons, next, lead, if_pos h0]
  rfl

theorem run_two (h0 : 0xc2 ≤ b0 ∧ b0 ≤ 0xdf) (h1 : 0x80 ≤ b1 ∧ b1 ≤ 0xbf) :
    run none (b0 :: b1 :: rest) = b0 :: b1 :: run none rest := by
  have hlead : lead b0 = ([], some ⟨[b0], 1, 0x80, 0xbf⟩) := by
    rw [lead, if_neg (by grind), if_pos h0]
  rw [run_cons, next, hlead, run_cons, next_last h1 rfl]
  rfl

theorem run_three (h0 : 0xe0 ≤ b0 ∧ b0 ≤ 0xef) (h1 : 0x80 ≤ b1 ∧ b1 ≤ 0xbf) (h2 : 0x80 ≤ b2 ∧ b2 ≤ 0xbf)
    (hlow : b0 ≠ 0xe0 ∨ 0xa0 ≤ b1) (hhigh : b0 ≠ 0xed ∨ b1 ≤ 0x9f) :
    run none (b0 :: b1 :: b2 :: rest) = b0 :: b1 :: b2 :: run none rest := by
  have hlead : lead b0 =
      ([], some ⟨[b0], 2, if b0 = 0xe0 then 0xa0 else 0x80, if b0 = 0xed then 0x9f else 0xbf⟩) := by
    rw [lead, if_neg (by grind), if_neg (by grind), if_pos h0]
  have hbounds : (if b0 = 0xe0 then 0xa0 else 0x80) ≤ b1 ∧ b1 ≤ (if b0 = 0xed then 0x9f else 0xbf) := by
    constructor
    · split_ifs with h
      · exact hlow.resolve_left (not_not.mpr h)
      · exact h1.1
    · split_ifs with h
      · exact hhigh.resolve_left (not_not.mpr h)
      · exact h1.2
  rw [run_cons, next, hlead, run_cons, next_more hbounds (by simp), run_cons, next_last h2 rfl]
  rfl

theorem run_four (h0 : 0xf0 ≤ b0 ∧ b0 ≤ 0xf4) (h1 : 0x80 ≤ b1 ∧ b1 ≤ 0xbf) (h2 : 0x80 ≤ b2 ∧ b2 ≤ 0xbf)
    (h3 : 0x80 ≤ b3 ∧ b3 ≤ 0xbf) (hlow : b0 ≠ 0xf0 ∨ 0x90 ≤ b1) (hhigh : b0 ≠ 0xf4 ∨ b1 ≤ 0x8f) :
    run none (b0 :: b1 :: b2 :: b3 :: rest) = b0 :: b1 :: b2 :: b3 :: run none rest := by
  have hlead : lead b0 =
      ([], some ⟨[b0], 3, if b0 = 0xf0 then 0x90 else 0x80, if b0 = 0xf4 then 0x8f else 0xbf⟩) := by
    rw [lead, if_neg (by grind), if_neg (by grind), if_neg (by grind), if_pos h0]
  have hbounds : (if b0 = 0xf0 then 0x90 else 0x80) ≤ b1 ∧ b1 ≤ (if b0 = 0xf4 then 0x8f else 0xbf) := by
    constructor
    · split_ifs with h
      · exact hlow.resolve_left (not_not.mpr h)
      · exact h1.1
    · split_ifs with h
      · exact hhigh.resolve_left (not_not.mpr h)
      · exact h1.2
  rw [run_cons, next, hlead, run_cons, next_more hbounds (by simp), run_cons, next_more h2 (by simp), run_cons,
    next_last h3 rfl]
  rfl

end Sequences

/-- What is well formed is not changed. -/
theorem run_of_valid (data : Bytes) (h : validUtf8 data = true) : run none data = data := by
  fun_induction validUtf8 data with
  | case1 => rfl
  | case2 b0 rest hb ih => rw [run_one hb, ih h]
  | case3 cont b0 b1 b2 b3 t h0 hb ih =>
    simp only [cont, Bool.and_eq_true, decide_eq_true_eq] at h
    rw [run_two h0 h.1, ih h.2]
  | case4 cont b0 b1 b2 b3 t hb' h0 hb ih =>
    simp only [cont, Bool.and_eq_true, Bool.or_eq_true, decide_eq_true_eq] at h
    obtain ⟨⟨⟨⟨h1, h2⟩, hlow⟩, hhigh⟩, hrest⟩ := h
    rw [run_three h0 h1 h2 hlow hhigh, ih hrest]
  | case5 cont b0 b1 b2 b3 t hb'' hb' hb ih =>
    simp only [cont, Bool.and_eq_true, Bool.or_eq_true, decide_eq_true_eq] at h
    obtain ⟨⟨⟨⟨⟨⟨h0, h1⟩, h2⟩, h3⟩, hlow⟩, hhigh⟩, hrest⟩ := h
    rw [run_four h0 h1 h2 h3 hlow hhigh, ih hrest]
  | case6 cont b0 b1 b2 h0 hb ih =>
    simp only [cont, Bool.and_eq_true, decide_eq_true_eq] at h
    rw [run_two h0 h.1, ih h.2]
  | case7 cont b0 b1 b2 hb' hb =>
    simp only [cont, Bool.and_eq_true, Bool.or_eq_true, decide_eq_true_eq] at h
    obtain ⟨⟨⟨⟨h0, h1⟩, h2⟩, hlow⟩, hhigh⟩ := h
    rw [run_three h0 h1 h2 hlow hhigh]
    rfl
  | case8 cont b0 b1 hb =>
    simp only [cont, Bool.and_eq_true, decide_eq_true_eq] at h
    rw [run_two h.1 h.2]
    rfl
  | case9 b0 hb => cases h

theorem decode_of_valid {data : Bytes} (h : validUtf8 data = true) (hmark : ¬ byteOrderMark.isPrefixOf data) :
    decode data = data := by
  rw [decode, if_neg hmark, run_of_valid data h]

/-- Only a text without the mark decodes to itself. -/
theorem decode_eq_self_iff {data : Bytes} (h : validUtf8 data = true) :
    decode data = data ↔ ¬ byteOrderMark.isPrefixOf data := by
  refine ⟨fun heq hmark => ?_, decode_of_valid h⟩
  obtain ⟨rest, rfl⟩ := List.isPrefixOf_iff_prefix.mp hmark
  have hrest : validUtf8 rest = true := by
    cases rest with
    | nil => rfl
    | cons b3 t =>
      change (true && validUtf8 (b3 :: t)) = true at h
      exact h
  have hdrop : (byteOrderMark ++ rest).drop 3 = rest := rfl
  rw [decode, if_pos hmark, hdrop, run_of_valid rest hrest] at heq
  have hlen := congrArg List.length heq
  rw [List.length_append] at hlen
  exact absurd hlen (by simp [byteOrderMark])

end TextDecoder

end ChiaGaming
