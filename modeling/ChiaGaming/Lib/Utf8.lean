import ChiaGaming.Lib.Clvm

namespace ChiaGaming

/-- Well-formed UTF-8: no overlong forms, no surrogates, nothing above U+10FFFF. -/
def validUtf8 : Bytes → Bool
  | [] => true
  | b0 :: rest =>
    let cont (b : UInt8) : Bool := 0x80 ≤ b ∧ b ≤ 0xbf
    if b0 < 0x80 then validUtf8 rest
    else match b0, rest with
      | b0, b1 :: b2 :: b3 :: t =>
        if 0xc2 ≤ b0 ∧ b0 ≤ 0xdf then cont b1 && validUtf8 (b2 :: b3 :: t)
        else if 0xe0 ≤ b0 ∧ b0 ≤ 0xef then
          cont b1 && cont b2 && (b0 ≠ 0xe0 || 0xa0 ≤ b1) && (b0 ≠ 0xed || b1 ≤ 0x9f) &&
            validUtf8 (b3 :: t)
        else 0xf0 ≤ b0 && b0 ≤ 0xf4 && cont b1 && cont b2 && cont b3 &&
          (b0 ≠ 0xf0 || 0x90 ≤ b1) && (b0 ≠ 0xf4 || b1 ≤ 0x8f) && validUtf8 t
      | b0, [b1, b2] =>
        if 0xc2 ≤ b0 ∧ b0 ≤ 0xdf then cont b1 && validUtf8 [b2]
        else 0xe0 ≤ b0 && b0 ≤ 0xef && cont b1 && cont b2 && (b0 ≠ 0xe0 || 0xa0 ≤ b1) &&
          (b0 ≠ 0xed || b1 ≤ 0x9f)
      | b0, [b1] => 0xc2 ≤ b0 && b0 ≤ 0xdf && cont b1
      | _, [] => false
theorem validUtf8_of_ascii (data : Bytes) (h : ∀ b ∈ data, b < 0x80) : validUtf8 data = true := by
  induction data with
  | nil => rfl
  | cons b rest ih =>
    rw [validUtf8.eq_def]
    exact (if_pos (h b List.mem_cons_self)).trans (ih fun c hc => h c (List.mem_cons_of_mem b hc))

end ChiaGaming
