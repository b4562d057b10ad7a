import Mathlib.Tactic

namespace ChiaGaming

/-! Sequences whose entries are numbered from one. -/

namespace Journal

variable {M : Type} {log log' : List M} {n : ℕ} {m m' : M}

/-- Entry `n` of the journal. -/
def At (log : List M) (n : ℕ) (m : M) : Prop := 0 < n ∧ log[n - 1]? = some m

theorem At.le_length (h : At log n m) : n ≤ log.length := by
  obtain ⟨hpos, hget⟩ := h
  obtain ⟨hlt, -⟩ := List.getElem?_eq_some_iff.mp hget
  omega

theorem At.unique (h : At log n m) (h' : At log n m') : m = m' := Option.some.inj (h.2.symm.trans h'.2)

theorem At.mono (h : At log n m) (hlog : log <+: log') : At log' n m := by
  obtain ⟨rest, rfl⟩ := hlog
  refine ⟨h.1, ?_⟩
  rw [List.getElem?_append_left, h.2]
  have := h.le_length
  have := h.1
  omega

/-- An entry that a longer journal has is in the shorter one if its number is. -/
theorem At.within (h : At log' n m) (hlog : log <+: log') (hn : n ≤ log.length) : At log n m := by
  obtain ⟨rest, rfl⟩ := hlog
  refine ⟨h.1, ?_⟩
  have hpos := h.1
  rw [← h.2, List.getElem?_append_left (by omega)]

theorem exists_at (hpos : 0 < n) (hn : n ≤ log.length) : ∃ m, At log n m :=
  ⟨log[n - 1], hpos, List.getElem?_eq_getElem (by omega)⟩

theorem not_at_nil : ¬ At ([] : List M) n m := by
  rintro ⟨-, hget⟩
  cases hget

theorem at_snoc : At (log ++ [m]) (log.length + 1) m :=
  ⟨Nat.succ_pos _, by rw [Nat.add_sub_cancel, List.getElem?_concat_length]⟩

theorem at_snoc_iff : At (log ++ [m']) n m ↔ At log n m ∨ n = log.length + 1 ∧ m = m' := by
  constructor
  · intro h
    rcases Nat.lt_or_ge log.length n with hlt | hle
    · have hn := h.le_length
      rw [List.length_append, List.length_singleton] at hn
      obtain rfl : n = log.length + 1 := by omega
      exact .inr ⟨rfl, h.unique at_snoc⟩
    · exact .inl (h.within (List.prefix_append ..) hle)
  · rintro (h | ⟨rfl, rfl⟩)
    · exact h.mono (List.prefix_append ..)
    · exact at_snoc

/-- A journal all of whose entries another one has under the same numbers is the beginning of it. -/
theorem prefix_of_at (h : ∀ n m, At log n m → At log' n m) : log <+: log' := by
  refine List.prefix_iff_getElem?.mpr fun i hi => ?_
  have hentry : At log (i + 1) log[i] := ⟨Nat.succ_pos i, List.getElem?_eq_getElem hi⟩
  exact (h _ _ hentry).2

end Journal

end ChiaGaming
