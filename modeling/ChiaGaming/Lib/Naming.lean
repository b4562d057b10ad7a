import Mathlib.Tactic

namespace ChiaGaming

/-! Two parties name things by numbers of opposite parity, each counting up its own. -/

namespace Naming

/-- What one party knows of the names: its own next number, the least that it takes from the other,
the names in use and those that it has yet to announce. -/
structure Book where
  mine : ℕ
  theirs : ℕ
  held : List ℕ
  queued : List ℕ

/-- The next numbers of a party. -/
def Book.next (b : Book) (k : ℕ) : List ℕ := (List.range k).map fun i => b.mine + 2 * i

inductive Step (b : Book) : Book → Prop where
  | drop (held queued : List ℕ) (hsub : (held ++ queued).Subperm (b.held ++ b.queued))
      (hqueued : queued.Sublist b.queued) : Step b { b with held, queued }
  | allocate : Step b { b with mine := b.mine + 2 }
  | propose (k : ℕ) :
      Step b { b with mine := b.mine + 2 * k, queued := b.queued ++ b.next k }
  | receive (n : ℕ) (held : List ℕ) (hparity : n % 2 = b.theirs % 2) (hle : b.theirs ≤ n)
      (hheld : held.Perm (b.held ++ [n])) : Step b { b with theirs := n + 2, held }

inductive Steps (b : Book) : Book → Prop where
  | refl : Steps b b
  | step {b₁ b₂ : Book} (h : Steps b b₁) (hstep : Step b₁ b₂) : Steps b b₂

theorem Step.steps {b b' : Book} (h : Step b b') : Steps b b' := .step .refl h

theorem Steps.trans {b b₁ b₂ : Book} (h : Steps b b₁) (h' : Steps b₁ b₂) : Steps b b₂ := by
  induction h' with
  | refl => exact h
  | step _ hstep ih => exact .step ih hstep

/-- A name that one of the parties has given already. -/
def Book.Used (b : Book) (n : ℕ) : Prop :=
  n % 2 = b.mine % 2 ∧ n < b.mine ∨ n % 2 = b.theirs % 2 ∧ n < b.theirs

/-- No name is in use twice, and none is still to come. -/
structure Fresh (b : Book) : Prop where
  opposite : b.mine % 2 ≠ b.theirs % 2
  nodup : (b.held ++ b.queued).Nodup
  used : ∀ n ∈ b.held ++ b.queued, b.Used n
  ours : ∀ n ∈ b.queued, n % 2 = b.mine % 2
  ordered : b.queued.Pairwise (· < ·)

theorem Book.mem_next {b : Book} {k n : ℕ} :
    n ∈ b.next k ↔ n % 2 = b.mine % 2 ∧ b.mine ≤ n ∧ n < b.mine + 2 * k := by
  simp only [Book.next, List.mem_map, List.mem_range]
  constructor
  · rintro ⟨i, hi, rfl⟩
    omega
  · rintro ⟨hparity, hle, hlt⟩
    exact ⟨(n - b.mine) / 2, by omega, by omega⟩

theorem Book.next_pairwise (b : Book) (k : ℕ) : (b.next k).Pairwise (· < ·) := by
  rw [Book.next, List.pairwise_map]
  exact List.pairwise_lt_range.imp fun hlt => by omega

theorem Step.fresh {b b' : Book} (h : Step b b') (hfresh : Fresh b) : Fresh b' := by
  cases h with
  | drop held queued hsub hqueued =>
    refine ⟨hfresh.opposite, ?_, fun n hn => hfresh.used n (hsub.subset hn),
      fun n hn => hfresh.ours n (hqueued.subset hn), hfresh.ordered.sublist hqueued⟩
    obtain ⟨l, hperm, hsublist⟩ := hsub
    exact hperm.nodup_iff.mp (hfresh.nodup.sublist hsublist)
  | allocate =>
    have hused : ∀ n ∈ b.held ++ b.queued, Book.Used { b with mine := b.mine + 2 } n := by
      intro n hn
      rcases hfresh.used n hn with h | h
      · exact .inl ⟨by simpa using h.1, by simp only; omega⟩
      · exact .inr h
    exact ⟨by simpa using hfresh.opposite, hfresh.nodup, hused, by simpa using hfresh.ours,
      hfresh.ordered⟩
  | propose k =>
    have hopposite := hfresh.opposite
    have hnew : ∀ n ∈ b.next k, n ∉ b.held ++ b.queued := by
      intro n hn hmem
      obtain ⟨hparity, hle, -⟩ := Book.mem_next.mp hn
      rcases hfresh.used n hmem with h | h <;> omega
    refine ⟨?_, ?_, ?_, ?_, ?_⟩
    · simpa using hopposite
    · rw [← List.append_assoc]
      refine List.nodup_append.mpr ⟨hfresh.nodup, ?_, ?_⟩
      · exact (b.next_pairwise k).imp fun hlt => by omega
      · intro n hn m hm heq
        exact hnew m hm (heq ▸ hn)
    · intro n hn
      rw [← List.append_assoc] at hn
      rcases List.mem_append.mp hn with hn | hn
      · rcases hfresh.used n hn with h | h
        · exact .inl ⟨by simpa using h.1, by simp only; omega⟩
        · exact .inr h
      · obtain ⟨hparity, -, hlt⟩ := Book.mem_next.mp hn
        exact .inl ⟨by simpa using hparity, hlt⟩
    · intro n hn
      rcases List.mem_append.mp hn with hn | hn
      · simpa using hfresh.ours n hn
      · simpa using (Book.mem_next.mp hn).1
    · refine List.pairwise_append.mpr ⟨hfresh.ordered, b.next_pairwise k, ?_⟩
      intro n hn m hm
      have hparity := hfresh.ours n hn
      obtain ⟨-, hle, -⟩ := Book.mem_next.mp hm
      rcases hfresh.used n (List.mem_append_right _ hn) with h | h <;> omega
  | receive n held hparity hle hheld =>
    have hopposite := hfresh.opposite
    have hperm : (held ++ b.queued).Perm (n :: (b.held ++ b.queued)) :=
      (hheld.append_right _).trans (by
        rw [List.append_assoc, List.singleton_append]
        exact List.perm_middle)
    refine ⟨?_, ?_, ?_, hfresh.ours, hfresh.ordered⟩
    · show b.mine % 2 ≠ (n + 2) % 2
      omega
    · refine hperm.nodup_iff.mpr (List.nodup_cons.mpr ⟨fun hmem => ?_, hfresh.nodup⟩)
      rcases hfresh.used n hmem with h | h <;> omega
    · intro m hm
      rcases List.mem_cons.mp (hperm.mem_iff.mp hm) with rfl | hm
      · refine .inr ⟨?_, ?_⟩
        · show m % 2 = (m + 2) % 2
          omega
        · show m < m + 2
          omega
      · rcases hfresh.used m hm with h | h
        · exact .inl h
        · refine .inr ⟨?_, ?_⟩
          · show m % 2 = (n + 2) % 2
            omega
          · show m < n + 2
            omega

theorem Steps.fresh {b b' : Book} (h : Steps b b') (hfresh : Fresh b) : Fresh b' := by
  induction h with
  | refl => exact hfresh
  | step _ hstep ih => exact hstep.fresh ih

theorem Step.used {b b' : Book} (h : Step b b') {n : ℕ} (hn : b.Used n) : b'.Used n := by
  cases h with
  | drop held queued hsub hqueued => exact hn
  | allocate =>
    rcases hn with hn | hn
    · exact .inl ⟨by simpa using hn.1, by simp only; omega⟩
    · exact .inr hn
  | propose k =>
    rcases hn with hn | hn
    · exact .inl ⟨by simpa using hn.1, by simp only; omega⟩
    · exact .inr hn
  | receive m held hparity hle hheld =>
    rcases hn with hn | hn
    · exact .inl hn
    · exact .inr ⟨by simp only; omega, by simp only; omega⟩

/-- A name that is gone. -/
def Book.Retired (b : Book) (n : ℕ) : Prop := b.Used n ∧ n ∉ b.held ++ b.queued

/-- A name that is gone does not come back. -/
theorem Step.retired {b b' : Book} (hfresh : Fresh b) (h : Step b b') {n : ℕ} (hn : b.Retired n) :
    b'.Retired n := by
  refine ⟨h.used hn.1, ?_⟩
  obtain ⟨hused, hnot⟩ := hn
  have hopposite := hfresh.opposite
  cases h with
  | drop held queued hsub hqueued => exact fun hmem => hnot (hsub.subset hmem)
  | allocate => exact hnot
  | propose k =>
    intro hmem
    rw [← List.append_assoc] at hmem
    rcases List.mem_append.mp hmem with hmem | hmem
    · exact hnot hmem
    · obtain ⟨hparity, hle, -⟩ := Book.mem_next.mp hmem
      rcases hused with hused | hused <;> omega
  | receive m held hparity hle hheld =>
    intro hmem
    rcases List.mem_append.mp hmem with hmem | hmem
    · rcases List.mem_append.mp (hheld.mem_iff.mp hmem) with hmem | hmem
      · exact hnot (List.mem_append_left _ hmem)
      · rw [List.mem_singleton] at hmem
        subst hmem
        rcases hused with hused | hused <;> omega
    · exact hnot (List.mem_append_right _ hmem)

/-- A name stays in use until it is gone. -/
theorem Step.held {b b' : Book} (hfresh : Fresh b) (h : Step b b') {n : ℕ} (hn : n ∈ b.held) :
    n ∈ b'.held ∨ b'.Retired n := by
  have hused := h.used (hfresh.used n (List.mem_append_left _ hn))
  have hqueued : n ∉ b.queued := fun hmem =>
    (List.nodup_append.mp hfresh.nodup).2.2 n hn n hmem rfl
  cases h with
  | drop held queued hsub hsubq =>
    by_cases hmem : n ∈ held
    · exact .inl hmem
    · refine .inr ⟨hused, fun hboth => ?_⟩
      rcases List.mem_append.mp hboth with hheld | hwaits
      · exact hmem hheld
      · exact hqueued (hsubq.subset hwaits)
  | allocate => exact .inl hn
  | propose k => exact .inl hn
  | receive m held hparity hle hheld =>
    exact .inl (hheld.mem_iff.mpr (List.mem_append_left _ hn))

theorem Steps.retired {b b' : Book} (hfresh : Fresh b) (h : Steps b b') {n : ℕ} (hn : b.Retired n) :
    b'.Retired n := by
  induction h with
  | refl => exact hn
  | step hsteps hstep ih => exact hstep.retired (hsteps.fresh hfresh) ih

theorem Steps.held {b b' : Book} (hfresh : Fresh b) (h : Steps b b') {n : ℕ} (hn : n ∈ b.held) :
    n ∈ b'.held ∨ b'.Retired n := by
  induction h with
  | refl => exact .inl hn
  | step hsteps hstep ih =>
    rcases ih with ih | ih
    · exact hstep.held (hsteps.fresh hfresh) ih
    · exact .inr (hstep.retired (hsteps.fresh hfresh) ih)

/-! The names of one party on their way to the other. -/

/-- The names under way and those that wait, between what the other party expects and our own next
number. -/
structure Line (mine theirs : ℕ) (flight queued : List ℕ) : Prop where
  parity : theirs % 2 = mine % 2
  bound : theirs ≤ mine
  ours : ∀ n ∈ flight ++ queued, n % 2 = mine % 2 ∧ theirs ≤ n ∧ n < mine
  ordered : (flight ++ queued).Pairwise (· < ·)

namespace Line

variable {mine theirs : ℕ} {flight queued : List ℕ}

theorem drop (h : Line mine theirs flight queued) {queued' : List ℕ}
    (hsub : queued'.Sublist queued) : Line mine theirs flight queued' := by
  have happend : (flight ++ queued').Sublist (flight ++ queued) :=
    (List.Sublist.refl flight).append hsub
  exact ⟨h.parity, h.bound, fun n hn => h.ours n (happend.subset hn), h.ordered.sublist happend⟩

theorem allocate (h : Line mine theirs flight queued) : Line (mine + 2) theirs flight queued := by
  refine ⟨by simpa using h.parity, Nat.le_add_right_of_le h.bound, fun n hn => ?_, h.ordered⟩
  obtain ⟨hparity, hle, hlt⟩ := h.ours n hn
  exact ⟨by simpa using hparity, hle, by omega⟩

theorem propose (h : Line mine theirs flight queued) (k : ℕ) :
    Line (mine + 2 * k) theirs flight (queued ++ (List.range k).map fun i => mine + 2 * i) := by
  have hbound := h.bound
  have hparity := h.parity
  refine ⟨by omega, by omega, fun n hn => ?_, ?_⟩
  · rw [← List.append_assoc] at hn
    rcases List.mem_append.mp hn with hn | hn
    · obtain ⟨hsame, hle, hlt⟩ := h.ours n hn
      exact ⟨by omega, hle, by omega⟩
    · obtain ⟨i, hi, rfl⟩ := List.mem_map.mp hn
      rw [List.mem_range] at hi
      exact ⟨by omega, by omega, by omega⟩
  · rw [← List.append_assoc]
    refine List.pairwise_append.mpr ⟨h.ordered, ?_, fun n hn m hm => ?_⟩
    · rw [List.pairwise_map]
      exact List.pairwise_lt_range.imp fun hlt => by omega
    · obtain ⟨i, -, rfl⟩ := List.mem_map.mp hm
      obtain ⟨-, -, hlt⟩ := h.ours n hn
      omega

theorem send {sent : List ℕ} (h : Line mine theirs flight (sent ++ queued)) :
    Line mine theirs (flight ++ sent) queued := by
  obtain ⟨hparity, hbound, hours, hordered⟩ := h
  rw [← List.append_assoc] at hours hordered
  exact ⟨hparity, hbound, hours, hordered⟩

/-- The next name is one that the other party expects. -/
theorem passes {n : ℕ} (h : Line mine theirs (n :: flight) queued) :
    n % 2 = theirs % 2 ∧ theirs ≤ n ∧ n < mine := by
  obtain ⟨hparity, hle, hlt⟩ := h.ours n List.mem_cons_self
  exact ⟨hparity.trans h.parity.symm, hle, hlt⟩

theorem skip {n : ℕ} (h : Line mine theirs (n :: flight) queued) :
    Line mine theirs flight queued :=
  ⟨h.parity, h.bound, fun m hm => h.ours m (List.mem_cons_of_mem n hm), h.ordered.of_cons⟩

theorem take {n : ℕ} (h : Line mine theirs (n :: flight) queued) :
    Line mine (n + 2) flight queued := by
  obtain ⟨hparity, hle, hlt⟩ := h.passes
  have hsame := h.parity
  refine ⟨by omega, by omega, fun m hm => ?_, h.ordered.of_cons⟩
  obtain ⟨hm2, -, hlast⟩ := h.ours m (List.mem_cons_of_mem n hm)
  have hnm : n < m := List.rel_of_pairwise_cons h.ordered hm
  exact ⟨hm2, by omega, hlast⟩

end Line

end Naming

end ChiaGaming
