import Mathlib.Tactic

namespace ChiaGaming

/-! The gaps between the keys of a sorted list, within the integers from a least to a greatest one. -/

namespace Gaps

/-- The stretch from `low` to `high` has no key in it. -/
structure Free (least greatest : ℤ) (keys : List ℤ) (low high : ℤ) : Prop where
  least_le : least ≤ low
  nonempty : low ≤ high
  le_greatest : high ≤ greatest
  keyless : ∀ k ∈ keys, k < low ∨ high < k

/-- A stretch without keys that no other contains. -/
def IsGap (least greatest : ℤ) (keys : List ℤ) (low high : ℤ) : Prop :=
  Free least greatest keys low high ∧ ∀ low' high', Free least greatest keys low' high' →
    low' ≤ low → high ≤ high' → low' = low ∧ high' = high

def lowEnd (least : ℤ) (before : List ℤ) : ℤ := before.getLast?.elim least (· + 1)

def highEnd (greatest : ℤ) (after : List ℤ) : ℤ := after.head?.elim greatest (· - 1)

/-- The keys that lie below a number come first. -/
theorem exists_split {keys : List ℤ} (hsorted : keys.Pairwise (· < ·)) (x : ℤ) :
    ∃ before after, keys = before ++ after ∧ (∀ k ∈ before, k < x) ∧ ∀ k ∈ after, x ≤ k := by
  induction keys with
  | nil => exact ⟨[], [], rfl, by simp, by simp⟩
  | cons k keys ih =>
    obtain ⟨hk, hkeys⟩ := List.pairwise_cons.mp hsorted
    by_cases hx : k < x
    · obtain ⟨before, after, rfl, hbefore, hafter⟩ := ih hkeys
      refine ⟨k :: before, after, rfl, fun l hl => ?_, hafter⟩
      rcases List.mem_cons.mp hl with rfl | hl
      · exact hx
      · exact hbefore l hl
    · refine ⟨[], k :: keys, rfl, by simp, fun l hl => ?_⟩
      rw [not_lt] at hx
      rcases List.mem_cons.mp hl with rfl | hl
      · exact hx
      · exact hx.trans (hk l hl).le

section Ends

variable {least greatest : ℤ} {before after : List ℤ}

theorem lt_lowEnd (h : before.Pairwise (· < ·)) : ∀ k ∈ before, k < lowEnd least before := by
  intro k hk
  obtain ⟨init, last, rfl⟩ := (List.eq_nil_or_concat' before).resolve_left (List.ne_nil_of_mem hk)
  rw [lowEnd, List.getLast?_concat]
  change k < last + 1
  rw [Int.lt_add_one_iff]
  rcases List.mem_append.mp hk with hk | hk
  · exact ((List.pairwise_append.mp h).2.2 k hk last (List.mem_singleton_self _)).le
  · exact (List.mem_singleton.mp hk).le

theorem highEnd_lt (h : after.Pairwise (· < ·)) : ∀ k ∈ after, highEnd greatest after < k := by
  intro k hk
  cases after with
  | nil => cases hk
  | cons first rest =>
    change first - 1 < k
    rcases List.mem_cons.mp hk with rfl | hk
    · exact Int.sub_one_lt_of_le le_rfl
    · exact (Int.sub_one_lt_of_le le_rfl).trans ((List.pairwise_cons.mp h).1 k hk)

theorem lowEnd_le {x : ℤ} (hleast : least ≤ x) (h : ∀ k ∈ before, k < x) : lowEnd least before ≤ x := by
  rw [lowEnd]
  cases hlast : before.getLast? with
  | none => exact hleast
  | some last => exact Int.add_one_le_of_lt (h last (List.mem_of_getLast? hlast))

theorem le_highEnd {x : ℤ} (hgreatest : x ≤ greatest) (h : ∀ k ∈ after, x < k) :
    x ≤ highEnd greatest after := by
  rw [highEnd]
  cases hfirst : after.head? with
  | none => exact hgreatest
  | some first => exact Int.le_sub_one_of_lt (h first (List.mem_of_head? hfirst))

theorem least_le_lowEnd (h : ∀ k ∈ before, least ≤ k) : least ≤ lowEnd least before := by
  rw [lowEnd]
  cases hlast : before.getLast? with
  | none => exact le_rfl
  | some last => exact (h last (List.mem_of_getLast? hlast)).trans (Int.le_add_one le_rfl)

theorem highEnd_le_greatest (h : ∀ k ∈ after, k ≤ greatest) : highEnd greatest after ≤ greatest := by
  rw [highEnd]
  cases hfirst : after.head? with
  | none => exact le_rfl
  | some first => exact (Int.sub_le_self _ (by decide)).trans (h first (List.mem_of_head? hfirst))

end Ends

/-- The gaps lie between what comes before and what comes after some place in the list. -/
theorem isGap_iff {least greatest low high : ℤ} {keys : List ℤ} (hsorted : keys.Pairwise (· < ·))
    (hbounds : ∀ k ∈ keys, least ≤ k ∧ k ≤ greatest) :
    IsGap least greatest keys low high ↔ ∃ before after, keys = before ++ after ∧
      low = lowEnd least before ∧ high = highEnd greatest after ∧ low ≤ high := by
  have hfree : ∀ before after, keys = before ++ after →
      lowEnd least before ≤ highEnd greatest after →
        Free least greatest keys (lowEnd least before) (highEnd greatest after) := by
    rintro before after rfl hle
    obtain ⟨hbefore, hafter, -⟩ := List.pairwise_append.mp hsorted
    refine ⟨least_le_lowEnd fun k hk => (hbounds k (List.mem_append_left _ hk)).1, hle,
      highEnd_le_greatest fun k hk => (hbounds k (List.mem_append_right _ hk)).2, fun k hk => ?_⟩
    exact (List.mem_append.mp hk).imp (lt_lowEnd hbefore k) (highEnd_lt hafter k)
  constructor
  · rintro ⟨h, hmax⟩
    obtain ⟨before, after, hkeys, hbefore, hafter⟩ := exists_split hsorted low
    have hlow : lowEnd least before ≤ low := lowEnd_le h.least_le hbefore
    have hhigh : high ≤ highEnd greatest after := by
      refine le_highEnd h.le_greatest fun k hk => ?_
      have hmem : k ∈ keys := hkeys ▸ List.mem_append_right _ hk
      exact (h.keyless k hmem).resolve_left (not_lt.mpr (hafter k hk))
    obtain ⟨hlow', hhigh'⟩ := hmax _ _
      (hfree before after hkeys (hlow.trans (h.nonempty.trans hhigh))) hlow hhigh
    exact ⟨before, after, hkeys, hlow'.symm, hhigh'.symm, h.nonempty⟩
  · rintro ⟨before, after, hkeys, rfl, rfl, hle⟩
    refine ⟨hfree before after hkeys hle, fun low' high' h hlow hhigh => ?_⟩
    -- a wider stretch takes in the key next to it
    have hnext : ∀ k ∈ keys, low' ≤ k → k ≤ high' → False := fun k hk hlow hhigh =>
      (h.keyless k hk).elim (not_lt.mpr hlow) (not_lt.mpr hhigh)
    constructor
    · refine le_antisymm hlow (not_lt.mp fun hlt => ?_)
      rw [lowEnd] at hlt hlow hle
      cases hlast : before.getLast? with
      | none =>
        rw [hlast] at hlt
        exact absurd h.least_le (not_le.mpr hlt)
      | some last =>
        rw [hlast] at hlt hle
        have hmem : last ∈ keys := hkeys ▸ List.mem_append_left _ (List.mem_of_getLast? hlast)
        refine hnext last hmem (Int.lt_add_one_iff.mp hlt) ?_
        exact ((Int.le_add_one le_rfl).trans hle).trans hhigh
    · refine le_antisymm (not_lt.mp fun hlt => ?_) hhigh
      rw [highEnd] at hlt hhigh hle
      cases hfirst : after.head? with
      | none =>
        rw [hfirst] at hlt
        exact absurd h.le_greatest (not_le.mpr hlt)
      | some first =>
        rw [hfirst] at hlt hle
        have hmem : first ∈ keys := hkeys ▸ List.mem_append_right _ (List.mem_of_head? hfirst)
        refine hnext first hmem ?_ (Int.sub_one_lt_iff.mp hlt)
        exact (hlow.trans hle).trans (Int.sub_le_self _ (by decide))

end Gaps

end ChiaGaming
