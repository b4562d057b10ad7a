import Mathlib.Data.List.AList

namespace ChiaGaming

/-! Finite maps.  Their entries stand in the order in which a loop comes to them. -/

abbrev Dict (K V : Type) := AList fun _ : K => V

namespace Dict

variable {K V : Type}

/-- Every value replaced, under the same key. -/
def update (d : Dict K V) (f : K → V → V) : Dict K V where
  entries := d.entries.map fun e => ⟨e.1, f e.1 e.2⟩
  nodupKeys := by
    have hkeys : (d.entries.map fun e => (⟨e.1, f e.1 e.2⟩ : Σ _ : K, V)).keys = d.entries.keys := by
      simp [List.keys]
    rw [List.NodupKeys, hkeys]
    exact d.nodupKeys

/-- The entries that pass a test. -/
def retain (d : Dict K V) (q : K → V → Bool) : Dict K V where
  entries := d.entries.filter fun e => q e.1 e.2
  nodupKeys := d.nodupKeys.sublist List.filter_sublist

variable [DecidableEq K] {d : Dict K V}

@[simp] theorem lookup_update (f : K → V → V) (k : K) :
    (d.update f).lookup k = (d.lookup k).map (f k) := by
  rw [AList.lookup, AList.lookup]
  dsimp only [update]
  induction d.entries with
  | nil => rfl
  | cons e l ih =>
    obtain ⟨k', v⟩ := e
    by_cases hk : k = k'
    · subst hk
      rw [List.map_cons, List.dlookup_cons_eq, List.dlookup_cons_eq]
      rfl
    · rw [List.map_cons, List.dlookup_cons_ne _ _ hk, List.dlookup_cons_ne _ _ hk, ih]

theorem lookup_eq_some {k : K} {v : V} : d.lookup k = some v ↔ (⟨k, v⟩ : Σ _ : K, V) ∈ d.entries :=
  AList.mem_lookup_iff

@[simp] theorem lookup_retain (q : K → V → Bool) (k : K) :
    (d.retain q).lookup k = (d.lookup k).filter (q k) := by
  refine Option.ext fun v => ?_
  rw [lookup_eq_some, Option.filter_eq_some_iff, lookup_eq_some, retain, List.mem_filter]

end Dict

end ChiaGaming
