import ChiaGaming.Lib.Act

namespace ChiaGaming

/-! Conditions before and after a method that may fail. -/

namespace Act

section Triple

variable {ε σ α β : Type} {pre pre' : σ → Prop} {post post' : α → σ → Prop} {fails fails' : σ → Prop}

/-- A run from a state with `pre` ends with a result as in `post`, or fails in a state with `fails`. -/
def Triple (pre : σ → Prop) (x : Act ε σ α) (post : α → σ → Prop) (fails : σ → Prop) : Prop :=
  ∀ s, pre s → match x s with
    | .ok a s' => post a s'
    | .error _ s' => fails s'

theorem Triple.ok {x : Act ε σ α} (h : Triple pre x post fails) {s s' : σ} {a : α} (hs : pre s)
    (hr : x s = .ok a s') : post a s' := by
  have hrun := h s hs
  rwa [hr] at hrun

theorem Triple.error {x : Act ε σ α} (h : Triple pre x post fails) {s s' : σ} {e : ε} (hs : pre s)
    (hr : x s = .error e s') : fails s' := by
  have hrun := h s hs
  rwa [hr] at hrun

theorem Triple.after {x : Act ε σ α} {inv : σ → Prop} (h : Triple pre x (fun _ => inv) inv) {s : σ} (hs : pre s) :
    inv (x.after s) := by
  unfold Act.after
  cases hr : x s with
  | ok a s' => exact h.ok hs hr
  | error e s' => exact h.error hs hr

theorem triple_pure {a : α} (h : ∀ s, pre s → post a s) : Triple pre (pure a : Act ε σ α) post fails := h

theorem triple_throw {e : ε} (h : ∀ s, pre s → fails s) : Triple pre (throw e : Act ε σ α) post fails := h

theorem triple_modify {f : σ → σ} {last : PUnit → σ → Prop} (h : ∀ s, pre s → last ⟨⟩ (f s)) :
    Triple pre (modify f : Act ε σ PUnit) last fails := h

theorem Triple.mono {x : Act ε σ α} (h : Triple pre x post fails) (hpre : ∀ s, pre' s → pre s)
    (hpost : ∀ a s, post a s → post' a s) (hfails : ∀ s, fails s → fails' s) :
    Triple pre' x post' fails' := by
  intro s hs
  have hrun := h s (hpre s hs)
  cases hr : x s with
  | ok a s' =>
    rw [hr] at hrun
    exact hpost a s' hrun
  | error e s' =>
    rw [hr] at hrun
    exact hfails s' hrun

theorem Triple.bind {x : Act ε σ α} {f : α → Act ε σ β} {mid : α → σ → Prop} {last : β → σ → Prop}
    (hx : Triple pre x mid fails) (hf : ∀ a, Triple (mid a) (f a) last fails) :
    Triple pre (x >>= f) last fails := by
  intro s hs
  have hrun := hx s hs
  rw [bind_apply]
  cases hr : x s with
  | ok a s' =>
    rw [hr] at hrun
    exact hf a s' hrun
  | error e s' =>
    rw [hr] at hrun
    exact hrun

/-! What a method starts with. -/

/-- From the read on the state is known. -/
theorem triple_read {f : σ → Act ε σ α} (h : ∀ s, pre s → Triple (fun s' => s' = s) (f s) post fails) :
    Triple pre (get >>= f) post fails := fun s hs => h s hs s rfl

theorem triple_modify_bind {s : σ} {g : σ → σ} {f : PUnit → Act ε σ α}
    (h : Triple (fun s' => s' = g s) (f ⟨⟩) post fails) :
    Triple (fun s' => s' = s) (modify g >>= f) post fails := by
  rintro s' rfl
  exact h (g s') rfl

theorem triple_lift_bind {x : Except ε β} {f : β → Act ε σ α} (herror : ∀ s, pre s → fails s)
    (h : ∀ b, x = .ok b → Triple pre (f b) post fails) : Triple pre (lift x >>= f) post fails := by
  intro s hs
  cases hx : x with
  | ok b => exact h b hx s hs
  | error e => exact herror s hs

/-- What is known of a part of the state is known of a value. -/
theorem triple_part {γ : Type} {part : σ → γ} {known : γ → Prop} {x : Act ε σ α}
    (h : ∀ c, known c → Triple (fun s => part s = c) x post fails) :
    Triple (fun s => known (part s)) x post fails := fun s hs => h (part s) hs s rfl

theorem triple_ite {c : Prop} [Decidable c] {x y : Act ε σ α} (hx : c → Triple pre x post fails)
    (hy : ¬ c → Triple pre y post fails) : Triple pre (if c then x else y) post fails := by
  split
  · exact hx ‹c›
  · exact hy ‹¬ c›

/-- What a condition says beside the state. -/
theorem triple_of {p : Prop} {x : Act ε σ α} (h : p → Triple pre x post fails) :
    Triple (fun s => p ∧ pre s) x post fails := fun s hs => h hs.1 s hs.2

end Triple

end Act

end ChiaGaming
