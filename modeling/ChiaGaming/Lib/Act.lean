import Mathlib.Tactic

namespace ChiaGaming

/-! Methods that may fail: a run ends with a result or an error, and either way with the state as
the run left it. -/

abbrev Act (ε σ α : Type) := EStateM ε σ α

section Act

variable {ε σ τ α β γ : Type}

namespace Act

/-- The state that a run leaves behind. -/
def after (x : Act ε σ α) (s : σ) : σ :=
  match x s with
  | .ok _ s' => s'
  | .error _ s' => s'

def succeeds (x : Act ε σ α) (s : σ) : Bool :=
  match x s with
  | .ok _ _ => true
  | .error _ _ => false

theorem eq_ok_of_succeeds {x : Act ε σ α} {s : σ} (h : x.succeeds s = true) :
    ∃ a, x s = .ok a (x.after s) := by
  rw [succeeds] at h
  rw [after]
  cases hx : x s with
  | ok a s' => exact ⟨a, rfl⟩
  | error e s' =>
    rw [hx] at h
    cases h

theorem bind_apply (x : Act ε σ α) (f : α → Act ε σ β) (s : σ) :
    (x >>= f) s = match x s with
      | .ok a s' => f a s'
      | .error e s' => .error e s' := rfl

@[simp] theorem pure_apply (a : α) (s : σ) : (pure a : Act ε σ α) s = .ok a s := rfl
@[simp] theorem throw_apply (e : ε) (s : σ) : (throw e : Act ε σ α) s = .error e s := rfl
@[simp] theorem get_apply (s : σ) : (get : Act ε σ σ) s = .ok s s := rfl
@[simp] theorem set_apply (s s' : σ) : (set s' : Act ε σ PUnit) s = .ok ⟨⟩ s' := rfl
@[simp] theorem modify_apply (f : σ → σ) (s : σ) :
    (modify f : Act ε σ PUnit) s = .ok ⟨⟩ (f s) := rfl

theorem bind_eq_ok {x : Act ε σ α} {f : α → Act ε σ β} {s s' : σ} {b : β} :
    (x >>= f) s = .ok b s' ↔ ∃ a s₁, x s = .ok a s₁ ∧ f a s₁ = .ok b s' := by
  rw [bind_apply]
  cases x s with
  | ok a s₁ => simp
  | error e s₁ => simp

theorem bind_eq_error {x : Act ε σ α} {f : α → Act ε σ β} {s s' : σ} {e : ε} :
    (x >>= f) s = .error e s' ↔
      x s = .error e s' ∨ ∃ a s₁, x s = .ok a s₁ ∧ f a s₁ = .error e s' := by
  rw [bind_apply]
  cases x s with
  | ok a s₁ => simp
  | error e s₁ => simp

theorem bind_of_ok {x : Act ε σ α} {s s' : σ} {a : α} (h : x s = .ok a s') (f : α → Act ε σ β) :
    (x >>= f) s = f a s' := by
  rw [bind_apply, h]

theorem bind_of_error {x : Act ε σ α} {s s' : σ} {e : ε} (h : x s = .error e s')
    (f : α → Act ε σ β) : (x >>= f) s = .error e s' := by
  rw [bind_apply, h]

theorem map_of_ok {x : Act ε σ α} {s s' : σ} {a : α} (h : x s = .ok a s') (f : α → β) :
    (f <$> x) s = .ok (f a) s' := by
  rw [map_eq_pure_bind, bind_of_ok h]
  rfl

theorem map_of_error {x : Act ε σ α} {s s' : σ} {e : ε} (h : x s = .error e s') (f : α → β) :
    (f <$> x) s = .error e s' := by
  rw [map_eq_pure_bind, bind_of_error h]

theorem map_eq_ok {x : Act ε σ α} {f : α → β} {s s' : σ} {b : β} :
    (f <$> x) s = .ok b s' ↔ ∃ a, x s = .ok a s' ∧ f a = b := by
  cases h : x s with
  | ok a s₁ => simp [map_of_ok h, and_comm]
  | error e s₁ => simp [map_of_error h]

theorem map_eq_error {x : Act ε σ α} {f : α → β} {s s' : σ} {e : ε} :
    (f <$> x) s = .error e s' ↔ x s = .error e s' := by
  cases h : x s with
  | ok a s₁ => simp [map_of_ok h]
  | error e s₁ => simp [map_of_error h]

theorem ite_eq_ok {c : Prop} [Decidable c] {x y : Act ε σ α} {s s' : σ} {a : α} :
    (if c then x else y) s = .ok a s' ↔ c ∧ x s = .ok a s' ∨ ¬ c ∧ y s = .ok a s' := by
  by_cases h : c
  · simp [h]
  · simp [h]

theorem ite_eq_error {c : Prop} [Decidable c] {x y : Act ε σ α} {s s' : σ} {e : ε} :
    (if c then x else y) s = .error e s' ↔ c ∧ x s = .error e s' ∨ ¬ c ∧ y s = .error e s' := by
  by_cases h : c
  · simp [h]
  · simp [h]

/-- A pure computation that may fail. -/
def lift (x : Except ε α) : Act ε σ α := fun s =>
  match x with
  | .ok a => .ok a s
  | .error e => .error e s

@[simp] theorem lift_ok (a : α) (s : σ) : (lift (.ok a) : Act ε σ α) s = .ok a s := rfl
@[simp] theorem lift_error (e : ε) (s : σ) : (lift (.error e) : Act ε σ α) s = .error e s := rfl

theorem lift_eq_ok {x : Except ε α} {s s' : σ} {a : α} :
    lift x s = .ok a s' ↔ x = .ok a ∧ s' = s := by
  cases x with
  | ok b => simp [eq_comm]
  | error e => simp

/-- Every action of a list in order. -/
def each (f : α → Act ε σ (List β)) : List α → Act ε σ (List β)
  | [] => pure []
  | a :: as => do
    let b ← f a
    let bs ← each f as
    pure (b ++ bs)

/-- Where a run may take the state, whether or not it fails. -/
def Moves (R : σ → σ → Prop) (x : Act ε σ α) : Prop := ∀ s, R s (x.after s)

/-- The part of the state that a run does not touch. -/
def Keeps (f : σ → γ) (x : Act ε σ α) : Prop := ∀ s, f (x.after s) = f s

/-- The part of the state that a run does not touch if it fails. -/
def KeepsOnError (f : σ → γ) (x : Act ε σ α) : Prop := ∀ s s' e, x s = .error e s' → f s' = f s

variable {f : σ → γ}

theorem after_of_ok {x : Act ε σ α} {s s' : σ} {a : α} (h : x s = .ok a s') : x.after s = s' := by
  rw [after, h]

theorem after_of_error {x : Act ε σ α} {s s' : σ} {e : ε} (h : x s = .error e s') :
    x.after s = s' := by
  rw [after, h]

theorem after_bind_of_ok {x : Act ε σ α} {f : α → Act ε σ β} {s s' : σ} {a : α}
    (h : x s = .ok a s') : (x >>= f).after s = (f a).after s' := by
  rw [after, bind_of_ok h, after]

theorem after_map (f : α → β) (x : Act ε σ α) (s : σ) : (f <$> x).after s = x.after s := by
  rw [after, after, map_eq_pure_bind, bind_apply]
  cases x s <;> rfl

theorem Keeps.ok {x : Act ε σ α} (h : Keeps f x) {s s' : σ} {a : α} (hr : x s = .ok a s') :
    f s' = f s := by
  rw [← h s, after_of_ok hr]

theorem Keeps.mono {δ : Type} {g : σ → δ} {x : Act ε σ α} (h : Keeps f x)
    (hg : ∀ s s', f s = f s' → g s = g s') : Keeps g x := fun s => hg _ _ (h s)

theorem Keeps.onError {x : Act ε σ α} (h : Keeps f x) : KeepsOnError f x := by
  intro s s' e hr
  rw [← h s, after_of_error hr]

section Moves

variable {R : σ → σ → Prop}

theorem moves_pure [Std.Refl R] (a : α) : Moves R (pure a : Act ε σ α) := fun s => Std.Refl.refl s

theorem moves_throw [Std.Refl R] (e : ε) : Moves R (throw e : Act ε σ α) := fun s => Std.Refl.refl s

theorem moves_get [Std.Refl R] : Moves R (get : Act ε σ σ) := fun s => Std.Refl.refl s

theorem moves_lift [Std.Refl R] (x : Except ε α) : Moves R (lift x : Act ε σ α) := by
  intro s
  cases x with
  | ok a => exact Std.Refl.refl s
  | error e => exact Std.Refl.refl s

theorem moves_ite {c : Prop} [Decidable c] {x y : Act ε σ α} (hx : Moves R x) (hy : Moves R y) :
    Moves R (if c then x else y) := by
  split
  · exact hx
  · exact hy

theorem Moves.bind [IsTrans σ R] {x : Act ε σ α} {g : α → Act ε σ β} (hx : Moves R x)
    (hg : ∀ a, Moves R (g a)) : Moves R (x >>= g) := by
  intro s
  have h := hx s
  rw [after, bind_apply]
  rw [after] at h
  cases hr : x s with
  | ok a s₁ =>
    rw [hr] at h
    exact IsTrans.trans s s₁ _ h (hg a s₁)
  | error e s₁ =>
    rw [hr] at h
    exact h

theorem moves_each [Std.Refl R] [IsTrans σ R] {g : α → Act ε σ (List β)}
    (h : ∀ a, Moves R (g a)) (as : List α) : Moves R (each g as) := by
  induction as with
  | nil => exact moves_pure []
  | cons a as ih => exact (h a).bind fun b => ih.bind fun bs => moves_pure _

end Moves

/-- A step that does not touch the part. -/
def Same (f : σ → γ) (s s' : σ) : Prop := f s' = f s

instance : Std.Refl (Same f) := ⟨fun _ => rfl⟩

instance : IsTrans σ (Same f) := ⟨fun _ _ _ h h' => Eq.trans h' h⟩

theorem Keeps.bind {x : Act ε σ α} {g : α → Act ε σ β} (hx : Keeps f x) (hg : ∀ a, Keeps f (g a)) :
    Keeps f (x >>= g) := Moves.bind (R := Same f) hx hg

theorem Keeps.bind_onError {x : Act ε σ α} {g : α → Act ε σ β} (hx : Keeps f x)
    (hg : ∀ a, KeepsOnError f (g a)) : KeepsOnError f (x >>= g) := by
  intro s s' e h
  rcases bind_eq_error.mp h with hr | ⟨a, s₁, hr, h⟩
  · exact hx.onError s s' e hr
  · rw [hg a s₁ s' e h, hx.ok hr]

theorem keepsOnError_ite {c : Prop} [Decidable c] {x y : Act ε σ α} (hx : KeepsOnError f x)
    (hy : KeepsOnError f y) : KeepsOnError f (if c then x else y) := by
  split
  · exact hx
  · exact hy

theorem keeps_pure (a : α) : Keeps f (pure a : Act ε σ α) := moves_pure (R := Same f) a

theorem keeps_throw (e : ε) : Keeps f (throw e : Act ε σ α) := moves_throw (R := Same f) e

theorem keeps_get : Keeps f (get : Act ε σ σ) := moves_get (R := Same f)

theorem keeps_lift (x : Except ε α) : Keeps f (lift x : Act ε σ α) := moves_lift (R := Same f) x

theorem keeps_modify {g : σ → σ} (h : ∀ s, f (g s) = f s) : Keeps f (modify g : Act ε σ PUnit) := h

theorem keeps_each {g : α → Act ε σ (List β)} (h : ∀ a, Keeps f (g a)) (as : List α) :
    Keeps f (each g as) := moves_each (R := Same f) h as

theorem keeps_ite {c : Prop} [Decidable c] {x y : Act ε σ α} (hx : Keeps f x) (hy : Keeps f y) :
    Keeps f (if c then x else y) := moves_ite (R := Same f) hx hy

end Act

end Act

end ChiaGaming
