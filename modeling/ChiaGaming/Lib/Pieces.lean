import ChiaGaming.Lib.Act

namespace ChiaGaming

/-! What a reader takes off the front of its input, piece by piece. -/

/-- The strings that are such a piece, and those on which reading one stops the program. -/
structure Piece (τ : Type) where
  Done : List τ → Prop
  Halts : List τ → Prop

namespace Piece

variable {τ : Type} {P Q R : Piece τ}

def nothing : Piece τ where
  Done w := w = []
  Halts _ := False

def lit (c : τ) : Piece τ where
  Done w := w = [c]
  Halts _ := False

/-- One behind the other. -/
def seq (P Q : Piece τ) : Piece τ where
  Done w := ∃ u v, w = u ++ v ∧ P.Done u ∧ Q.Done v
  Halts s := P.Halts s ∨ ∃ u r, s = u ++ r ∧ P.Done u ∧ Q.Halts r

def many (P : Piece τ) : Piece τ where
  Done w := ∃ ws : List (List τ), w = ws.flatten ∧ ∀ u ∈ ws, P.Done u
  Halts s := ∃ (ws : List (List τ)) (r : List τ), s = ws.flatten ++ r ∧ (∀ u ∈ ws, P.Done u) ∧ P.Halts r

/-- Every piece of the one kind is one of the other. -/
structure Le (P Q : Piece τ) : Prop where
  done : ∀ w, P.Done w → Q.Done w
  halts : ∀ s, P.Halts s → Q.Halts s

theorem Le.refl (P : Piece τ) : Le P P := ⟨fun _ h => h, fun _ h => h⟩

theorem Le.trans (h : Le P Q) (h' : Le Q R) : Le P R :=
  ⟨fun w hw => h'.done w (h.done w hw), fun s hs => h'.halts s (h.halts s hs)⟩

theorem Le.seq {P' Q' : Piece τ} (h : Le P P') (h' : Le Q Q') : Le (P.seq Q) (P'.seq Q') where
  done := by
    rintro w ⟨u, v, rfl, hu, hv⟩
    exact ⟨u, v, rfl, h.done u hu, h'.done v hv⟩
  halts := by
    rintro s (hs | ⟨u, r, rfl, hu, hr⟩)
    · exact .inl (h.halts s hs)
    · exact .inr ⟨u, r, rfl, h.done u hu, h'.halts r hr⟩

theorem seq_nothing : Le (P.seq nothing) P where
  done := by
    rintro w ⟨u, v, rfl, hu, rfl⟩
    rwa [List.append_nil]
  halts := by
    rintro s (hs | ⟨u, r, -, -, hr⟩)
    · exact hs
    · exact hr.elim

theorem nothing_seq : Le (nothing.seq P) P where
  done := by
    rintro w ⟨u, v, rfl, rfl, hv⟩
    exact hv
  halts := by
    rintro s (hs | ⟨u, r, rfl, rfl, hr⟩)
    · exact hs.elim
    · exact hr

theorem seq_assoc : Le ((P.seq Q).seq R) (P.seq (Q.seq R)) where
  done := by
    rintro w ⟨-, v, rfl, ⟨u, v', rfl, hu, hv'⟩, hv⟩
    exact ⟨u, v' ++ v, List.append_assoc .., hu, v', v, rfl, hv', hv⟩
  halts := by
    rintro s ((hs | ⟨u, r, rfl, hu, hr⟩) | ⟨-, r, rfl, ⟨u, v, rfl, hu, hv⟩, hr⟩)
    · exact .inl hs
    · exact .inr ⟨u, r, rfl, hu, .inl hr⟩
    · exact .inr ⟨u, v ++ r, List.append_assoc .., hu, .inr ⟨v, r, rfl, hv, hr⟩⟩

theorem assoc_seq : Le (P.seq (Q.seq R)) ((P.seq Q).seq R) where
  done := by
    rintro w ⟨u, -, rfl, hu, v, v', rfl, hv, hv'⟩
    exact ⟨u ++ v, v', (List.append_assoc ..).symm, ⟨u, v, rfl, hu, hv⟩, hv'⟩
  halts := by
    rintro s (hs | ⟨u, r, rfl, hu, hr | ⟨v, r, rfl, hv, hr⟩⟩)
    · exact .inl (.inl hs)
    · exact .inl (.inr ⟨u, r, rfl, hu, hr⟩)
    · exact .inr ⟨u ++ v, r, (List.append_assoc ..).symm, ⟨u, v, rfl, hu, hv⟩, hr⟩

theorem one_many : Le P P.many where
  done w hw := ⟨[w], (List.append_nil w).symm, List.forall_mem_singleton.mpr hw⟩
  halts s hs := ⟨[], s, rfl, fun _ h => absurd h List.not_mem_nil, hs⟩

theorem nothing_many : Le nothing P.many := by
  refine ⟨?_, fun s hs => hs.elim⟩
  rintro w rfl
  exact ⟨[], rfl, fun _ h => absurd h List.not_mem_nil⟩

theorem seq_many : Le (P.seq P.many) P.many where
  done := by
    rintro w ⟨u, v, rfl, hu, ws, rfl, hws⟩
    exact ⟨u :: ws, rfl, List.forall_mem_cons.mpr ⟨hu, hws⟩⟩
  halts := by
    rintro s (hs | ⟨u, r, rfl, hu, ws, r', rfl, hws, hr⟩)
    · exact ⟨[], s, rfl, fun _ h => absurd h List.not_mem_nil, hs⟩
    · exact ⟨u :: ws, r', by rw [List.flatten_cons, List.append_assoc], List.forall_mem_cons.mpr ⟨hu, hws⟩, hr⟩

end Piece

/-! Readers. -/

section Readers

variable {ε τ α β : Type} (refuses stops : ε → Prop)

/-- A run on `s` has taken such a piece off it, or was refused, or has stopped where such a piece stops it. -/
def Piece.Meets (P : Piece τ) (s : List τ) : EStateM.Result ε (List τ) α → Prop
  | .ok _ r => ∃ w, s = w ++ r ∧ P.Done w
  | .error e _ => refuses e ∨ stops e ∧ P.Halts s

/-- Whatever comes, the reader takes such a piece off it. -/
def Piece.Follows (P : Piece τ) (x : Act ε (List τ) α) : Prop := ∀ s, P.Meets refuses stops s (x s)

namespace Piece

variable {refuses stops} {P Q : Piece τ} {x : Act ε (List τ) α} {f : α → Act ε (List τ) β} {s : List τ}

theorem Meets.mono {res : EStateM.Result ε (List τ) α} (h : P.Meets refuses stops s res) (hle : Le P Q) :
    Q.Meets refuses stops s res := by
  cases res with
  | ok a r =>
    obtain ⟨w, rfl, hw⟩ := h
    exact ⟨w, rfl, hle.done w hw⟩
  | error e r => exact h.imp_right fun hs => ⟨hs.1, hle.halts s hs.2⟩

theorem Follows.mono (h : P.Follows refuses stops x) (hle : Le P Q) : Q.Follows refuses stops x :=
  fun s => (h s).mono hle

/-- A piece off the front, and another off what is left. -/
theorem Meets.append {u r : List τ} (hu : P.Done u) {res : EStateM.Result ε (List τ) β}
    (h : Q.Meets refuses stops r res) : (P.seq Q).Meets refuses stops (u ++ r) res := by
  cases res with
  | ok b r' =>
    obtain ⟨w, rfl, hw⟩ := h
    exact ⟨u ++ w, (List.append_assoc ..).symm, u, w, rfl, hu, hw⟩
  | error e r' => exact h.imp_right fun hs => ⟨hs.1, .inr ⟨u, r, rfl, hu, hs.2⟩⟩

theorem Meets.bind (h : P.Meets refuses stops s (x s)) (hf : ∀ a, Q.Follows refuses stops (f a)) :
    (P.seq Q).Meets refuses stops s ((x >>= f) s) := by
  cases hx : x s with
  | ok a r =>
    rw [hx] at h
    obtain ⟨u, rfl, hu⟩ := h
    rw [Act.bind_of_ok hx]
    exact (hf a r).append hu
  | error e r =>
    rw [hx] at h
    rw [Act.bind_of_error hx]
    exact h.imp_right fun hs => ⟨hs.1, .inl hs.2⟩

theorem Follows.bind (h : P.Follows refuses stops x) (hf : ∀ a, Q.Follows refuses stops (f a)) :
    (P.seq Q).Follows refuses stops (x >>= f) := fun s => (h s).bind hf

theorem follows_pure (a : α) : nothing.Follows refuses stops (pure a : Act ε (List τ) α) :=
  fun _ => ⟨[], rfl, rfl⟩

theorem follows_throw {e : ε} (h : refuses e) : P.Follows refuses stops (throw e : Act ε (List τ) α) :=
  fun _ => .inl h

/-- Behind a piece nothing more is taken. -/
theorem Meets.calm (h : P.Meets refuses stops s (x s)) (hf : ∀ a, nothing.Follows refuses stops (f a)) :
    P.Meets refuses stops s ((x >>= f) s) := (h.bind hf).mono seq_nothing

theorem Follows.calm (h : P.Follows refuses stops x) (hf : ∀ a, nothing.Follows refuses stops (f a)) :
    P.Follows refuses stops (x >>= f) := fun s => (h s).calm hf

theorem Meets.map (h : P.Meets refuses stops s (x s)) (g : α → β) : P.Meets refuses stops s ((g <$> x) s) := by
  rw [map_eq_pure_bind]
  exact h.calm fun a => follows_pure (g a)

theorem Follows.map (h : P.Follows refuses stops x) (g : α → β) : P.Follows refuses stops (g <$> x) :=
  fun s => (h s).map g

end Piece

end Readers

end ChiaGaming
