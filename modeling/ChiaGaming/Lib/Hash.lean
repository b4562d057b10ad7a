import ChiaGaming.Lib.Clvm

namespace ChiaGaming

def shatree (sha256 : Bytes → Bytes) : Clvm → Bytes
  | .atom b => sha256 (1 :: b)
  | .pair f r => sha256 (2 :: (shatree sha256 f ++ shatree sha256 r))

/-- What a collision resistant hash of fixed width is used for: a digest at the front of a
longer string determines its input, and no digest is empty. -/
structure CollisionFree (h : Bytes → Bytes) : Prop where
  split : ∀ a b u v, h a ++ u = h b ++ v → a = b ∧ u = v
  ne_nil : ∀ a, h a ≠ []

namespace CollisionFree

variable {h : Bytes → Bytes}

theorem injective (hh : CollisionFree h) : Function.Injective h := by
  intro a b hab
  exact (hh.split a b [] [] (by rw [hab])).1

theorem shatree_append {f f' : Clvm} {u v : Bytes} (hh : CollisionFree h)
    (he : shatree h f ++ u = shatree h f' ++ v) : shatree h f = shatree h f' ∧ u = v := by
  have hdigest : ∀ g, ∃ x, shatree h g = h x := by
    intro g
    cases g with
    | atom b => exact ⟨_, rfl⟩
    | pair f r => exact ⟨_, rfl⟩
  obtain ⟨x, hx⟩ := hdigest f
  obtain ⟨y, hy⟩ := hdigest f'
  rw [hx, hy] at he ⊢
  obtain ⟨rfl, huv⟩ := hh.split _ _ _ _ he
  exact ⟨rfl, huv⟩

theorem shatree_injective (hh : CollisionFree h) : Function.Injective (shatree h) := by
  intro a
  induction a with
  | atom b =>
    intro c hc
    cases c with
    | atom d =>
      have := hh.injective hc
      simpa using this
    | pair f r =>
      have := hh.injective hc
      simp at this
  | pair f r ihf ihr =>
    intro c hc
    cases c with
    | atom d =>
      have := hh.injective hc
      simp at this
    | pair f' r' =>
      have hd := hh.injective hc
      rw [List.cons.injEq] at hd
      obtain ⟨hf, hr⟩ := shatree_append hh hd.2
      rw [ihf hf, ihr hr]

end CollisionFree

/-! A collision-free function that can be evaluated: the input behind its own length, the
length in base 255 with digits one to 255 and a zero at the end. -/

def lengthCode : ℕ → ℕ → Bytes
  | 0, _ => [0]
  | fuel + 1, n =>
    if n = 0 then [0] else UInt8.ofNat (n % 255 + 1) :: lengthCode fuel (n / 255)

def frame (b : Bytes) : Bytes := lengthCode b.length b.length ++ b

theorem digit_toNat (n : ℕ) : (UInt8.ofNat (n % 255 + 1)).toNat = n % 255 + 1 := by
  rw [UInt8.toNat_ofNat']
  omega

theorem lengthCode_split (fuel gas n m : ℕ) (u v : Bytes) (hn : n ≤ fuel) (hm : m ≤ gas)
    (h : lengthCode fuel n ++ u = lengthCode gas m ++ v) : n = m ∧ u = v := by
  have zero_ne : ∀ k : ℕ, (0 : UInt8) ≠ UInt8.ofNat (k % 255 + 1) := by
    intro k hk
    have := congrArg UInt8.toNat hk
    rw [digit_toNat] at this
    simp at this
  induction fuel generalizing gas n m with
  | zero =>
    obtain rfl : n = 0 := by omega
    cases gas with
    | zero =>
      obtain rfl : m = 0 := by omega
      simpa [lengthCode] using h
    | succ gas =>
      rw [lengthCode, lengthCode] at h
      split at h
      · simp_all
      · rw [List.cons_append, List.cons_append, List.cons.injEq] at h
        exact absurd h.1 (zero_ne m)
  | succ fuel ih =>
    rw [lengthCode] at h
    split at h
    · rename_i h0
      subst h0
      cases gas with
      | zero =>
        obtain rfl : m = 0 := by omega
        simpa [lengthCode] using h
      | succ gas =>
        rw [lengthCode] at h
        split at h
        · simp_all
        · rw [List.cons_append, List.cons_append, List.cons.injEq] at h
          exact absurd h.1 (zero_ne m)
    · cases gas with
      | zero =>
        rw [lengthCode, List.cons_append, List.cons_append, List.cons.injEq] at h
        exact absurd h.1.symm (zero_ne n)
      | succ gas =>
        rw [lengthCode] at h
        split at h
        · rw [List.cons_append, List.cons_append, List.cons.injEq] at h
          exact absurd h.1.symm (zero_ne n)
        · rw [List.cons_append, List.cons_append, List.cons.injEq] at h
          have hd := congrArg UInt8.toNat h.1
          rw [digit_toNat, digit_toNat] at hd
          obtain ⟨hq, huv⟩ := ih gas (n / 255) (m / 255) (by omega) (by omega) h.2
          exact ⟨by omega, huv⟩

theorem lengthCode_ne_nil (fuel n : ℕ) : lengthCode fuel n ≠ [] := by
  cases fuel with
  | zero => simp [lengthCode]
  | succ fuel =>
    rw [lengthCode]
    split <;> simp

theorem frame_collisionFree : CollisionFree frame where
  split a b u v h := by
    simp only [frame, List.append_assoc] at h
    obtain ⟨hl, hr⟩ := lengthCode_split _ _ _ _ _ _ le_rfl le_rfl h
    exact List.append_inj hr hl
  ne_nil a := by simp [frame, lengthCode_ne_nil]

/-- The same behind a one, with thirty-two bytes in the place of one word. -/
def abridged (word b : Bytes) : Bytes :=
  if 1 :: frame b = word then List.replicate 32 4 else 1 :: frame b

theorem abridged_collisionFree (word : Bytes) : CollisionFree (abridged word) where
  split a b u v h := by
    have hframe : ∀ {a b : Bytes}, 1 :: frame a = word → 1 :: frame b = word → a = b := by
      intro a b ha hb
      exact frame_collisionFree.injective (List.cons.inj (ha.trans hb.symm)).2
    rw [abridged, abridged] at h
    split at h
    · rename_i ha
      split at h
      · rename_i hb
        exact ⟨hframe ha hb, List.append_cancel_left h⟩
      · have hhead := (List.cons.inj h).1
        exact absurd hhead (by decide)
    · split at h
      · have hhead := (List.cons.inj h).1
        exact absurd hhead (by decide)
      · exact frame_collisionFree.split _ _ _ _ (List.cons.inj h).2
  ne_nil a := by
    rw [abridged]
    split <;> simp

end ChiaGaming
