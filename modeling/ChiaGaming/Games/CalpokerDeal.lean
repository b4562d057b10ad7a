import ChiaGaming.Games.Calpoker

namespace ChiaGaming.Calpoker

/-! Dealing gives sixteen different cards. -/

theorem mergein_length (outer inner : List ℕ) (offset : ℕ) :
    (mergein outer inner offset).length = outer.length + inner.length := by
  induction outer generalizing inner offset with
  | nil => simp [mergein]
  | cons o outer ih =>
    rw [mergein]
    induction inner with
    | nil => simp [mergeinAux]
    | cons x inner ihx =>
      rw [mergeinAux]
      split
      · rw [List.length_cons, ih]
        simp only [List.length_cons]
        omega
      · rw [List.length_cons, ihx]
        simp only [List.length_cons]
        omega

theorem le_of_mem_mergein {bound : ℕ} {outer inner : List ℕ} {offset : ℕ}
    (ho : ∀ o ∈ outer, bound ≤ o) (hi : ∀ x ∈ inner, bound ≤ x + offset) :
    ∀ y ∈ mergein outer inner offset, bound ≤ y := by
  induction outer generalizing inner offset with
  | nil => simpa [mergein] using hi
  | cons o outer ih =>
    have ho' : ∀ p ∈ outer, bound ≤ p := fun p hp => ho p (List.mem_cons_of_mem _ hp)
    rw [mergein]
    induction inner with
    | nil => exact ho
    | cons x inner ihx =>
      intro y hy
      rw [mergeinAux] at hy
      split at hy
      · rcases List.mem_cons.mp hy with rfl | hy
        · exact ho y List.mem_cons_self
        · refine ih ho' (fun z hz => ?_) y hy
          have := hi z hz
          omega
      · rcases List.mem_cons.mp hy with rfl | hy
        · exact hi x List.mem_cons_self
        · exact ihx (fun z hz => hi z (List.mem_cons_of_mem _ hz)) y hy

theorem lt_of_mem_mergein {n : ℕ} {outer inner : List ℕ} {offset : ℕ}
    (ho : ∀ o ∈ outer, o < n) (hi : ∀ x ∈ inner, x + offset + outer.length < n) :
    ∀ y ∈ mergein outer inner offset, y < n := by
  induction outer generalizing inner offset with
  | nil => simpa [mergein] using hi
  | cons o outer ih =>
    have ho' : ∀ p ∈ outer, p < n := fun p hp => ho p (List.mem_cons_of_mem _ hp)
    rw [List.length_cons] at hi
    rw [mergein]
    induction inner with
    | nil => exact ho
    | cons x inner ihx =>
      intro y hy
      rw [mergeinAux] at hy
      split at hy
      · rcases List.mem_cons.mp hy with rfl | hy
        · exact ho y List.mem_cons_self
        · refine ih ho' (fun z hz => ?_) y hy
          have := hi z hz
          omega
      · rcases List.mem_cons.mp hy with rfl | hy
        · have := hi x List.mem_cons_self
          omega
        · exact ihx (fun z hz => hi z (List.mem_cons_of_mem _ hz)) y hy

theorem mergein_pairwise {outer inner : List ℕ} {offset : ℕ} (ho : outer.Pairwise (· < ·))
    (hi : inner.Pairwise (· < ·)) : (mergein outer inner offset).Pairwise (· < ·) := by
  induction outer generalizing inner offset with
  | nil =>
    rw [mergein, List.pairwise_map]
    exact hi.imp fun h => by omega
  | cons o outer ih =>
    rw [mergein]
    rw [List.pairwise_cons] at ho
    induction inner with
    | nil => exact List.pairwise_cons.mpr ho
    | cons x inner ihx =>
      have hi' := List.pairwise_cons.mp hi
      rw [mergeinAux]
      split
      · rename_i hle
        refine List.pairwise_cons.mpr ⟨?_, ih ho.2 hi⟩
        refine le_of_mem_mergein (fun p hp => ho.1 p hp) (fun z hz => ?_)
        rcases List.mem_cons.mp hz with rfl | hz
        · omega
        · have := hi'.1 z hz
          omega
      · rename_i hlt
        refine List.pairwise_cons.mpr ⟨?_, ihx hi'.2⟩
        have hge : ∀ y ∈ mergein (o :: outer) inner offset, x + offset + 1 ≤ y := by
          refine le_of_mem_mergein (fun p hp => ?_) (fun z hz => ?_)
          · rcases List.mem_cons.mp hp with rfl | hp
            · omega
            · have := ho.1 p hp
              omega
          · have := hi'.1 z hz
            omega
        exact hge

theorem mergeover_length (outer inner : List ℕ) (offset : ℕ) :
    (mergeover outer inner offset).length = inner.length := by
  induction outer generalizing inner offset with
  | nil => simp [mergeover]
  | cons o outer ih =>
    rw [mergeover]
    induction inner with
    | nil => rfl
    | cons x inner ihx =>
      rw [mergeoverAux]
      split
      · exact ih _ _
      · rw [List.length_cons, ihx, List.length_cons]

theorem le_of_mem_mergeover {bound : ℕ} {outer inner : List ℕ} {offset : ℕ}
    (hi : ∀ x ∈ inner, bound ≤ x + offset) : ∀ y ∈ mergeover outer inner offset, bound ≤ y := by
  induction outer generalizing inner offset with
  | nil => simpa [mergeover] using hi
  | cons o outer ih =>
    rw [mergeover]
    induction inner with
    | nil => simp [mergeoverAux]
    | cons x inner ihx =>
      intro y hy
      rw [mergeoverAux] at hy
      split at hy
      · refine ih (fun z hz => ?_) y hy
        have := hi z hz
        omega
      · rcases List.mem_cons.mp hy with rfl | hy
        · exact hi x List.mem_cons_self
        · exact ihx (fun z hz => hi z (List.mem_cons_of_mem _ hz)) y hy

theorem lt_of_mem_mergeover {n : ℕ} {outer inner : List ℕ} {offset : ℕ}
    (hi : ∀ x ∈ inner, x + offset + outer.length < n) :
    ∀ y ∈ mergeover outer inner offset, y < n := by
  induction outer generalizing inner offset with
  | nil => simpa [mergeover] using hi
  | cons o outer ih =>
    rw [List.length_cons] at hi
    rw [mergeover]
    induction inner with
    | nil => simp [mergeoverAux]
    | cons x inner ihx =>
      intro y hy
      rw [mergeoverAux] at hy
      split at hy
      · refine ih (fun z hz => ?_) y hy
        have := hi z hz
        omega
      · rcases List.mem_cons.mp hy with rfl | hy
        · have := hi x List.mem_cons_self
          omega
        · exact ihx (fun z hz => hi z (List.mem_cons_of_mem _ hz)) y hy

theorem mergeover_pairwise {outer inner : List ℕ} {offset : ℕ} (hi : inner.Pairwise (· < ·)) :
    (mergeover outer inner offset).Pairwise (· < ·) := by
  induction outer generalizing inner offset with
  | nil =>
    rw [mergeover, List.pairwise_map]
    exact hi.imp fun h => by omega
  | cons o outer ih =>
    rw [mergeover]
    induction inner with
    | nil => exact .nil
    | cons x inner ihx =>
      have hi' := List.pairwise_cons.mp hi
      rw [mergeoverAux]
      split
      · exact ih hi
      · refine List.pairwise_cons.mpr ⟨?_, ihx hi'.2⟩
        have hge : ∀ y ∈ mergeover (o :: outer) inner offset, x + offset + 1 ≤ y := by
          refine le_of_mem_mergeover (fun z hz => ?_)
          have := hi'.1 z hz
          omega
        exact hge

theorem notMem_of_mem_mergeover {outer inner : List ℕ} {offset : ℕ} (ho : outer.Pairwise (· < ·))
    (hi : inner.Pairwise (· < ·)) : ∀ y ∈ mergeover outer inner offset, y ∉ outer := by
  induction outer generalizing inner offset with
  | nil => simp
  | cons o outer ih =>
    rw [mergeover]
    have ho' := List.pairwise_cons.mp ho
    induction inner with
    | nil => simp [mergeoverAux]
    | cons x inner ihx =>
      have hi' := List.pairwise_cons.mp hi
      intro y hy
      rw [mergeoverAux] at hy
      split at hy
      · rename_i hle
        have hge : o + 1 ≤ y := by
          refine le_of_mem_mergeover (fun z hz => ?_) y hy
          rcases List.mem_cons.mp hz with rfl | hz
          · omega
          · have := hi'.1 z hz
            omega
        rw [List.mem_cons, not_or]
        exact ⟨by omega, ih ho'.2 hi y hy⟩
      · rename_i hlt
        rcases List.mem_cons.mp hy with rfl | hy
        · rw [List.mem_cons, not_or]
          refine ⟨by omega, fun hmem => ?_⟩
          have := ho'.1 _ hmem
          omega
        · exact ihx hi'.2 y hy

theorem choose_spec (fuel numcards numchoose : ℕ) (randomness : ℤ) (h1 : 1 ≤ numchoose)
    (hle : numchoose ≤ numcards) (hf : numchoose ≤ 2 ^ fuel) :
    (choose (fuel + 1) numcards numchoose randomness).1.Pairwise (· < ·) ∧
      (choose (fuel + 1) numcards numchoose randomness).1.length = numchoose ∧
      ∀ c ∈ (choose (fuel + 1) numcards numchoose randomness).1, c < numcards := by
  induction fuel generalizing numcards numchoose randomness with
  | zero =>
    obtain rfl : numchoose = 1 := by omega
    have := Int.emod_lt_of_pos randomness (show (0 : ℤ) < numcards by omega)
    simp [choose]
    omega
  | succ fuel ih =>
    by_cases hone : numchoose = 1
    · have := Int.emod_lt_of_pos randomness (show (0 : ℤ) < numcards by omega)
      rw [choose, if_pos hone]
      simp [hone]
      omega
    · rw [choose, if_neg hone]
      have hpow : 2 ^ (fuel + 1) = 2 * 2 ^ fuel := by ring
      obtain ⟨hp1, hl1, hb1⟩ := ih numcards (numchoose / 2) randomness (by omega) (by omega)
        (by omega)
      set r2 := (choose (fuel + 1) numcards (numchoose / 2) randomness).2
      obtain ⟨hp2, hl2, hb2⟩ := ih (numcards - numchoose / 2) (numchoose - numchoose / 2) r2
        (by omega) (by omega) (by omega)
      refine ⟨mergein_pairwise hp1 hp2, ?_, ?_⟩
      · refine (mergein_length _ _ 0).trans ?_
        rw [hl1, hl2]
        omega
      · refine lt_of_mem_mergein hb1 (fun x hx => ?_)
        have := hb2 x hx
        rw [hl1]
        omega

/-- Enough fuel is as good as more of it. -/
theorem choose_fuel {fuel fuel' numcards numchoose : ℕ} (randomness : ℤ) (hpos : 1 ≤ numchoose)
    (hfuel : numchoose ≤ 2 ^ fuel) (hfuel' : numchoose ≤ 2 ^ fuel') :
    choose (fuel + 1) numcards numchoose randomness =
      choose (fuel' + 1) numcards numchoose randomness := by
  induction fuel generalizing fuel' numcards numchoose randomness with
  | zero =>
    obtain rfl : numchoose = 1 := by omega
    rw [choose, choose, if_pos rfl, if_pos rfl]
  | succ fuel ih =>
    by_cases hone : numchoose = 1
    · rw [choose, choose, if_pos hone, if_pos hone]
    · cases fuel' with
      | zero => omega
      | succ fuel' =>
        rw [Nat.pow_succ] at hfuel hfuel'
        have hhalf : ∀ (numcards : ℕ) (randomness : ℤ), choose (fuel + 1) numcards (numchoose / 2) randomness =
            choose (fuel' + 1) numcards (numchoose / 2) randomness :=
          fun _ r => ih r (by omega) (by omega) (by omega)
        have hrest : ∀ (numcards : ℕ) (randomness : ℤ),
            choose (fuel + 1) numcards (numchoose - numchoose / 2) randomness =
              choose (fuel' + 1) numcards (numchoose - numchoose / 2) randomness :=
          fun _ r => ih r (by omega) (by omega) (by omega)
        rw [choose, choose, if_neg hone, if_neg hone]
        simp only [hhalf, hrest]

/-- A sorted choice of `k` of the cards below `n`. -/
structure IsChoice (n k : ℕ) (cards : List ℕ) : Prop where
  sorted : cards.Pairwise (· < ·)
  length : cards.length = k
  below : ∀ c ∈ cards, c < n

theorem add_length_lt {c x : ℕ} {cards : List ℕ} (h : (c :: cards).Pairwise (· < ·))
    (hx : ∀ d ∈ c :: cards, d < x) : c + cards.length < x := by
  induction cards generalizing c with
  | nil => exact hx c List.mem_cons_self
  | cons d cards ih =>
    obtain ⟨hc, hcards⟩ := List.pairwise_cons.mp h
    have hrest := ih hcards fun e he => hx e (List.mem_cons_of_mem _ he)
    have hnext := hc d List.mem_cons_self
    rw [List.length_cons]
    omega

/-- Cards that lie above all of the outer ones are put after them, as they were. -/
theorem mergein_above {outer inner : List ℕ} {offset : ℕ} (ho : outer.Pairwise (· < ·))
    (hlow : ∀ x ∈ inner, ∀ o ∈ outer, o < x) (hge : ∀ x ∈ inner, outer.length + offset ≤ x) :
    mergein outer (inner.map (· - (outer.length + offset))) offset = outer ++ inner := by
  induction outer generalizing offset with
  | nil =>
    rw [mergein, List.map_map, List.nil_append]
    refine (List.map_congr_left fun x hx => ?_).trans inner.map_id
    have := hge x hx
    simp only [List.length_nil] at this
    simp only [List.length_nil, Function.comp, id]
    omega
  | cons o outer ih =>
    have ho' := List.pairwise_cons.mp ho
    have hshift : (o :: outer).length + offset = outer.length + (offset + 1) := by
      rw [List.length_cons]
      omega
    rw [hshift] at hge ⊢
    rw [mergein, List.cons_append, ← ih ho'.2 (fun x hx p hp => hlow x hx p (List.mem_cons_of_mem _ hp)) hge]
    cases inner with
    | nil =>
      rw [List.map_nil, mergeinAux]
      congr 1
      cases outer with
      | nil => rfl
      | cons p outer => rfl
    | cons x inner =>
      -- the cards that are left lie between this one and the first above
      have hroom : o + outer.length < x := add_length_lt ho (hlow x List.mem_cons_self)
      rw [List.map_cons, mergeinAux, if_pos (by omega)]

theorem choose_one (fuel : ℕ) {n : ℕ} {cards : List ℕ} (h : IsChoice n 1 cards) (left : ℤ) :
    ∃ randomness, choose (fuel + 1) n 1 randomness = (cards, left) := by
  obtain ⟨c, rfl⟩ := List.length_eq_one_iff.mp h.length
  have hc : c < n := h.below c List.mem_cons_self
  refine ⟨c + left * n, ?_⟩
  rw [choose, if_pos rfl, Int.add_mul_emod_self_right, Int.add_mul_ediv_right _ _ (by omega),
    Int.emod_eq_of_lt (by omega) (by omega), Int.ediv_eq_zero_of_lt (by omega) (by omega)]
  simp

/-- Every choice is made from some randomness, whatever randomness is to be left. -/
theorem choose_surjective (fuel : ℕ) {n k : ℕ} {cards : List ℕ} (h : IsChoice n k cards) (hpos : 1 ≤ k)
    (hfuel : k ≤ 2 ^ fuel) (left : ℤ) :
    ∃ randomness, choose (fuel + 1) n k randomness = (cards, left) := by
  induction fuel generalizing n k cards left with
  | zero =>
    obtain rfl : k = 1 := by omega
    exact choose_one 0 h left
  | succ fuel ih =>
    by_cases hone : k = 1
    · subst hone
      exact choose_one (fuel + 1) h left
    · rw [Nat.pow_succ] at hfuel
      have hsplit := List.pairwise_append.mp ((List.take_append_drop (k / 2) cards).symm ▸ h.sorted)
      obtain ⟨hlower, hupper, hacross⟩ := hsplit
      have hlength : (cards.take (k / 2)).length = k / 2 := by
        rw [List.length_take, h.length]
        omega
      -- each upper card has at least the lower half below it
      have hge : ∀ x ∈ cards.drop (k / 2), (cards.take (k / 2)).length + 0 ≤ x := by
        intro x hx
        have hnodup : (cards.take (k / 2)).Nodup := hlower.imp Nat.ne_of_lt
        have hsub : cards.take (k / 2) ⊆ List.range x := fun c hc =>
          List.mem_range.mpr (hacross c hc x hx)
        have := (hnodup.subperm hsub).length_le
        rw [List.length_range] at this
        exact this
      have hfirst : IsChoice n (k / 2) (cards.take (k / 2)) :=
        ⟨hlower, hlength, fun c hc => h.below c (List.mem_of_mem_take hc)⟩
      have hsecond : IsChoice (n - k / 2) (k - k / 2) ((cards.drop (k / 2)).map (· - (k / 2))) := by
        rw [hlength, Nat.add_zero] at hge
        refine ⟨?_, ?_, ?_⟩
        · rw [List.pairwise_map]
          refine hupper.imp_of_mem fun ha hb hab => ?_
          have := hge _ ha
          omega
        · rw [List.length_map, List.length_drop, h.length]
        · intro c hc
          obtain ⟨x, hx, rfl⟩ := List.mem_map.mp hc
          have := h.below x (List.mem_of_mem_drop hx)
          have := hge x hx
          omega
      obtain ⟨middle, hmiddle⟩ := ih hsecond (by omega) (by omega) left
      obtain ⟨randomness, hrandomness⟩ := ih hfirst (by omega) (by omega) middle
      refine ⟨randomness, ?_⟩
      have hmerge := @mergein_above _ _ 0 hlower (fun x hx c hc => hacross c hc x hx) hge
      rw [hlength, Nat.add_zero, List.take_append_drop] at hmerge
      rw [choose, if_neg hone]
      simp only [hrandomness, hmiddle, hmerge]

/-- A hand that can be asked for. -/
structure Hand (n k : ℕ) where
  cards : List ℕ
  choice : IsChoice n k cards
  pos : 1 ≤ k

/-- Both hands have eight cards below 52, and all sixteen are different. -/
theorem makeCards_spec (randomness : ℤ) :
    (makeCards randomness).1.length = 8 ∧ (makeCards randomness).2.length = 8 ∧
      ((makeCards randomness).1 ++ (makeCards randomness).2).Nodup ∧
      ∀ c ∈ (makeCards randomness).1 ++ (makeCards randomness).2, c < 52 := by
  obtain ⟨hpa, hla, hba⟩ := choose_spec 3 52 8 randomness (by omega) (by omega) (by omega)
  obtain ⟨hpb, hlb, hbb⟩ := choose_spec 3 44 8 (choose 4 52 8 randomness).2 (by omega) (by omega)
    (by omega)
  have hb : (makeCards randomness).2 = mergeover (choose 4 52 8 randomness).1
    (choose 4 44 8 (choose 4 52 8 randomness).2).1 0 := rfl
  have ha : (makeCards randomness).1 = (choose 4 52 8 randomness).1 := rfl
  rw [ha, hb]
  refine ⟨hla, by rw [mergeover_length, hlb], ?_, ?_⟩
  · rw [List.nodup_append]
    refine ⟨hpa.imp Nat.ne_of_lt, (mergeover_pairwise hpb).imp Nat.ne_of_lt, ?_⟩
    intro c hc d hd hcd
    exact notMem_of_mem_mergeover hpa hpb d hd (hcd ▸ hc)
  · intro c hc
    rcases List.mem_append.mp hc with hc | hc
    · exact hba c hc
    · refine lt_of_mem_mergeover (fun x hx => ?_) c hc
      have := hbb x hx
      rw [hla]
      omega

/-- The hands that are dealt are two disjoint choices of eight cards, and every choice can be dealt. -/
theorem deals_every_hand :
    (∀ randomness, IsChoice 52 8 (makeCards randomness).1 ∧ IsChoice 52 8 (makeCards randomness).2 ∧
      (makeCards randomness).1.Disjoint (makeCards randomness).2) ∧
    ∀ n k (hand : Hand n k), ∃ randomness, ∀ more,
      (choose (k + 1 + more) n k randomness).1 = hand.cards := by
  refine ⟨fun randomness => ?_, fun n k hand => ?_⟩
  · obtain ⟨hla, hlb, hnodup, hbelow⟩ := makeCards_spec randomness
    obtain ⟨hpa, -, -⟩ := choose_spec 3 52 8 randomness (by omega) (by omega) (by omega)
    obtain ⟨hpb, -, -⟩ := choose_spec 3 44 8 (choose 4 52 8 randomness).2 (by omega) (by omega)
      (by omega)
    refine ⟨⟨hpa, hla, fun c hc => hbelow c (List.mem_append_left _ hc)⟩,
      ⟨mergeover_pairwise hpb, hlb, fun c hc => hbelow c (List.mem_append_right _ hc)⟩, ?_⟩
    exact List.disjoint_of_nodup_append hnodup
  · have hfuel : k ≤ 2 ^ k := (Nat.lt_two_pow_self).le
    obtain ⟨randomness, hrandomness⟩ := choose_surjective k hand.choice hand.pos hfuel 0
    refine ⟨randomness, fun more => ?_⟩
    rw [Nat.add_right_comm, ← choose_fuel randomness hand.pos hfuel
      (hfuel.trans (Nat.pow_le_pow_right (by decide) (Nat.le_add_right k more))), hrandomness]

end ChiaGaming.Calpoker
