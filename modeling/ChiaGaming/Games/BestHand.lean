import ChiaGaming.Games.CalpokerFinal
import ChiaGaming.Games.CalpokerRanking
import ChiaGaming.Games.SpacepokerRanking

namespace ChiaGaming

/-! The search for the best hand and the ranking that it maximises, in both games. -/

/-- Positions of five of the cards that have the value. -/
def Selects (eval : List ℕ → Option (List ℕ)) (cards hand indices : List ℕ) : Prop :=
  ∃ l : List (ℕ × ℕ), l.Sublist (cards.zipIdx 0) ∧ l.length = 5 ∧ indices = l.map Prod.snd ∧
    eval (l.map Prod.fst) = some hand

theorem Calpoker.handcalc_selects {cards : List ℕ} (h5 : 5 ≤ cards.length) (hdeck : ∀ card ∈ cards, card < 52) :
    ∃ hand indices, Calpoker.handcalc cards = some (hand, indices) ∧ IsBest Calpoker.onehandcalc cards hand ∧
      Selects Calpoker.onehandcalc cards hand indices := by
  obtain ⟨hand, l, hcalc, hs, hl, heval, hbest⟩ := bestSelection_spec (fun i s => i :: s) []
    (fun l => Clvm.list (l.map .nat)) h5
    fun five hf hf5 => Calpoker.onehandcalc_isSome hf5 fun card hcard => hdeck card (hf.subset hcard)
  exact ⟨hand, _, hcalc, hbest, l, hs, hl, Calpoker.markAll_cons l, heval⟩

theorem Calpoker.orders : Orders Calpoker.categories {cards | Calpoker.FiveCards cards} Calpoker.Rates
    Calpoker.onehandcalc Calpoker.listCompare := by
  refine orders_of_value (fun cards h => h.exists_rates) (fun cards h5 c ks h => h.onehandcalc_eq h5) ?_
  intro cards h cards' h' v w hv hw
  obtain ⟨_, heq, hshape⟩ := Calpoker.onehandcalc_shaped h.five h.deck h.distinct
  obtain ⟨_, heq', hshape'⟩ := Calpoker.onehandcalc_shaped h'.five h'.deck h'.distinct
  obtain rfl := Option.some.inj (heq.symm.trans hv)
  obtain rfl := Option.some.inj (heq'.symm.trans hw)
  exact hshape.listCompare_eq hshape'

/-- Five ranks and the boost of their player. -/
def Spacepoker.Hand : Set (List ℕ × ℕ) := {hand | hand.1.length = 5 ∧ ∀ rank ∈ hand.1, rank < 16}

/-- The boost decides before the ranks do. -/
inductive Spacepoker.Rates (hand : List ℕ × ℕ) : Spacepoker.Category → List ℕ → Prop where
  | boosted {category : Spacepoker.Category} {ks : List ℕ} (h : Spacepoker.Rated hand.1 category ks) :
      Spacepoker.Rates hand category (hand.2 :: ks)

theorem Spacepoker.orders : Orders Spacepoker.categories Spacepoker.Hand Spacepoker.Rates
    (fun hand => Spacepoker.spaceHandEval hand.1 hand.2)
    (fun v w => some (deepCompare (handToClvm v) (handToClvm w))) := by
  refine orders_of_value ?_ ?_ fun _ _ _ _ _ _ _ _ => rfl
  · rintro hand ⟨h5, hlt⟩
    obtain ⟨category, ks, h⟩ := Spacepoker.exists_rated h5 hlt
    exact ⟨category, _, .boosted h⟩
  · rintro hand ⟨h5, hlt⟩ _ _ ⟨h⟩
    exact h.spaceHandEval_eq hand.2 hlt

/-- Of at least five cards both calculators look at every selection of five once and at no other, and
return the greatest value with positions that have it; the values of calpoker's five cards are ordered
as poker hands are, and those of space poker's five ranks as that game ranks them. -/
theorem bestHand_ranked :
    (∀ cards : List ℕ, 5 ≤ cards.length → (∀ card ∈ cards, card < 52) →
      (chooseEntries (fun i s => i :: s) [] 0 cards).Perm
        (((cards.zipIdx 0).sublistsLen 5).map (entryOf (fun i s => i :: s) [])) ∧
      ∃ hand indices, Calpoker.handcalc cards = some (hand, indices) ∧ IsBest Calpoker.onehandcalc cards hand ∧
        Selects Calpoker.onehandcalc cards hand indices) ∧
    (∀ (cards : List ℕ) (boost : ℕ), 5 ≤ cards.length → (∀ card ∈ cards, card < 16) →
      (chooseEntries bitMark 0 0 cards).Perm (((cards.zipIdx 0).sublistsLen 5).map (entryOf bitMark 0)) ∧
      ∃ hand bits, Spacepoker.spaceHandCalc cards boost = some (hand, bits) ∧
        IsBest (Spacepoker.spaceHandEval · boost) cards hand ∧
        bits < 2 ^ cards.length ∧ (pullFromBitfield cards bits).length = 5 ∧
        Spacepoker.spaceHandEval (pullFromBitfield cards bits) boost = some hand) ∧
    Orders Calpoker.categories {cards | Calpoker.FiveCards cards} Calpoker.Rates Calpoker.onehandcalc
      Calpoker.listCompare ∧
    Orders Spacepoker.categories Spacepoker.Hand Spacepoker.Rates (fun hand => Spacepoker.spaceHandEval hand.1 hand.2)
      (fun v w => some (deepCompare (handToClvm v) (handToClvm w))) := by
  refine ⟨fun cards h5 hdeck => ⟨?_, Calpoker.handcalc_selects h5 hdeck⟩,
    fun cards boost h5 hlt => ⟨?_, Spacepoker.spaceHandCalc_spec boost h5 hlt⟩, Calpoker.orders, Spacepoker.orders⟩
  · exact chooseEntries_zero_perm _ _ cards h5
  · exact chooseEntries_zero_perm _ _ cards h5

/-- Eight cards of calpoker and seven of space poker. -/
theorem bestHand_ranked_eight : (∃ hand indices,
    Calpoker.handcalc [3, 12, 13, 20, 21, 22, 28, 29] = some (hand, indices) ∧
      IsBest Calpoker.onehandcalc [3, 12, 13, 20, 21, 22, 28, 29] hand) ∧
    ∃ hand bits, Spacepoker.spaceHandCalc [2, 3, 4, 5, 6, 14, 14] 1 = some (hand, bits) ∧ bits < 128 := by
  obtain ⟨hcal, hspace, -⟩ := bestHand_ranked
  obtain ⟨-, hand, indices, hcalc, hbest, -⟩ := hcal [3, 12, 13, 20, 21, 22, 28, 29] (by decide) (by decide)
  obtain ⟨-, other, bits, hcalc', -, hbits, -⟩ := hspace [2, 3, 4, 5, 6, 14, 14] 1 (by decide) (by decide)
  exact ⟨⟨hand, indices, hcalc, hbest⟩, other, bits, hcalc', hbits⟩

end ChiaGaming
