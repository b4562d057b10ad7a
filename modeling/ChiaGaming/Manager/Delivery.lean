import ChiaGaming.Lib.Result
import ChiaGaming.Manager.Feed

namespace ChiaGaming

namespace TransactionManager

/-! Which of the transactions that wait in the queue reach the network. -/

section Delivery

variable {C B O : Type} (E : BundleEnv B)

/-- The puzzles of the transaction run on its solutions. -/
def Evaluable (bundle : B) : Prop := ∃ coins, E.expectedOutputCoins bundle = .ok coins

instance (bundle : B) : Decidable (Evaluable E bundle) :=
  match h : E.expectedOutputCoins bundle with
  | .ok coins => isTrue ⟨coins, h⟩
  | .error e => isFalse fun ⟨coins, hok⟩ => by
      rw [h] at hok
      cases hok

/-- A transaction that does not run and is not yet held under the coins it spends. -/
def Blocks (submitted : List (SubmittedTx B)) (bundle : B) : Prop :=
  ¬ Evaluable E bundle ∧ ∀ tx ∈ submitted, tx.spentCoinIds ≠ spentCoinIds E bundle

/-- What a call hands to the network: nothing if it fails. -/
def handedOver (s : TransactionManager C B O) : List B :=
  match drainSubmissions E s with
  | .ok bundles _ => bundles
  | .error _ _ => []

def queued (submissions : List (B × Option ℕ)) (s : TransactionManager C B O) :
    TransactionManager C B O :=
  { s with pendingSubmissions := s.pendingSubmissions ++ submissions }

/-- Of what waits, and of what comes to wait behind it, all that can be evaluated is handed over in
its order and once, and nothing is left waiting. -/
def DeliversEach (s : TransactionManager C B O) : Prop :=
  ∀ later : List (B × Option ℕ), (∀ p ∈ later, Evaluable E p.1) →
    let s₁ := queued later ((drainSubmissions E).after s)
    (handedOver E s ++ handedOver E s₁).filter (fun b => decide (Evaluable E b)) =
        ((s.pendingSubmissions ++ later).map Prod.fst).filter (fun b => decide (Evaluable E b)) ∧
      ((drainSubmissions E).after s₁).pendingSubmissions = []

variable {E} {submitted : List (SubmittedTx B)}

theorem newOutputs_ok {pending : List (B × Option ℕ)}
    (h : ∀ p ∈ pending, ¬ Blocks E submitted p.1) :
    ∃ outputs, newOutputs E submitted pending = .ok outputs := by
  induction pending with
  | nil => exact ⟨[], rfl⟩
  | cons p pending ih =>
    obtain ⟨bundle, expiry⟩ := p
    obtain ⟨others, hothers⟩ := ih fun q hq => h q (List.mem_cons_of_mem _ hq)
    unfold newOutputs
    by_cases hheld : submitted.any fun tx => tx.spentCoinIds = spentCoinIds E bundle
    · rw [if_pos hheld, hothers]
      exact ⟨none :: others, rfl⟩
    · have heval : Evaluable E bundle := by
        by_contra hnot
        refine h _ List.mem_cons_self ⟨hnot, fun tx htx heq => hheld ?_⟩
        exact List.any_eq_true.mpr ⟨tx, htx, decide_eq_true heq⟩
      obtain ⟨coins, hcoins⟩ := heval
      rw [if_neg hheld, hothers, hcoins]
      exact ⟨some coins :: others, rfl⟩

/-- The loop stops at the first transaction that blocks, wherever it stands. -/
theorem newOutputs_error {pending : List (B × Option ℕ)} {p : B × Option ℕ} (hp : p ∈ pending)
    (h : Blocks E submitted p.1) : ∃ e, newOutputs E submitted pending = .error e := by
  cases hr : newOutputs E submitted pending with
  | error e => exact ⟨e, rfl⟩
  | ok outputs =>
    exfalso
    induction pending generalizing outputs with
    | nil => cases hp
    | cons q pending ih =>
      obtain ⟨bundle, expiry⟩ := q
      unfold newOutputs at hr
      by_cases hheld : submitted.any fun tx => tx.spentCoinIds = spentCoinIds E bundle
      · rw [if_pos hheld] at hr
        obtain ⟨o, -, hr⟩ := bind_eq_ok.mp hr
        obtain ⟨others, hothers, -⟩ := bind_eq_ok.mp hr
        rcases List.mem_cons.mp hp with rfl | hp
        · obtain ⟨tx, htx, heq⟩ := List.any_eq_true.mp hheld
          exact h.2 tx htx (of_decide_eq_true heq)
        · exact ih hp others hothers
      · rw [if_neg hheld] at hr
        obtain ⟨o, ho, hr⟩ := bind_eq_ok.mp hr
        obtain ⟨others, hothers, -⟩ := bind_eq_ok.mp hr
        rcases List.mem_cons.mp hp with rfl | hp
        · cases hcoins : E.expectedOutputCoins bundle with
          | ok coins => exact h.1 ⟨coins, hcoins⟩
          | error e =>
            rw [hcoins] at ho
            cases ho
        · exact ih hp others hothers

variable {s : TransactionManager C B O}

theorem drainSubmissions_ok (h : ∀ p ∈ s.pendingSubmissions, ¬ Blocks E s.submitted p.1) :
    handedOver E s = s.pendingSubmissions.map Prod.fst ∧
      ((drainSubmissions E).after s).pendingSubmissions = [] := by
  obtain ⟨outputs, houtputs⟩ := newOutputs_ok h
  have hrun : drainSubmissions E s = .ok (s.pendingSubmissions.map Prod.fst) { s with
      pendingSubmissions := []
      submitted := (s.pendingSubmissions.zip outputs).foldl (track E) s.submitted } := by
    unfold drainSubmissions
    rw [Act.bind_of_ok (Act.get_apply s), houtputs, Act.bind_of_ok (Act.lift_ok outputs s)]
    rfl
  rw [handedOver, Act.after, hrun]
  exact ⟨rfl, rfl⟩

/-- A transaction that blocks holds back all the others, and stays where it is. -/
theorem drainSubmissions_blocked {p : B × Option ℕ} (hp : p ∈ s.pendingSubmissions)
    (h : Blocks E s.submitted p.1) : handedOver E s = [] ∧ (drainSubmissions E).after s = s := by
  obtain ⟨e, he⟩ := newOutputs_error hp h
  have hrun : drainSubmissions E s = .error e s := by
    unfold drainSubmissions
    rw [Act.bind_of_ok (Act.get_apply s), he, Act.bind_of_error (Act.lift_error e s)]
  rw [handedOver, Act.after, hrun]
  exact ⟨rfl, rfl⟩

theorem deliversEach_iff :
    DeliversEach E s ↔ ∀ p ∈ s.pendingSubmissions, ¬ Blocks E s.submitted p.1 := by
  constructor
  · intro h p hp hblocks
    obtain ⟨-, hnone⟩ := h [] (by simp)
    have hp' : p ∈ (queued [] s).pendingSubmissions := List.mem_append_left _ hp
    rw [(drainSubmissions_blocked hp hblocks).2,
      (drainSubmissions_blocked (s := queued [] s) hp' hblocks).2] at hnone
    rw [hnone] at hp'
    cases hp'
  · intro h later hlater
    obtain ⟨hhanded, hempty⟩ := drainSubmissions_ok h
    generalize (drainSubmissions E).after s = s₁ at hempty
    have hpending : (queued later s₁).pendingSubmissions = later := by
      rw [queued, hempty, List.nil_append]
    obtain ⟨hhanded', hempty'⟩ := drainSubmissions_ok (E := E) (s := queued later s₁) fun p hp hblocks =>
      hblocks.1 (hlater p (hpending ▸ hp))
    rw [hpending] at hhanded'
    exact ⟨by rw [hhanded, hhanded', List.map_append], hempty'⟩

end Delivery

/-! A shutdown spend from the peer that is no program, queued between two claims of ours. -/

namespace Malformed

/-- A spend with the coins that its puzzle creates, if it runs at all. -/
structure MockSpend where
  coin : CoinString
  creates : Option (List CoinString)

def outputs : List MockSpend → Except Error (List CoinString)
  | [] => .ok []
  | spend :: rest => do
    let coins ← match spend.creates with
      | some coins => .ok coins
      | none => .error (.strErr "expected_output_coins: our submitted spend failed to parse" [])
    let others ← outputs rest
    pure (coins ++ others)

def env : BundleEnv (List MockSpend) := ⟨id, List.map MockSpend.coin, outputs⟩

def claim (n : UInt8) : List MockSpend := [⟨⟨[n], [2], 3⟩, some [⟨[n], [4], 3⟩]⟩]

def fromPeer : List MockSpend := [⟨⟨[9], [2], 3⟩, none⟩]

def waiting (bundles : List (List MockSpend)) : TransactionManager Unit (List MockSpend) Unit :=
  { new () with pendingSubmissions := bundles.map fun bundle => (bundle, none) }

theorem blocks_fromPeer : Blocks env [] fromPeer := by
  refine ⟨?_, by simp⟩
  rintro ⟨coins, h⟩
  cases h

theorem claims_held_back : ¬ DeliversEach env (waiting [claim 1, fromPeer, claim 2]) := by
  intro h
  have hblocked := drainSubmissions_blocked (s := waiting [claim 1, fromPeer, claim 2])
    (p := (fromPeer, none)) (by simp [waiting]) blocks_fromPeer
  obtain ⟨-, hempty⟩ := h [] (by simp)
  rw [hblocked.2, (drainSubmissions_blocked (s := queued [] (waiting [claim 1, fromPeer, claim 2]))
    (p := (fromPeer, none)) (by simp [waiting, queued]) blocks_fromPeer).2] at hempty
  cases hempty

example : handedOver env (waiting [claim 1, fromPeer, claim 2]) = [] := rfl

end Malformed

end TransactionManager

end ChiaGaming
