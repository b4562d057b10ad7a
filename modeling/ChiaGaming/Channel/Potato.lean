import ChiaGaming.Channel.Dispute
import ChiaGaming.Lib.Result

namespace ChiaGaming

/-! What sending and receiving the potato comes to, once for all callers. -/

theorem createdCoin?_createCoin (ph : Hash) (amount : ℕ) :
    createdCoin? (createCoin ph amount) = some (ph, amount) := by
  simp [createdCoin?, createCoin, Clvm.properList, Clvm.nat]

theorem createdCoins_createCoin (coins : List (Hash × ℕ)) :
    createdCoins (.list (coins.map fun c => createCoin c.1 c.2)) = .ok coins := by
  have h : ∀ c : Hash × ℕ, createdCoin? (createCoin c.1 c.2) = some c := fun c =>
    createdCoin?_createCoin c.1 c.2
  rw [createdCoins, Clvm.properList_list]
  simp [List.filterMap_map, h]

namespace ChannelState

variable (E : ChannelEnv) (ch : ChannelState)

/-- The channel spend that creates an unroll coin. -/
def spendConditions (args : UnrollArgs) : Clvm :=
  .list [createCoin (args.puzzleHash E.sha256 E.unrollPuzzleHash) ch.channelCoin.amount]

/-- A player's half of a channel spend. -/
def channelHalf (conditions : Clvm) : Aggsig :=
  partialSign ch.privateKeys.myChannelCoinPrivateKey ch.getAggregateChannelPublicKey
    (channelSpendMessage E (ch.channelCoin.toCoinId E.sha256) conditions)

theorem getSolutionAndSignatureFromConditions_createCoin {coins : List (Hash × ℕ)}
    (h : coins ≠ []) :
    ch.getSolutionAndSignatureFromConditions E (.list (coins.map fun c => createCoin c.1 c.2)) =
      .ok {
        solution := solutionForConditions (.list (coins.map fun c => createCoin c.1 c.2))
        conditions := .list (coins.map fun c => createCoin c.1 c.2)
        message := channelSpendMessage E (ch.channelCoin.toCoinId E.sha256)
          (.list (coins.map fun c => createCoin c.1 c.2))
        signature := ch.channelHalf E (.list (coins.map fun c => createCoin c.1 c.2)) } := by
  rw [getSolutionAndSignatureFromConditions, standardSolutionPartial, createdCoins_createCoin,
    ok_bind, if_neg h]
  rfl

/-- The spend of the channel coin that creates the unroll coin of the arguments. -/
def spendOf (args : UnrollArgs) : BrokenOutCoinSpendInfo where
  solution := solutionForConditions (ch.spendConditions E args)
  conditions := ch.spendConditions E args
  message := channelSpendMessage E (ch.channelCoin.toCoinId E.sha256) (ch.spendConditions E args)
  signature := ch.channelHalf E (ch.spendConditions E args)

theorem createConditionsAndSignatureOfChannelCoin_eq {u : UnrollCoin} {args : UnrollArgs}
    (h : u.makeCurriedUnrollPuzzle E ch.getAggregateUnrollPublicKey = .ok args) :
    ch.createConditionsAndSignatureOfChannelCoin E u = .ok (ch.spendOf E args) := by
  rw [createConditionsAndSignatureOfChannelCoin, h, ok_bind]
  exact ch.getSolutionAndSignatureFromConditions_createCoin E
    (List.cons_ne_nil (args.puzzleHash E.sha256 E.unrollPuzzleHash, ch.channelCoin.amount) [])

theorem verifyChannelCoinFromPeerSignatures_spendOf (half : Aggsig) (args : UnrollArgs) :
    ch.verifyChannelCoinFromPeerSignatures E half (ch.spendConditions E args) =
      if verify ch.getAggregateChannelPublicKey (ch.spendOf E args).message
          (ch.channelHalf E (ch.spendConditions E args) + half) then
        .ok { ch.spendOf E args with signature := ch.channelHalf E (ch.spendConditions E args) + half }
      else .error (.strErr "failed to verify signature" []) := by
  have hspend : ch.getSolutionAndSignatureFromConditions E (ch.spendConditions E args) =
      .ok (ch.spendOf E args) :=
    ch.getSolutionAndSignatureFromConditions_createCoin E
      (List.cons_ne_nil (args.puzzleHash E.sha256 E.unrollPuzzleHash, ch.channelCoin.amount) [])
  rw [verifyChannelCoinFromPeerSignatures, hspend, ok_bind]
  rfl

/-! The unroll that the state stands for under a number: zero for the first, the next number for
the state that is to come, whoever moves to it. -/

/-- The conditions of the unroll, without and with the time lock. -/
def conditionsAt (n : ℕ) : Clvm :=
  ({ ch.latestSentUnroll.coin with stateNumber := n } :
    UnrollCoin).computeUnrollCoinConditions ch.currentInputs

def timeoutConditionsAt (n : ℕ) : Clvm :=
  UnrollCoin.timeoutConditionsOf (ch.conditionsAt n) ch.unrollAdvanceTimeout

def argsAt (n : ℕ) : UnrollArgs :=
  ch.unrollArgs E n (shatree E.sha256 (ch.timeoutConditionsAt n))

def unrollCoinAt (n : ℕ) : UnrollCoin :=
  { ch.latestSentUnroll.coin with stateNumber := n }.update E
    ch.privateKeys.myUnrollCoinPrivateKey ch.theirUnrollCoinPublicKey ch.currentInputs

/-- A player's half of a preemption. -/
def unrollHalf (conditions : Clvm) : Aggsig :=
  partialSign ch.privateKeys.myUnrollCoinPrivateKey ch.getAggregateUnrollPublicKey
    (shatree E.sha256 conditions)

def recordAt (n : ℕ) : Hash × HistoricalUnrollSpendInfo :=
  ((ch.argsAt E n).puzzleHash E.sha256 E.unrollPuzzleHash, {
    stateNumber := n
    conditionsHash := shatree E.sha256 (ch.timeoutConditionsAt n)
    timeoutConditions := ch.timeoutConditionsAt n })

/-- Our signatures for the state under a number. -/
def signaturesAt (n : ℕ) : StateUpdateSignatures :=
  ⟨ch.channelHalf E (ch.spendConditions E (ch.argsAt E n)), ch.unrollHalf E (ch.conditionsAt n)⟩

theorem unrollCoinAt_outcome? (n : ℕ) : (ch.unrollCoinAt E n).outcome? = .ok {
    conditions := ch.timeoutConditionsAt n
    conditionsWithoutHash := ch.conditionsAt n
    stateNumber := n
    hash := shatree E.sha256 (ch.timeoutConditionsAt n)
    signature := ch.unrollHalf E (ch.conditionsAt n) } := rfl

theorem makeCurriedUnrollPuzzle_at (n : ℕ) :
    (ch.unrollCoinAt E n).makeCurriedUnrollPuzzle E ch.getAggregateUnrollPublicKey =
      .ok (ch.argsAt E n) := rfl

theorem recordOf_at (n : ℕ) (signatures : StateUpdateSignatures) :
    ch.recordOf E ⟨ch.unrollCoinAt E n, signatures⟩ = .ok (ch.recordAt E n) := rfl

/-! Sending. -/

/-- The state after the potato has left. -/
def sent : ChannelState :=
  { ch with
    stateNumber := ch.stateNumber + 1
    latestSentUnroll := ⟨ch.unrollCoinAt E (ch.stateNumber + 1), .default⟩
    unrollPuzzleHashMap := insertRecord (ch.recordAt E (ch.stateNumber + 1)) ch.unrollPuzzleHashMap
    havePotato := false }

theorem updateCachedUnrollState_eq :
    updateCachedUnrollState E ch = .ok (ch.signaturesAt E (ch.stateNumber + 1)) (ch.sent E) := by
  have hspend : (ch.sent E).createConditionsAndSignatureOfChannelCoin E (ch.nextUnrollCoin E) =
      .ok (ch.spendOf E (ch.argsAt E (ch.stateNumber + 1))) :=
    (ch.sent E).createConditionsAndSignatureOfChannelCoin_eq E (ch.makeCurriedUnrollPuzzle_at E _)
  have hrun : updateCachedUnrollState E ch = (do
      let spend ← Act.lift ((ch.sent E).createConditionsAndSignatureOfChannelCoin E
        (ch.nextUnrollCoin E))
      let ourHalf ← Act.lift (ch.nextUnrollCoin E).getUnrollCoinSignature
      pure (⟨spend.signature, ourHalf⟩ : StateUpdateSignatures)) (ch.sent E) := rfl
  rw [hrun, hspend]
  rfl

/-! Receiving. -/

/-- The state after the potato has come. -/
def received (signatures : StateUpdateSignatures) : ChannelState :=
  { ch with
    pendingSettlements := []
    stateNumber := ch.stateNumber + 1
    latestReceivedUnroll := some ⟨ch.unrollCoinAt E (ch.stateNumber + 1), signatures⟩
    unrollPuzzleHashMap := insertRecord (ch.recordAt E (ch.stateNumber + 1)) ch.unrollPuzzleHashMap
    havePotato := true
    cachedRedoActions := ch.cachedRedoActions.filter fun entry =>
      match entry with
      | .cachedAcceptSettlement _ => true
      | _ => false }

/-- Both halves of the signatures for the state under a number are right. -/
def Verifies (n : ℕ) (signatures : StateUpdateSignatures) : Prop :=
  verify ch.getAggregateUnrollPublicKey (shatree E.sha256 (ch.conditionsAt n))
      (signatures.unrollPreemptHalfSig + ch.unrollHalf E (ch.conditionsAt n)) ∧
    verify ch.getAggregateChannelPublicKey (ch.spendOf E (ch.argsAt E n)).message
      (ch.channelHalf E (ch.spendConditions E (ch.argsAt E n)) + signatures.channelHalfSig)

/-- What a peer with one private key behind each of its public keys has to sign. -/
def peerSignaturesAt (channelKey unrollKey : PrivateKey) (n : ℕ) : StateUpdateSignatures :=
  ⟨partialSign channelKey ch.getAggregateChannelPublicKey (ch.spendOf E (ch.argsAt E n)).message,
    partialSign unrollKey ch.getAggregateUnrollPublicKey (shatree E.sha256 (ch.conditionsAt n))⟩

theorem verifies_iff {channelKey unrollKey : PrivateKey} {n : ℕ}
    {signatures : StateUpdateSignatures}
    (hc : ch.theirChannelCoinPublicKey = publicKey channelKey)
    (hu : ch.theirUnrollCoinPublicKey = publicKey unrollKey) :
    ch.Verifies E n signatures ↔ signatures = ch.peerSignaturesAt E channelKey unrollKey n := by
  obtain ⟨channelHalfSig, unrollHalfSig⟩ := signatures
  have hunroll : verify ch.getAggregateUnrollPublicKey (shatree E.sha256 (ch.conditionsAt n))
      (unrollHalfSig + ch.unrollHalf E (ch.conditionsAt n)) ↔
        unrollHalfSig = partialSign unrollKey ch.getAggregateUnrollPublicKey
          (shatree E.sha256 (ch.conditionsAt n)) := by
    rw [add_comm, unrollHalf, getAggregateUnrollPublicKey, hu]
    exact verify_add_partialSign
  have hchannel : verify ch.getAggregateChannelPublicKey (ch.spendOf E (ch.argsAt E n)).message
      (ch.channelHalf E (ch.spendConditions E (ch.argsAt E n)) + channelHalfSig) ↔
        channelHalfSig = partialSign channelKey ch.getAggregateChannelPublicKey
          (ch.spendOf E (ch.argsAt E n)).message := by
    rw [channelHalf, getAggregateChannelPublicKey, hc]
    exact verify_add_partialSign
  rw [Verifies, hunroll, hchannel, peerSignaturesAt, StateUpdateSignatures.mk.injEq]
  exact and_comm

/-- The spend that the state under a number can be published with. -/
def publishAt (n : ℕ) (signatures : StateUpdateSignatures) : ChannelCoinSpendInfo where
  solution := solutionForConditions (ch.spendConditions E (ch.argsAt E n))
  conditions := ch.spendConditions E (ch.argsAt E n)
  aggsig := ch.channelHalf E (ch.spendConditions E (ch.argsAt E n)) + signatures.channelHalfSig

/-- A batch's signatures are accepted exactly if both halves verify. -/
theorem verifyReceivedBatchSignatures_eq_ok_iff {signatures : StateUpdateSignatures}
    {spend : ChannelCoinSpendInfo} {ch' : ChannelState} :
    verifyReceivedBatchSignatures E signatures ch = .ok spend ch' ↔
      ch.Verifies E (ch.stateNumber + 1) signatures ∧
        spend = ch.publishAt E (ch.stateNumber + 1) signatures ∧
        ch' = ch.received E signatures := by
  have hverify : (({ ch with pendingSettlements := [] } : ChannelState).nextUnrollCoin E).verify E
      ({ ch with pendingSettlements := [] } : ChannelState).getAggregateUnrollPublicKey
      signatures.unrollPreemptHalfSig = .ok (verify ch.getAggregateUnrollPublicKey
        (shatree E.sha256 (ch.conditionsAt (ch.stateNumber + 1)))
        (signatures.unrollPreemptHalfSig + ch.unrollHalf E (ch.conditionsAt (ch.stateNumber + 1)))) := rfl
  have hspend : ({ ch with pendingSettlements := [] } :
      ChannelState).createConditionsAndSignatureOfChannelCoin E
        (({ ch with pendingSettlements := [] } : ChannelState).nextUnrollCoin E) =
      .ok (ch.spendOf E (ch.argsAt E (ch.stateNumber + 1))) :=
    ch.createConditionsAndSignatureOfChannelCoin_eq E (ch.makeCurriedUnrollPuzzle_at E _)
  have hpeer : ({ ch with pendingSettlements := [] } :
      ChannelState).verifyChannelCoinFromPeerSignatures E signatures.channelHalfSig
        (ch.spendOf E (ch.argsAt E (ch.stateNumber + 1))).conditions = _ :=
    ch.verifyChannelCoinFromPeerSignatures_spendOf E _ (ch.argsAt E (ch.stateNumber + 1))
  simp only [verifyReceivedBatchSignatures, receivedPotatoVerifySignatures, Act.bind_apply,
    Act.modify_apply, Act.get_apply, hverify, hspend, Act.lift_ok, Verifies]
  by_cases hu : verify ch.getAggregateUnrollPublicKey (shatree E.sha256 (ch.conditionsAt (ch.stateNumber + 1)))
      (signatures.unrollPreemptHalfSig + ch.unrollHalf E (ch.conditionsAt (ch.stateNumber + 1)))
  · by_cases hc : verify ch.getAggregateChannelPublicKey (ch.spendOf E (ch.argsAt E (ch.stateNumber + 1))).message
        (ch.channelHalf E (ch.spendConditions E (ch.argsAt E (ch.stateNumber + 1))) + signatures.channelHalfSig)
    · rw [if_pos hc] at hpeer
      simp only [hu, hc, not_true_eq_false, if_false, Act.bind_apply, Act.lift_ok, hpeer,
        true_and, eq_comm (a := spend), eq_comm (a := ch')]
      exact EStateM.Result.ok.injEq _ _ _ _ ▸ Iff.rfl
    · rw [if_neg hc] at hpeer
      simp only [hu, hc, not_true_eq_false, if_false, Act.bind_apply, Act.lift_ok, hpeer,
        Act.lift_error]
      simp
  · simp [hu]

/-! The handshake. -/

/-- A new channel: state zero is signed on our side. -/
def opened (s : Setup) : ChannelState :=
  { fresh E s with
    latestSentUnroll := ⟨(fresh E s).unrollCoinAt E 0, .default⟩
    unrollPuzzleHashMap := [(fresh E s).recordAt E 0]
    channelCoinSpend := ⟨(fresh E s).channelCoin, .standard s.channelKey,
      ((fresh E s).spendOf E ((fresh E s).argsAt E 0)).solution,
      ((fresh E s).spendOf E ((fresh E s).argsAt E 0)).signature⟩ }

/-- What a new channel is checked for. -/
structure Setup.Valid (s : Setup) : Prop where
  channelKeys : s.theirChannelPubkey ≠ publicKey s.privateKeys.myChannelCoinPrivateKey
  unrollKeys : s.theirUnrollPubkey ≠ publicKey s.privateKeys.myUnrollCoinPrivateKey
  timeout : s.unrollAdvanceTimeout ≠ 0

theorem new_eq_ok_iff {s : Setup} {ch : ChannelState} :
    new E s = .ok ch ↔ s.Valid ∧ ch = opened E s := by
  have hspend : (fresh E s).createConditionsAndSignatureOfChannelCoin E
      ((fresh E s).unrollCoinAt E 0) = .ok ((fresh E s).spendOf E ((fresh E s).argsAt E 0)) :=
    (fresh E s).createConditionsAndSignatureOfChannelCoin_eq E
      ((fresh E s).makeCurriedUnrollPuzzle_at E 0)
  rw [new]
  split
  · rename_i h
    simp only [reduceCtorEq, false_iff]
    exact fun hv => hv.1.channelKeys h
  split
  · rename_i h
    simp only [reduceCtorEq, false_iff]
    exact fun hv => hv.1.unrollKeys h
  split
  · rename_i h
    simp only [reduceCtorEq, false_iff]
    exact fun hv => hv.1.timeout h
  · rename_i hc hu ht
    have hok : (do
        let record ← (fresh E s).recordOf E ⟨(fresh E s).unrollCoinAt E 0, .default⟩
        let spend ← (fresh E s).createConditionsAndSignatureOfChannelCoin E
          ((fresh E s).unrollCoinAt E 0)
        .ok { fresh E s with
          latestSentUnroll := ⟨(fresh E s).unrollCoinAt E 0, .default⟩
          unrollPuzzleHashMap := insertRecord record []
          channelCoinSpend := ⟨(fresh E s).channelCoin, .standard s.channelKey, spend.solution,
            spend.signature⟩ } : Except Error ChannelState) = .ok (opened E s) := by
      rw [recordOf_at, hspend]
      rfl
    constructor
    · intro h
      exact ⟨⟨hc, hu, ht⟩, Except.ok.inj (h.symm.trans hok)⟩
    · rintro ⟨-, rfl⟩
      exact hok

theorem getInitialSignatures_opened (s : Setup) :
    (opened E s).getInitialSignatures = .ok ((opened E s).signaturesAt E 0) := rfl

/-- The channel once the peer has signed state zero. -/
def shaken (s : Setup) (signatures : StateUpdateSignatures) : ChannelState :=
  { opened E s with
    channelCoinSpend := ⟨(opened E s).channelCoin, .standard s.channelKey,
      ((opened E s).publishAt E 0 signatures).solution,
      ((opened E s).publishAt E 0 signatures).aggsig⟩
    latestReceivedUnroll := some ⟨(opened E s).unrollCoinAt E 0, signatures⟩ }

theorem verifyAndStoreInitialPeerSignatures_eq_ok_iff {s : Setup}
    {signatures : StateUpdateSignatures} {spend : ChannelCoinSpendInfo} {ch : ChannelState} :
    verifyAndStoreInitialPeerSignatures E signatures (opened E s) = .ok spend ch ↔
      (opened E s).Verifies E 0 signatures ∧ spend = (opened E s).publishAt E 0 signatures ∧
        ch = shaken E s signatures := by
  have hverify : (opened E s).latestSentUnroll.coin.verify E
      (opened E s).getAggregateUnrollPublicKey signatures.unrollPreemptHalfSig =
      .ok (verify (opened E s).getAggregateUnrollPublicKey
        (shatree E.sha256 ((opened E s).conditionsAt 0)) (signatures.unrollPreemptHalfSig +
          (opened E s).unrollHalf E ((opened E s).conditionsAt 0))) := rfl
  have hspend : (opened E s).createConditionsAndSignatureOfChannelCoin E
      (opened E s).latestSentUnroll.coin =
      .ok ((opened E s).spendOf E ((opened E s).argsAt E 0)) :=
    (opened E s).createConditionsAndSignatureOfChannelCoin_eq E
      ((opened E s).makeCurriedUnrollPuzzle_at E 0)
  have hpeer : (opened E s).verifyChannelCoinFromPeerSignatures E signatures.channelHalfSig
      ((opened E s).spendOf E ((opened E s).argsAt E 0)).conditions = _ :=
    (opened E s).verifyChannelCoinFromPeerSignatures_spendOf E _ ((opened E s).argsAt E 0)
  simp only [verifyAndStoreInitialPeerSignatures, Act.bind_apply, Act.get_apply, hverify,
    Act.lift_ok, Verifies]
  by_cases hu : verify (opened E s).getAggregateUnrollPublicKey
      (shatree E.sha256 ((opened E s).conditionsAt 0)) (signatures.unrollPreemptHalfSig +
        (opened E s).unrollHalf E ((opened E s).conditionsAt 0))
  · by_cases hc : verify (opened E s).getAggregateChannelPublicKey
        ((opened E s).spendOf E ((opened E s).argsAt E 0)).message
        ((opened E s).channelHalf E ((opened E s).spendConditions E ((opened E s).argsAt E 0)) +
          signatures.channelHalfSig)
    · rw [if_pos hc] at hpeer
      simp only [hu, hc, not_true_eq_false, if_false, Act.bind_apply, hspend, Act.lift_ok, hpeer,
        true_and, eq_comm (a := spend), eq_comm (a := ch)]
      exact EStateM.Result.ok.injEq _ _ _ _ ▸ Iff.rfl
    · rw [if_neg hc] at hpeer
      simp only [hu, hc, not_true_eq_false, if_false, Act.bind_apply, hspend, Act.lift_ok, hpeer,
        Act.lift_error]
      simp
  · simp [hu]

end ChannelState

end ChiaGaming
