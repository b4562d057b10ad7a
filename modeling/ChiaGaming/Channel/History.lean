import ChiaGaming.Channel.Frame
import ChiaGaming.Referee.Commitments

namespace ChiaGaming

/-- What the handshake leaves with a player: state zero, signed by the peer with keys that it has
proved to hold.  The initiator moves first. -/
structure Opening (E : ChannelEnv) where
  initiator : Bool
  setup : ChannelState.Setup
  signatures : StateUpdateSignatures
  startPotato : setup.weStartWithPotato = !initiator
  valid : setup.Valid
  channelKey : setup.theirChannelPubkey ≠ 0
  unrollKey : setup.theirUnrollPubkey ≠ 0
  verified : (ChannelState.opened E setup).Verifies E 0 signatures

/-- The channel state behind a signed unroll, with the peer's signatures if it is the peer who moved
to it. -/
structure SignedState where
  state : ChannelState
  received : Option StateUpdateSignatures

section History

variable {E : ChannelEnv}

def Opening.channel (o : Opening E) : ChannelState := ChannelState.shaken E o.setup o.signatures

/-- The runs of a channel state: games are played, and the potato goes back and forth.  The list
holds the states that were signed, from state zero on. -/
inductive Held (E : ChannelEnv) (o : Opening E) : Bool → ChannelState → List SignedState → Prop where
  | start : Held E o o.initiator o.channel [⟨ChannelState.opened E o.setup, some o.signatures⟩]
  | steps {potato : Bool} {ch ch' : ChannelState} {signed : List SignedState}
      (h : Held E o potato ch signed) (hsteps : GameOp.Steps E ch ch') : Held E o potato ch' signed
  | sent {ch : ChannelState} {signed : List SignedState} (h : Held E o true ch signed) :
      Held E o false (ch.sent E) (signed ++ [⟨ch, none⟩])
  | received {ch : ChannelState} {signed : List SignedState} (h : Held E o false ch signed)
      {signatures : StateUpdateSignatures}
      (hverifies : ch.Verifies E (ch.stateNumber + 1) signatures) :
      Held E o true (ch.received E signatures) (signed ++ [⟨ch, some signatures⟩])

namespace ChannelState

/-- What stays the same for as long as the channel is there. -/
def base (ch : ChannelState) : ChannelState :=
  { ch.core with
    havePotato := false
    stateNumber := 0
    latestSentUnroll := ⟨⟨ch.latestSentUnroll.coin.startedWithPotato, 0, none⟩, .default⟩
    latestReceivedUnroll := none
    unrollPuzzleHashMap := []
    channelCoinSpend := ⟨ch.channelCoin, .standard 0, .nil, 0⟩ }

theorem base_core {ch ch' : ChannelState} (h : ch.core = ch'.core) : ch.base = ch'.base := by
  have hbase : ∀ ch : ChannelState, ch.base = ch.core.base := fun _ => rfl
  rw [hbase, h, ← hbase]

/-- Only the game data and the number tell two unrolls of a channel apart. -/
theorem argsAt_of_base {ch ch' : ChannelState} (h : ch.base = ch'.base) (n : ℕ) (hash : Hash) :
    ch.unrollArgs E n hash = ch'.unrollArgs E n hash := by
  have hkeys : ch.base.unrollArgs E n hash = ch'.base.unrollArgs E n hash := by rw [h]
  exact hkeys

theorem timeout_of_base {ch ch' : ChannelState} (h : ch.base = ch'.base) :
    ch.unrollAdvanceTimeout = ch'.unrollAdvanceTimeout :=
  (congrArg ChannelState.unrollAdvanceTimeout h :)

end ChannelState

/-- The records of the signed states, the newest first. -/
def records (E : ChannelEnv) (signed : List SignedState) : List (Hash × HistoricalUnrollSpendInfo) :=
  (signed.zipIdx.map fun s => s.1.state.recordAt E s.2).reverse

theorem records_append (signed : List SignedState) (s : SignedState) :
    records E (signed ++ [s]) = s.state.recordAt E signed.length :: records E signed := by
  simp [records, List.zipIdx_append]

theorem mem_records {signed : List SignedState} {record : Hash × HistoricalUnrollSpendInfo} :
    record ∈ records E signed ↔ ∃ (n : ℕ) (s : SignedState), signed[n]? = some s ∧
      s.state.recordAt E n = record := by
  simp only [records, List.mem_reverse, List.mem_map, Prod.exists, List.mem_zipIdx_iff_getElem?]
  exact ⟨fun ⟨s, n, hs, h⟩ => ⟨n, s, hs, h⟩, fun ⟨n, s, hs, h⟩ => ⟨s, n, hs, h⟩⟩

/-- What the stored unrolls come to in every run. -/
structure Ledger (E : ChannelEnv) (o : Opening E) (potato : Bool) (ch : ChannelState)
    (signed : List SignedState) : Prop where
  base : ch.base = o.channel.base
  bases : ∀ s ∈ signed, s.state.base = o.channel.base
  length : signed.length = ch.stateNumber + 1
  map : ch.unrollPuzzleHashMap = records E signed
  unsigned : ch.latestSentUnroll.signatures = .default
  verified : ∀ (n : ℕ) (s : SignedState) (signatures : StateUpdateSignatures),
    signed[n]? = some s → s.received = some signatures → s.state.Verifies E n signatures
  -- the newest state that the peer has signed, and how the others lie to it
  received : ∃ (r : ℕ) (s : SignedState) (signatures : StateUpdateSignatures),
    r = (if potato then ch.stateNumber else ch.stateNumber - 1) ∧
    signed[r]? = some s ∧ s.received = some signatures ∧
    ch.latestReceivedUnroll = some ⟨s.state.unrollCoinAt E r, signatures⟩ ∧
    ∀ (n : ℕ) (s' : SignedState), signed[n]? = some s' → s'.received.isSome →
      n ≤ r ∧ (n = 0 ∨ n % 2 = r % 2)

namespace Ledger

variable {o : Opening E} {potato : Bool} {ch ch' : ChannelState} {signed : List SignedState}

theorem start : Ledger E o o.initiator o.channel
    [⟨ChannelState.opened E o.setup, some o.signatures⟩] where
  base := rfl
  bases := by
    intro s hs
    rw [List.mem_singleton] at hs
    subst hs
    rfl
  length := rfl
  map := rfl
  unsigned := rfl
  verified := by
    intro n s signatures hs hreceived
    obtain ⟨rfl, rfl⟩ : n = 0 ∧ s = ⟨ChannelState.opened E o.setup, some o.signatures⟩ := by
      rw [List.getElem?_singleton] at hs
      split at hs
      · rename_i hn
        exact ⟨hn, (Option.some.inj hs).symm⟩
      · cases hs
    cases hreceived
    exact o.verified
  received := by
    refine ⟨0, _, o.signatures, ?_, rfl, rfl, rfl, ?_⟩
    · cases o.initiator <;> rfl
    · intro n s' hs' _
      rw [List.getElem?_singleton] at hs'
      split at hs'
      · omega
      · cases hs'

theorem steps (h : Ledger E o potato ch signed) (hsteps : GameOp.Steps E ch ch') :
    Ledger E o potato ch' signed := by
  have hcore : ch'.core = ch.core := hsteps.core
  have hnumber : ch'.stateNumber = ch.stateNumber := (congrArg ChannelState.stateNumber hcore :)
  have hmap : ch'.unrollPuzzleHashMap = ch.unrollPuzzleHashMap :=
    (congrArg ChannelState.unrollPuzzleHashMap hcore :)
  have hsent : ch'.latestSentUnroll = ch.latestSentUnroll :=
    (congrArg ChannelState.latestSentUnroll hcore :)
  have hreceived : ch'.latestReceivedUnroll = ch.latestReceivedUnroll :=
    (congrArg ChannelState.latestReceivedUnroll hcore :)
  refine ⟨(ChannelState.base_core hcore).trans h.base, h.bases, ?_, ?_, ?_, h.verified, ?_⟩
  · rw [hnumber]
    exact h.length
  · rw [hmap]
    exact h.map
  · rw [hsent]
    exact h.unsigned
  · rw [hnumber, hreceived]
    exact h.received

/-- The record of a new number does not take the place of an older one. -/
theorem insertRecord_records (hh : CollisionFree E.sha256) (h : Ledger E o potato ch signed)
    (received : Option StateUpdateSignatures) :
    ChannelState.insertRecord (ch.recordAt E (ch.stateNumber + 1)) ch.unrollPuzzleHashMap =
      records E (signed ++ [⟨ch, received⟩]) := by
  rw [records_append, h.length, ChannelState.insertRecord, h.map]
  congr 1
  refine List.filter_eq_self.mpr fun record hrecord => ?_
  obtain ⟨n, s, hs, rfl⟩ := mem_records.mp hrecord
  have hn : n < signed.length := (List.getElem?_eq_some_iff.mp hs).1
  rw [h.length] at hn
  refine decide_eq_true fun hkey => ?_
  have hargs := UnrollArgs.puzzleHash_injective hh hkey
  have hnumber := bytesOfNat_injective (congrArg UnrollArgs.oldSequenceNumber hargs)
  omega

theorem sent (hh : CollisionFree E.sha256) (h : Ledger E o true ch signed) :
    Ledger E o false (ch.sent E) (signed ++ [⟨ch, none⟩]) := by
  have hlen := h.length
  have hold : ∀ (n : ℕ) (s : SignedState), (signed ++ [⟨ch, none⟩])[n]? = some s →
      s.received.isSome → signed[n]? = some s := by
    intro n s hs hreceived
    rw [List.getElem?_append] at hs
    split at hs
    · exact hs
    · rw [List.getElem?_singleton] at hs
      split at hs
      · cases hs
        cases hreceived
      · cases hs
  refine ⟨h.base, ?_, ?_, h.insertRecord_records hh none, rfl, ?_, ?_⟩
  · intro s hs
    rcases List.mem_append.mp hs with hs | hs
    · exact h.bases s hs
    · rw [List.mem_singleton] at hs
      subst hs
      exact h.base
  · rw [List.length_append, hlen]
    rfl
  · intro n s signatures hs hreceived
    exact h.verified n s signatures (hold n s hs (by rw [hreceived]; rfl)) hreceived
  · obtain ⟨r, s, signatures, hr, hs, hreceived, hlatest, hothers⟩ := h.received
    rw [if_pos rfl] at hr
    subst hr
    refine ⟨ch.stateNumber, s, signatures, rfl, ?_, hreceived, hlatest, ?_⟩
    · rw [List.getElem?_append_left (by omega)]
      exact hs
    · exact fun n s' hs' hsome => hothers n s' (hold n s' hs' hsome) hsome

theorem receipt (hh : CollisionFree E.sha256) (h : Ledger E o false ch signed)
    {signatures : StateUpdateSignatures}
    (hverifies : ch.Verifies E (ch.stateNumber + 1) signatures) :
    Ledger E o true (ch.received E signatures) (signed ++ [⟨ch, some signatures⟩]) := by
  have hlen := h.length
  have hcases : ∀ (n : ℕ) (s : SignedState), (signed ++ [⟨ch, some signatures⟩])[n]? = some s →
      signed[n]? = some s ∨ n = ch.stateNumber + 1 ∧ s = ⟨ch, some signatures⟩ := by
    intro n s hs
    rw [List.getElem?_append] at hs
    split at hs
    · exact .inl hs
    · rw [List.getElem?_singleton] at hs
      split at hs
      · cases hs
        exact .inr ⟨by omega, rfl⟩
      · cases hs
  refine ⟨h.base, ?_, ?_, h.insertRecord_records hh (some signatures), h.unsigned, ?_, ?_⟩
  · intro s hs
    rcases List.mem_append.mp hs with hs | hs
    · exact h.bases s hs
    · rw [List.mem_singleton] at hs
      subst hs
      exact h.base
  · rw [List.length_append, hlen]
    rfl
  · intro n s sigs hs hreceived
    rcases hcases n s hs with hs | ⟨rfl, rfl⟩
    · exact h.verified n s sigs hs hreceived
    · cases hreceived
      exact hverifies
  · obtain ⟨r, s, sigs, hr, -, -, -, hothers⟩ := h.received
    refine ⟨ch.stateNumber + 1, ⟨ch, some signatures⟩, signatures, rfl, ?_, rfl, rfl, ?_⟩
    · rw [List.getElem?_append_right (by omega)]
      simp [hlen]
    · intro n s' hs' hsome
      -- the peer's states lie two apart, state zero aside
      rcases hcases n s' hs' with hs' | ⟨rfl, -⟩
      · have hn := hothers n s' hs' hsome
        simp only [Bool.false_eq_true, if_false] at hr
        omega
      · exact ⟨le_rfl, .inr rfl⟩

end Ledger

theorem Held.ledger {o : Opening E} {potato : Bool} {ch : ChannelState} {signed : List SignedState}
    (hh : CollisionFree E.sha256) (h : Held E o potato ch signed) : Ledger E o potato ch signed := by
  induction h with
  | start => exact Ledger.start
  | steps _ hsteps ih => exact ih.steps hsteps
  | sent _ ih => exact ih.sent hh
  | received _ hverifies ih => exact ih.receipt hh hverifies

/-! The answer to an old unroll. -/

/-- The channel spend has the unroll as its first coin that we know. -/
def ChannelState.Observes (ch : ChannelState) (conditions : Clvm) (puzzleHash : Hash) : Prop :=
  ∃ coins amount, createdCoins conditions = .ok coins ∧
    coins.find? (fun coin => (ch.unrollPuzzleHashMap.lookup coin.1).isSome) = some (puzzleHash, amount)

/-- A state that the puzzle would take in the place of an older one, with the peer's signatures. -/
def Supersedable (signed : List SignedState) (m : ℕ) : Prop :=
  ∃ (k : ℕ) (s : SignedState), m < k ∧ k % 2 ≠ m % 2 ∧ signed[k]? = some s ∧ s.received.isSome

/-- A spend that puts a newer state in the place of an unroll: the puzzle takes its number, and both
signatures are right. -/
structure Preempts (E : ChannelEnv) (ch : ChannelState) (signed : List SignedState)
    (args : UnrollArgs) (m : ℕ) (spend : Spend) : Prop where
  newer : ∃ (k : ℕ) (s : SignedState), m < k ∧ k % 2 ≠ m % 2 ∧ signed[k]? = some s ∧
    s.received.isSome ∧ spend.solution = s.state.conditionsAt k
  accepted : stateChannelUnrolling E.sha256 args spend.solution =
    some (.pair (.list [condAggSigUnsafe, .atom (E.keyBytes ch.getAggregateUnrollPublicKey),
      .atom (shatree E.sha256 spend.solution)]) spend.solution)
  verified : verify ch.getAggregateUnrollPublicKey (shatree E.sha256 spend.solution) spend.signature

/-- A spend that reveals what an unroll commits to. -/
structure TimesOut (E : ChannelEnv) (signed : List SignedState) (args : UnrollArgs) (m : ℕ)
    (spend : Spend) : Prop where
  revealed : ∃ s, signed[m]? = some s ∧ spend.solution = s.state.timeoutConditionsAt m
  accepted : stateChannelUnrolling E.sha256 args spend.solution = some spend.solution
  committed : shatree E.sha256 spend.solution = args.defaultConditionsHash

/-- Every signed state is on record, and every recorded unroll has its answer. -/
structure Answers (E : ChannelEnv) (ch : ChannelState) (signed : List SignedState) : Prop where
  recorded : ∀ n ≤ ch.stateNumber, ∃ s, signed[n]? = some s ∧
    ch.unrollPuzzleHashMap.lookup (s.state.recordAt E n).1 = some (s.state.recordAt E n).2
  answered : ∀ puzzleHash info conditions, ch.unrollPuzzleHashMap.lookup puzzleHash = some info →
    ch.Observes conditions puzzleHash → ∃ result args,
      ch.channelCoinSpent E false conditions = .ok result ∧
      result.transaction.puzzle = .unroll args ∧
      args.puzzleHash E.sha256 E.unrollPuzzleHash = puzzleHash ∧
      result.unrollingStateNumber = info.stateNumber ∧
      (result.timeout = true ↔ ¬ Supersedable signed info.stateNumber) ∧
      if result.timeout then TimesOut E signed args info.stateNumber result.transaction
      else Preempts E ch signed args info.stateNumber result.transaction

namespace Ledger

variable {o : Opening E} {potato : Bool} {ch : ChannelState} {signed : List SignedState}

theorem getElem_of_le (h : Ledger E o potato ch signed) {n : ℕ} (hn : n ≤ ch.stateNumber) :
    ∃ s, signed[n]? = some s := by
  have hlen := h.length
  exact ⟨_, List.getElem?_eq_getElem (by omega)⟩

end Ledger

theorem recordAt_key_ne (hh : CollisionFree E.sha256) {ch ch' : ChannelState} {n n' : ℕ}
    (h : n ≠ n') : (ch.recordAt E n).1 ≠ (ch'.recordAt E n').1 := by
  intro hkey
  have hargs := UnrollArgs.puzzleHash_injective hh hkey
  exact h (bytesOfNat_injective (congrArg UnrollArgs.oldSequenceNumber hargs))

theorem lookup_records (hh : CollisionFree E.sha256) {signed : List SignedState} {n : ℕ}
    {s : SignedState} (hs : signed[n]? = some s) :
    (records E signed).lookup (s.state.recordAt E n).1 = some (s.state.recordAt E n).2 := by
  induction signed using List.reverseRecOn with
  | nil => cases hs
  | append_singleton signed newest ih =>
    rw [records_append, List.lookup_cons]
    rw [List.getElem?_append] at hs
    split at hs
    · rename_i hn
      rw [beq_false_of_ne (recordAt_key_ne hh (by omega))]
      exact ih hs
    · rw [List.getElem?_singleton] at hs
      split at hs
      · cases hs
        obtain rfl : n = signed.length := by omega
        rw [beq_self_eq_true]
      · cases hs

theorem of_lookup_records {signed : List SignedState} {puzzleHash : Hash}
    {info : HistoricalUnrollSpendInfo} (h : (records E signed).lookup puzzleHash = some info) :
    ∃ s, signed[info.stateNumber]? = some s ∧
      s.state.recordAt E info.stateNumber = (puzzleHash, info) := by
  obtain ⟨l₁, l₂, heq, -⟩ := List.lookup_eq_some_iff.mp h
  have hmem : (puzzleHash, info) ∈ records E signed := by simp [heq]
  obtain ⟨n, s, hs, hrecord⟩ := mem_records.mp hmem
  obtain rfl : n = info.stateNumber := congrArg (fun r => r.2.stateNumber) hrecord
  exact ⟨s, hs, hrecord⟩

/-- Under each number there is one record. -/
theorem find_records {signed : List SignedState} {m : ℕ} {s : SignedState}
    (hs : signed[m]? = some s) :
    ((records E signed).map Prod.snd).find? (fun info => info.stateNumber = m) =
      some (s.state.recordAt E m).2 := by
  have hmem : (s.state.recordAt E m).2 ∈ (records E signed).map Prod.snd :=
    List.mem_map_of_mem (mem_records.mpr ⟨m, s, hs, rfl⟩)
  have hsome : (((records E signed).map Prod.snd).find? fun info => info.stateNumber = m).isSome :=
    List.find?_isSome.mpr ⟨_, hmem, decide_eq_true rfl⟩
  obtain ⟨info, hinfo⟩ := Option.isSome_iff_exists.mp hsome
  have hnumber : info.stateNumber = m := by simpa using List.find?_some hinfo
  obtain ⟨record, hrecord, rfl⟩ := List.mem_map.mp (List.mem_of_find?_eq_some hinfo)
  obtain ⟨n, s', hs', rfl⟩ := mem_records.mp hrecord
  obtain rfl : n = m := hnumber
  obtain rfl : s = s' := Option.some.inj (hs.symm.trans hs')
  exact hinfo

theorem findSome?_of_find? {α β : Type} {f : α → Option β} {l : List α} {a : α}
    (h : l.find? (fun a => (f a).isSome) = some a) : l.findSome? f = f a := by
  induction l with
  | nil => cases h
  | cons b l ih =>
    rw [List.find?_cons] at h
    rw [List.findSome?_cons]
    cases hb : f b with
    | none =>
      rw [hb] at h
      exact ih h
    | some c =>
      rw [hb] at h
      cases h
      exact hb.symm

theorem ChannelState.eligible_iff {m : ℕ} {info : ChannelUnrollSpendInfo} :
    ChannelState.eligible m info ↔
      info.coin.stateNumber % 2 ≠ m % 2 ∧ info.signatures.unrollPreemptHalfSig ≠ 0 := by
  rw [ChannelState.eligible, decide_eq_true_iff, Nat.and_one_is_mod, Nat.xor_mod_two_eq]
  refine and_congr ?_ Iff.rfl
  omega

/-- The peer's half of a verified signature is there. -/
theorem ChannelState.Verifies.half_ne_zero {ch : ChannelState} {n : ℕ}
    {signatures : StateUpdateSignatures} (h : ch.Verifies E n signatures)
    (hkey : ch.theirUnrollCoinPublicKey ≠ 0) : signatures.unrollPreemptHalfSig ≠ 0 := by
  intro hzero
  have hfull := (verify_iff.mp h.1).2
  have hcard := congrArg Multiset.card hfull
  rw [hzero, zero_add, ChannelState.unrollHalf, partialSign, Multiset.card_singleton, fullSignature,
    Multiset.card_map, ChannelState.getAggregateUnrollPublicKey, Multiset.card_add, publicKey,
    Multiset.card_singleton] at hcard
  exact hkey (Multiset.card_eq_zero.mp (by omega))

theorem ChannelState.Observes.resolve {ch : ChannelState} {puzzleHash : Hash}
    {info : HistoricalUnrollSpendInfo} {conditions : Clvm} (h : ch.Observes conditions puzzleHash)
    (hlookup : ch.unrollPuzzleHashMap.lookup puzzleHash = some info) :
    ch.resolveUnrollFromConditions conditions = .ok (info.stateNumber, info.conditionsHash) := by
  obtain ⟨coins, amount, hcoins, hfind⟩ := h
  rw [ChannelState.resolveUnrollFromConditions, hcoins, ok_bind, findSome?_of_find? hfind]
  dsimp only
  rw [hlookup]

section Spent

variable {ch : ChannelState} {conditions : Clvm} {m : ℕ} {hash : Hash}
  {result : ChannelCoinSpentResult}

theorem ChannelState.channelCoinSpent_timeout
    (hresolve : ch.resolveUnrollFromConditions conditions = .ok (m, hash))
    (hcase : m = ch.stateNumber ∨ m < ch.stateNumber ∧ ch.preemptionSource m = none)
    (h : ch.makeTimeoutUnrollSpend E m hash = .ok result) :
    ch.channelCoinSpent E false conditions = .ok { result with unrollingStateNumber := m } := by
  rw [ChannelState.channelCoinSpent, hresolve, ok_bind]
  dsimp only
  rcases hcase with heq | ⟨hlt, hnone⟩
  · rw [if_pos (.inr heq), h]
    rfl
  · rw [if_neg (by simp; omega), if_neg (by omega), hnone, if_neg (by simp), h]
    rfl

theorem ChannelState.channelCoinSpent_preempt
    (hresolve : ch.resolveUnrollFromConditions conditions = .ok (m, hash))
    (hlt : m < ch.stateNumber) (hsome : (ch.preemptionSource m).isSome)
    (h : ch.makePreemptionUnrollSpend E m hash = .ok result) :
    ch.channelCoinSpent E false conditions = .ok { result with unrollingStateNumber := m } := by
  rw [ChannelState.channelCoinSpent, hresolve, ok_bind]
  dsimp only
  rw [if_neg (by simp; omega), if_neg (by omega), if_pos hsome, h]
  rfl

end Spent

namespace Ledger

variable {o : Opening E} {potato : Bool} {ch : ChannelState} {signed : List SignedState}

/-- The arguments of a recorded unroll, from what is kept of it. -/
theorem unrollArgs_record (h : Ledger E o potato ch signed) {m : ℕ} {s : SignedState}
    (hs : signed[m]? = some s) :
    ch.unrollArgs E m (s.state.recordAt E m).2.conditionsHash = s.state.argsAt E m :=
  ChannelState.argsAt_of_base (h.base.trans (h.bases s (List.mem_of_getElem? hs)).symm) m _

theorem makeTimeoutUnrollSpend_eq (h : Ledger E o potato ch signed) {m : ℕ} {s : SignedState}
    (hs : signed[m]? = some s) :
    ch.makeTimeoutUnrollSpend E m (s.state.recordAt E m).2.conditionsHash = .ok {
      transaction := ⟨.unroll (s.state.argsAt E m), s.state.timeoutConditionsAt m, 0⟩
      timeout := true
      gamesCanceled := []
      unrollingStateNumber := 0 } := by
  rw [ChannelState.makeTimeoutUnrollSpend, ChannelState.getHistoricalUnrollForState, h.map,
    find_records hs, orError, ok_bind, if_neg (by simp), h.unrollArgs_record hs]
  rfl

/-- Where the newest state of the peer has the other parity, it is the one to preempt with. -/
theorem preemptionSource_eq (h : Ledger E o potato ch signed) (m : ℕ) :
    ∃ (r : ℕ) (s : SignedState) (signatures : StateUpdateSignatures), signed[r]? = some s ∧
      s.received = some signatures ∧
      (m < ch.stateNumber → r % 2 ≠ m % 2 → m < r) ∧
      (m < ch.stateNumber → (Supersedable signed m ↔ r % 2 ≠ m % 2)) ∧
      ch.preemptionSource m =
        if r % 2 ≠ m % 2 then some ⟨s.state.unrollCoinAt E r, signatures⟩ else none := by
  obtain ⟨r, s, signatures, hr, hs, hreceived, hlatest, hothers⟩ := h.received
  have hnewer : m < ch.stateNumber → r % 2 ≠ m % 2 → m < r := by
    intro hm hparity
    split at hr
    · omega
    · omega
  refine ⟨r, s, signatures, hs, hreceived, hnewer, ?_, ?_⟩
  · intro hm
    constructor
    · rintro ⟨k, s', hk, hparity, hs', hsome⟩
      have hkr := hothers k s' hs' hsome
      omega
    · intro hparity
      exact ⟨r, s, hnewer hm hparity, hparity, hs, by rw [hreceived]; rfl⟩
  · have hsent : ¬ ChannelState.eligible m ch.latestSentUnroll := by
      rw [ChannelState.eligible_iff, h.unsigned]
      exact fun heligible => heligible.2 rfl
    have hkey : s.state.theirUnrollCoinPublicKey ≠ 0 := by
      have hbase := h.bases s (List.mem_of_getElem? hs)
      have hkeys : s.state.theirUnrollCoinPublicKey = o.channel.theirUnrollCoinPublicKey :=
        (congrArg ChannelState.theirUnrollCoinPublicKey hbase :)
      rw [hkeys]
      exact o.unrollKey
    have hhalf := (h.verified r s signatures hs hreceived).half_ne_zero hkey
    rw [ChannelState.preemptionSource, if_neg hsent, hlatest]
    split
    · rename_i hparity
      exact Option.filter_eq_some_iff.mpr
        ⟨rfl, ChannelState.eligible_iff.mpr ⟨hparity, hhalf⟩⟩
    · rename_i hparity
      refine Option.filter_eq_none_iff.mpr fun info hinfo heligible => hparity ?_
      cases hinfo
      exact (ChannelState.eligible_iff.mp heligible).1

theorem timesOut {m : ℕ} {s : SignedState} (hs : signed[m]? = some s) :
    TimesOut E signed (s.state.argsAt E m) m
      ⟨.unroll (s.state.argsAt E m), s.state.timeoutConditionsAt m, 0⟩ :=
  ⟨⟨s, hs, rfl⟩, stateChannelUnrolling_timeout rfl, rfl⟩

/-- The conditions behind the time lock are not those of any preemption. -/
theorem timeoutConditionsAt_ne (h : Ledger E o potato ch signed) {m r : ℕ} {s s' : SignedState}
    (hs : signed[m]? = some s) : s.state.timeoutConditionsAt m ≠ s'.state.conditionsAt r := by
  have htimeout : s.state.unrollAdvanceTimeout = o.setup.unrollAdvanceTimeout :=
    ChannelState.timeout_of_base (h.bases s (List.mem_of_getElem? hs))
  have hpos : s.state.unrollAdvanceTimeout > 0 := by
    rw [htimeout]
    exact Nat.pos_of_ne_zero o.valid.timeout
  rw [ChannelState.timeoutConditionsAt, UnrollCoin.timeoutConditionsOf, if_pos hpos]
  intro heq
  have hfirst := (Clvm.pair.inj heq).1
  have hcode := (Clvm.pair.inj hfirst).1
  revert hcode
  decide

theorem preempts (hh : CollisionFree E.sha256) (h : Ledger E o potato ch signed) {m r : ℕ}
    {s s' : SignedState} {signatures : StateUpdateSignatures} (hs : signed[m]? = some s)
    (hs' : signed[r]? = some s') (hreceived : s'.received = some signatures) (hnewer : m < r)
    (hparity : r % 2 ≠ m % 2) :
    Preempts E ch signed (s.state.argsAt E m) m ⟨.unroll (s.state.argsAt E m),
      s'.state.conditionsAt r,
      s'.state.unrollHalf E (s'.state.conditionsAt r) + signatures.unrollPreemptHalfSig⟩ := by
  have hkey : ∀ {n : ℕ} {t : SignedState}, signed[n]? = some t →
      t.state.getAggregateUnrollPublicKey = ch.getAggregateUnrollPublicKey := by
    intro n t ht
    have hbase := (h.bases t (List.mem_of_getElem? ht)).trans h.base.symm
    exact (congrArg ChannelState.getAggregateUnrollPublicKey hbase :)
  refine ⟨⟨r, s', hnewer, hparity, hs', by rw [hreceived]; rfl, rfl⟩, ?_, ?_⟩
  · rw [← hkey hs]
    refine stateChannelUnrolling_preempt ?_ ?_
    · intro hhash
      exact h.timeoutConditionsAt_ne hs (hh.shatree_injective hhash)
    · rw [intOfBytes_bytesOfNat]
      have hold : intOfBytes (s.state.argsAt E m).oldSequenceNumber = m := intOfBytes_bytesOfNat m
      rw [hold]
      exact (supersedes_natCast r m).mpr ⟨hnewer, hparity⟩
  · have hverifies := (h.verified r s' signatures hs' hreceived).1
    rw [hkey hs', add_comm] at hverifies
    exact hverifies

theorem answers (hh : CollisionFree E.sha256) (h : Ledger E o potato ch signed) :
    Answers E ch signed := by
  constructor
  · intro n hn
    obtain ⟨s, hs⟩ := h.getElem_of_le hn
    refine ⟨s, hs, ?_⟩
    rw [h.map]
    exact lookup_records hh hs
  · intro puzzleHash info conditions hlookup hobserves
    have hresolve := hobserves.resolve hlookup
    rw [h.map] at hlookup
    obtain ⟨s, hs, hrecord⟩ := of_lookup_records hlookup
    obtain ⟨m, hm⟩ : ∃ m, info.stateNumber = m := ⟨_, rfl⟩
    rw [hm] at hs hrecord
    obtain ⟨rfl, rfl⟩ := Prod.mk.inj hrecord
    have hlen : m < signed.length := (List.getElem?_eq_some_iff.mp hs).1
    rw [h.length] at hlen
    have htimeout := h.makeTimeoutUnrollSpend_eq hs
    obtain ⟨r, s', signatures, hs', hreceived, hnewer, hsuper, hsource⟩ := h.preemptionSource_eq m
    have htimesOut : (m = ch.stateNumber ∨ m < ch.stateNumber ∧ ch.preemptionSource m = none) →
        ¬ Supersedable signed m → ∃ result args,
          ch.channelCoinSpent E false conditions = .ok result ∧
          result.transaction.puzzle = .unroll args ∧
          args.puzzleHash E.sha256 E.unrollPuzzleHash = (s.state.recordAt E m).1 ∧
          result.unrollingStateNumber = m ∧ (result.timeout = true ↔ ¬ Supersedable signed m) ∧
          if result.timeout then TimesOut E signed args m result.transaction
          else Preempts E ch signed args m result.transaction := by
      intro hcase hnone
      exact ⟨_, s.state.argsAt E m, ChannelState.channelCoinSpent_timeout hresolve hcase htimeout,
        rfl, rfl, rfl, iff_of_true rfl hnone, timesOut hs⟩
    by_cases hlast : m = ch.stateNumber
    · refine htimesOut (.inl hlast) ?_
      rintro ⟨k, t, hk, -, ht, -⟩
      have hlt := (List.getElem?_eq_some_iff.mp ht).1
      rw [h.length] at hlt
      omega
    · have hold : m < ch.stateNumber := by omega
      by_cases hparity : r % 2 ≠ m % 2
      · rw [if_pos hparity] at hsource
        have hpreempt : ch.makePreemptionUnrollSpend E m (s.state.recordAt E m).2.conditionsHash =
            .ok {
              transaction := ⟨.unroll (s.state.argsAt E m), s'.state.conditionsAt r,
                s'.state.unrollHalf E (s'.state.conditionsAt r) + signatures.unrollPreemptHalfSig⟩
              timeout := false
              gamesCanceled := []
              unrollingStateNumber := 0 } := by
          rw [ChannelState.makePreemptionUnrollSpend, hsource, orError, ok_bind,
            h.unrollArgs_record hs]
          rfl
        refine ⟨_, s.state.argsAt E m, ChannelState.channelCoinSpent_preempt hresolve hold
          (by rw [hsource]; rfl) hpreempt, rfl, rfl, rfl, ?_, ?_⟩
        · exact iff_of_false (by simp) (not_not_intro ((hsuper hold).mpr hparity))
        · exact h.preempts hh hs hs' hreceived (hnewer hold hparity) hparity
      · rw [if_neg hparity] at hsource
        exact htimesOut (.inr ⟨hold, hsource⟩) fun hsome => hparity ((hsuper hold).mp hsome)

end Ledger

end History

/-! A channel of the steady game's players. -/

namespace Steady

def channelEnv : ChannelEnv where
  toEnv := env
  unrollPuzzleHash := [5]
  refereeCoinPuzzleHash := [1]
  standardPuzzleHash := [6]
  aggSigMeAdditionalData := [7]

def setup : ChannelState.Setup where
  privateKeys := ⟨11, 12, 1⟩
  launcherCoinId := [8]
  weStartWithPotato := true
  theirChannelPubkey := publicKey 21
  theirUnrollPubkey := publicKey 22
  theirRefereePubkey := publicKey 2
  theirRewardPuzzleHash := [2]
  theirRewardPayoutSignature := sign 2 (rewardPayoutMessage [2])
  myContribution := 10
  theirContribution := 10
  unrollAdvanceTimeout := 15
  rewardPuzzleHash := [3]

theorem setup_startPotato (initiator : Bool) :
    ({ setup with weStartWithPotato := !initiator }).weStartWithPotato = !initiator := rfl

theorem setup_valid (initiator : Bool) :
    ({ setup with weStartWithPotato := !initiator }).Valid :=
  ⟨by simp [setup, publicKey], by simp [setup, publicKey], by simp [setup]⟩

theorem setup_channelKey : setup.theirChannelPubkey ≠ 0 := by simp [setup, publicKey]

theorem setup_unrollKey : setup.theirUnrollPubkey ≠ 0 := by simp [setup, publicKey]

/-- The setup of either player, both of whom sign with two keys. -/
def opening (initiator : Bool) : Opening channelEnv where
  initiator
  setup := { setup with weStartWithPotato := !initiator }
  signatures := (ChannelState.opened channelEnv
    { setup with weStartWithPotato := !initiator }).peerSignaturesAt channelEnv 21 22 0
  startPotato := setup_startPotato initiator
  valid := setup_valid initiator
  channelKey := setup_channelKey
  unrollKey := setup_unrollKey
  verified := (ChannelState.verifies_iff _ _ rfl rfl).mpr rfl

end Steady

end ChiaGaming
