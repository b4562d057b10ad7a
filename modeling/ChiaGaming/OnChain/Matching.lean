import ChiaGaming.OnChain.Snapshots

namespace ChiaGaming

/-! The coins of an unroll and the games that they belong to. -/

/-- A coin of a game carries its number. -/
def IsCoinOf (E : Env) (ph : Hash) (id : GameID) : Prop :=
  ∃ a : RefereeArgs, a.puzzleHash E.sha256 = ph ∧ a.nonce = bytesOfNat id

theorem IsCoinOf.unique {E : Env} (hh : CollisionFree E.sha256) {ph : Hash} {id id' : GameID}
    (h : IsCoinOf E ph id) (h' : IsCoinOf E ph id') : id = id' := by
  obtain ⟨a, ha, hid⟩ := h
  obtain ⟨a', ha', hid'⟩ := h'
  obtain rfl := RefereeArgs.puzzleHash_injective hh (ha.trans ha'.symm)
  exact bytesOfNat_injective (hid.symm.trans hid')

/-- A puzzle hash tells who moves on its coins. -/
theorem RefereeArgs.mover_unique {sha256 : Bytes → Bytes} (hh : CollisionFree sha256)
    {a a' : RefereeArgs} {ph : Hash} (h : a.puzzleHash sha256 = ph) (h' : a'.puzzleHash sha256 = ph) :
    a.moverPubkey = a'.moverPubkey := by
  rw [RefereeArgs.puzzleHash_injective hh (h.trans h'.symm)]

namespace ChannelState

variable {E : ChannelEnv} {ch : ChannelState} {g : LiveGame}

theorem seated_nonce (hg : g.Seated E ch) : g.refereeMaker.fixed.nonce = g.gameId := by
  obtain ⟨start, hfixed⟩ := hg.referee.seated.fixed
  rw [hfixed]
  rfl

/-- The last coin of a game and who moves on it. -/
theorem latest_args (hg : g.Seated E ch) :
    ∃ a : RefereeArgs, a.puzzleHash E.sha256 = g.lastRefereePuzzleHash ∧
      a.nonce = bytesOfNat g.gameId ∧
      a.moverPubkey = E.keyBytes (if g.isMyTurn then ch.ourRefereeKey else ch.theirRefereePubkey) := by
  have hsetUp := hg.referee.setUp.1
  obtain ⟨hmover, -⟩ := hg.referee.mover
  obtain ⟨start, hfixed⟩ := hg.referee.seated.fixed
  refine ⟨g.refereeMaker.spendThisCoin.coin E.toEnv, ?_, ?_, ?_⟩
  · rw [hg.coin, Referee.outcomeRefereePuzzleHash, curryRefereePuzzleHash_eq hsetUp.puzzleHash]
  · rw [← seated_nonce hg, ← hsetUp.nonce]
    rfl
  · show E.keyBytes g.refereeMaker.spendThisCoin.moverPubkey = _
    rw [hmover, hfixed]
    rfl

/-- The coin that a move on record was made on; it was ours to move. -/
theorem redo_args (hg : g.Seated E ch) {m : CachedSendMove} {t : TheirTurnReferee}
    (hreplays : m.Replays E g t) :
    ∃ a : RefereeArgs, a.puzzleHash E.sha256 = m.matchPuzzleHash ∧
      a.nonce = bytesOfNat g.gameId ∧ a.moverPubkey = E.keyBytes ch.ourRefereeKey := by
  have hreferee := hg.referee
  have hnonce := seated_nonce hg
  rw [hreplays.referee] at hreferee hnonce
  have hsetUp := hreferee.setUp.2
  obtain ⟨start, hfixed⟩ := hreferee.seated.fixed
  refine ⟨t.argsForThisCoin.coin E.toEnv, ?_, ?_, ?_⟩
  · rw [hreplays.coin, Referee.onChainRefereePuzzleHash]
    exact (curryRefereePuzzleHash_eq hsetUp.puzzleHash).symm
  · rw [← hnonce]
    exact congrArg bytesOfNat hsetUp.nonce
  · show E.keyBytes t.argsForThisCoin.moverPubkey = _
    rw [hreplays.mover, show t.fixed = _ from hfixed]
    rfl

/-! What is found for a coin. -/

/-- A coin of an unroll that is found carries the number of the game that it is found for. -/
theorem Found.isCoinOf {o : Opening E} (h : ch.Carries E o) {ph : Hash} {amount : ℕ}
    {state : OnChainGameState} (hfound : ch.Found ph amount state) :
    IsCoinOf E.toEnv ph state.gameId := by
  cases hfound with
  | latest g hg hph hamount =>
    obtain ⟨a, ha, hnonce, -⟩ := latest_args (h.live g hg)
    exact ⟨a, ha.trans hph, hnonce⟩
  | redo m g hm hg hid hph hamount =>
    obtain ⟨t, hreplays⟩ := h.moves m hm g (hid ▸ findLiveGame_of_mem h.ids hg)
    obtain ⟨a, ha, hnonce, -⟩ := redo_args (h.live g hg) hreplays
    exact ⟨a, ha.trans hph, hnonce⟩
  | settling g hg hph hamount =>
    obtain ⟨a, ha, hnonce, -⟩ := latest_args (h.settling g hg)
    exact ⟨a, ha.trans hph, hnonce⟩

/-- A coin that can be told is found, unless its game has been matched before. -/
theorem Follows.gameOfCoin (h : ch.Follows g) {matched : List GameID} (hfree : g.gameId ∉ matched) :
    (ch.gameOfCoin matched g.lastRefereePuzzleHash g.getAmount).isSome = true := by
  rw [ChannelState.gameOfCoin]
  cases hlatest : ch.latestGame matched g.lastRefereePuzzleHash g.getAmount with
  | some g' => rfl
  | none =>
    dsimp only
    cases hredo : ch.redoGame matched g.lastRefereePuzzleHash g.getAmount with
    | some g' => rfl
    | none =>
      dsimp only
      rw [Option.isSome_map]
      cases h with
      | live g' hg' hph hamount =>
        have hnot := List.find?_eq_none.mp hlatest g' (List.mem_of_find?_eq_some hg')
        rw [GameOp.findLiveGame_gameId hg'] at hnot
        simp [hfree, hph, hamount] at hnot
      | moved m g' hm hid hg' hph hamount =>
        have hnot := List.findSome?_eq_none_iff.mp hredo m hm
        rw [hid, if_pos ⟨hph, hfree⟩] at hnot
        have hgame := List.find?_eq_none.mp hnot g' (List.mem_of_find?_eq_some hg')
        simp [GameOp.findLiveGame_gameId hg', hamount] at hgame
      | settling g' hg' hid hph hamount =>
        rw [settlingGame, List.find?_isSome]
        exact ⟨g', hg', by simp [hph, hamount]⟩

/-- Nothing that has been found is lost, and a game that is matched has its coin. -/
theorem mem_matchCoins {unrollCoinId : Hash} {id : GameID} {ph : Hash} {amount : ℕ}
    {coins : List (Hash × ℕ)} {matched : List GameID} {res : Dict CoinString OnChainGameState}
    (hgame : ∀ matched, id ∉ matched → (ch.gameOfCoin matched ph amount).isSome = true)
    (honly : ∀ ph' amount' matched state live, (ph', amount') ∈ coins →
      ch.gameOfCoin matched ph' amount' = some (state, live) → state.gameId = id →
        ph' = ph ∧ amount' = amount)
    (hmatched : id ∈ matched → (⟨unrollCoinId, ph, amount⟩ : CoinString) ∈ res)
    (hcoin : (ph, amount) ∈ coins ∨ (⟨unrollCoinId, ph, amount⟩ : CoinString) ∈ res) :
    (⟨unrollCoinId, ph, amount⟩ : CoinString) ∈ ch.matchCoins unrollCoinId matched res coins := by
  induction coins generalizing matched res with
  | nil =>
    rcases hcoin with hmem | hres
    · cases hmem
    · exact hres
  | cons created coins ih =>
    obtain ⟨ph', amount'⟩ := created
    have honly' := fun ph₁ amount₁ matched₁ state₁ live₁ hmem =>
      honly ph₁ amount₁ matched₁ state₁ live₁ (List.mem_cons_of_mem _ hmem)
    rw [matchCoins]
    cases hfound : ch.gameOfCoin matched ph' amount' with
    | none =>
      refine ih honly' hmatched ?_
      rcases hcoin with hmem | hres
      · rcases List.mem_cons.mp hmem with heq | hmem
        · cases heq
          by_cases hid : id ∈ matched
          · exact .inr (hmatched hid)
          · have hsome := hgame matched hid
            rw [hfound] at hsome
            cases hsome
        · exact .inl hmem
      · exact .inr hres
    | some found =>
      obtain ⟨state, live⟩ := found
      have hkept : (⟨unrollCoinId, ph, amount⟩ : CoinString) ∈ res →
          (⟨unrollCoinId, ph, amount⟩ : CoinString) ∈
            res.insert ⟨unrollCoinId, ph', amount'⟩ state := fun hres =>
        (AList.mem_insert _).mpr (.inr hres)
      refine ih honly' (fun hid => ?_) ?_
      · -- if it is this coin that the game is matched with, it is the one that was to be found
        by_cases hsame : state.gameId = id
        · obtain ⟨rfl, rfl⟩ := honly ph' amount' matched state live List.mem_cons_self hfound hsame
          exact (AList.mem_insert _).mpr (.inl rfl)
        · refine hkept (hmatched ?_)
          split at hid
          · rcases List.mem_cons.mp hid with heq | hid
            · exact absurd heq.symm hsame
            · exact hid
          · exact hid
      · rcases hcoin with hmem | hres
        · rcases List.mem_cons.mp hmem with heq | hmem
          · cases heq
            exact .inr ((AList.mem_insert _).mpr (.inl rfl))
          · exact .inl hmem
        · exact .inr (hkept hres)

/-- Coins of the games of a state. -/
def UnrollCoins (ch : ChannelState) (coins : List (Hash × ℕ)) : Prop :=
  ∀ ph amount, (ph, amount) ∈ coins →
    ∃ g ∈ ch.liveGames, g.lastRefereePuzzleHash = ph ∧ g.getAmount = amount

/-- A spend of an unroll coin to the conditions of a state, after the timeout or in place of an older
state; the players are paid to puzzle hashes. -/
structure UnrolledTo (E : ChannelEnv) (ch : ChannelState) (conditions : List CoinCondition) :
    Prop where
  spent : ∃ (args : UnrollArgs) (n : ℕ) (solution : Clvm),
    (solution = ch.conditionsAt n ∨ solution = ch.timeoutConditionsAt n) ∧
      fromPuzzleAndSolution E.toEnv (.unroll args) solution = .ok conditions
  mine : ch.rewardPuzzleHash ≠ []
  theirs : ch.theirRewardPuzzleHash ≠ []

end ChannelState

theorem createdCoin?_of_parseCondition {c : Clvm} {ph : Hash} {amount : ℕ}
    (h : parseCondition c = .ok (.createCoin ph amount)) :
    ∃ raw, createdCoin? c = some (raw, amount) ∧ (raw ≠ [] → raw = ph) := by
  unfold parseCondition at h
  unfold createdCoin?
  split at h
  · rename_i code raw amount' tail hlist
    split_ifs at h with hcode
    · obtain ⟨amount', hamount, h⟩ := bind_eq_ok.mp h
      obtain ⟨ph', hph, h⟩ := bind_eq_ok.mp h
      cases h
      have hamount := orError_eq_ok.mp hamount
      unfold u64FromAtom at hamount
      split_ifs at hamount
      cases hamount
      refine ⟨raw, by simp [hlist, hcode], fun hne => ?_⟩
      unfold hashFromSlice at hph
      rw [if_neg hne] at hph
      split_ifs at hph
      exact Except.ok.inj hph
    · cases h
  · cases h

theorem mem_created_of_parseConditions {cs : List Clvm} {conditions : List CoinCondition}
    {ph : Hash} {amount : ℕ} (h : parseConditions cs = .ok conditions)
    (hmem : .createCoin ph amount ∈ conditions) :
    ∃ raw, (raw, amount) ∈ cs.filterMap createdCoin? ∧ (raw ≠ [] → raw = ph) := by
  induction cs generalizing conditions with
  | nil =>
    cases h
    cases hmem
  | cons c cs ih =>
    obtain ⟨first, hfirst, h⟩ := bind_eq_ok.mp h
    obtain ⟨rest, hrest, h⟩ := bind_eq_ok.mp h
    cases h
    rcases List.mem_cons.mp hmem with heq | hmem
    · obtain ⟨raw, hraw, hph⟩ := createdCoin?_of_parseCondition (heq ▸ hfirst)
      exact ⟨raw, List.mem_filterMap.mpr ⟨c, List.mem_cons_self, hraw⟩, hph⟩
    · obtain ⟨raw, hraw, hph⟩ := ih hrest hmem
      obtain ⟨c', hc', hcreated⟩ := List.mem_filterMap.mp hraw
      exact ⟨raw, List.mem_filterMap.mpr ⟨c', List.mem_cons_of_mem _ hc', hcreated⟩, hph⟩

/-- The puzzle adds no coin to those of its solution. -/
theorem createdCoins_stateChannelUnrolling {sha256 : Bytes → Bytes} {args : UnrollArgs}
    {solution conditions : Clvm} (h : stateChannelUnrolling sha256 args solution = some conditions) :
    createdCoins conditions = createdCoins solution := by
  unfold stateChannelUnrolling at h
  dsimp only at h
  split_ifs at h with hhash
  · rw [Option.some.inj h]
  · obtain ⟨first, -, h⟩ := Option.bind_eq_some_iff.mp h
    obtain ⟨rest, -, h⟩ := Option.bind_eq_some_iff.mp h
    obtain ⟨number, -, h⟩ := Option.bind_eq_some_iff.mp h
    obtain ⟨bytes, -, h⟩ := Option.bind_eq_some_iff.mp h
    split_ifs at h
    cases h
    unfold createdCoins
    rw [Clvm.properList]
    cases solution.properList with
    | none => rfl
    | some conds => rfl

namespace ChannelState

variable {E : ChannelEnv} {ch : ChannelState} {conditions : List CoinCondition}

/-- The unroll creates the coins that the state pays out. -/
theorem UnrolledTo.payouts (h : ch.UnrolledTo E conditions) {ph : Hash} {amount : ℕ}
    (hmem : .createCoin ph amount ∈ conditions) :
    ∃ raw, (raw, amount) ∈ ch.payouts ∧ (raw ≠ [] → raw = ph) := by
  obtain ⟨args, n, solution, hsolution, hspend⟩ := h.spent
  have hpaid : createdCoins solution = .ok ch.payouts := by
    rcases hsolution with rfl | rfl
    · exact ch.createdCoins_conditionsAt n
    · exact ch.createdCoins_timeoutConditionsAt n
  obtain ⟨raw, hraw, hspend⟩ := bind_eq_ok.mp hspend
  obtain ⟨list, hlist, hparsed⟩ := bind_eq_ok.mp hspend
  have hrun := createdCoins_stateChannelUnrolling (orError_eq_ok.mp hraw)
  rw [hpaid, createdCoins, orError_eq_ok.mp hlist] at hrun
  rw [← Except.ok.inj hrun]
  exact mem_created_of_parseConditions hparsed hmem

/-- Those of its coins that are no payouts are coins of its games. -/
theorem UnrolledTo.unrollCoins (hh : CollisionFree E.sha256) {S : ChannelState}
    (h : S.UnrolledTo E conditions) (hseated : ∀ g ∈ S.liveGames, g.Seated E S)
    (hmine : ch.rewardPuzzleHash = S.rewardPuzzleHash)
    (htheirs : ch.theirRewardPuzzleHash = S.theirRewardPuzzleHash) :
    S.UnrollCoins (SpendChannelCoinPhase.Running.gameCoins ch conditions) := by
  intro ph amount hmem
  obtain ⟨hcreated, -, hnotMine, hnotTheirs⟩ :=
    SpendChannelCoinPhase.Running.mem_gameCoins.mp hmem
  obtain ⟨raw, hpaid, hsame⟩ := h.payouts hcreated
  rw [ChannelState.payouts, List.mem_append] at hpaid
  rcases hpaid with hreward | hgame
  · -- the reward coins have been left out
    have hrewards : raw = S.rewardPuzzleHash ∨ raw = S.theirRewardPuzzleHash := by
      split_ifs at hreward <;> simp only [List.mem_cons, Prod.mk.injEq, List.not_mem_nil] at hreward <;>
        tauto
    rcases hrewards with rfl | rfl
    · exact absurd (hsame h.mine).symm (hmine ▸ hnotMine)
    · exact absurd (hsame h.theirs).symm (htheirs ▸ hnotTheirs)
  · obtain ⟨g, hg, heq⟩ := List.mem_map.mp hgame
    cases heq
    obtain ⟨a, ha, -⟩ := latest_args (hseated g hg)
    exact ⟨g, hg, hsame (ha ▸ hh.ne_nil _), rfl⟩

end ChannelState

open OffChainPhase (Snapshot Ended)

/-- How the coins of an unroll are matched with the games of a channel state. -/
structure CoinsMatched (E : ChannelEnv) (ch : ChannelState) (x : Snapshot) (unrollCoin : CoinString)
    (coins : List (Hash × ℕ)) : Prop where
  once : ∀ coin coin' state state',
    (ch.setStateForCoins E unrollCoin coins).lookup coin = some state →
    (ch.setStateForCoins E unrollCoin coins).lookup coin' = some state' →
    state.gameId = state'.gameId → coin = coin'
  known : ∀ coin state, (ch.setStateForCoins E unrollCoin coins).lookup coin = some state →
    ∃ g ∈ ch.liveGames ++ ch.pendingSettlements, g.gameId = state.gameId ∧
      g.getAmount = coin.amount ∧ (g.lastRefereePuzzleHash = coin.puzzleHash ∨
        ∃ m ∈ ch.cachedMoves, m.gameId = g.gameId ∧ m.matchPuzzleHash = coin.puzzleHash)
  -- the games that the peer has not acted on since
  complete : ∀ g ∈ x.state.liveGames, (g.lastRefereePuzzleHash, g.getAmount) ∈ coins →
    g.gameId ∉ touched x.since → ∃ state, (ch.setStateForCoins E unrollCoin coins).lookup
      ⟨unrollCoin.toCoinId E.sha256, g.lastRefereePuzzleHash, g.getAmount⟩ = some state ∧
        state.gameId = g.gameId
  -- a game that is settled at the opponent's turn is left out
  turns : ∀ coin state, (ch.setStateForCoins E unrollCoin coins).lookup coin = some state →
    (∀ g ∈ ch.pendingSettlements, g.gameId = state.gameId → g.isMyTurn = true) →
    ∃ a : RefereeArgs, a.puzzleHash E.sha256 = coin.puzzleHash ∧
      a.moverPubkey = E.keyBytes (if state.ourTurn then ch.ourRefereeKey else ch.theirRefereePubkey)

namespace OffChainPhase

open ChannelState (setStateForCoins_found carries_of_last latest_args redo_args)

variable {E : ChannelEnv} {o : Opening E} {ch : ChannelState} {sent received x : Snapshot}

/-- The coin of a game of a snapshot carries the number of the game. -/
theorem isCoinOf_last {S : ChannelState} (h : Last E o S) {g : LiveGame} (hg : g ∈ S.liveGames) :
    IsCoinOf E.toEnv g.lastRefereePuzzleHash g.gameId := by
  obtain ⟨a, ha, hnonce, -⟩ := latest_args ((carries_of_last h).live g hg)
  exact ⟨a, ha, hnonce⟩

/-- A coin of a game of a snapshot is found for no other game. -/
theorem found_gameId (hh : CollisionFree E.sha256) {S : ChannelState} (hch : Last E o ch)
    (hS : Last E o S) {g : LiveGame} (hg : g ∈ S.liveGames) {amount : ℕ} {state : OnChainGameState}
    (hfound : ch.Found g.lastRefereePuzzleHash amount state) : state.gameId = g.gameId :=
  (hfound.isCoinOf (carries_of_last hch)).unique hh (isCoinOf_last hS hg)

/-- The game of a snapshot that a coin belongs to. -/
theorem game_of_coin (hh : CollisionFree E.sha256) {S : ChannelState} (hch : Last E o ch)
    (hS : Last E o S) {coins : List (Hash × ℕ)} (hcoins : S.UnrollCoins coins)
    {unrollCoin coin : CoinString} {state : OnChainGameState}
    (hcoin : (ch.setStateForCoins E unrollCoin coins).lookup coin = some state) :
    ∃ g ∈ S.liveGames, g.gameId = state.gameId ∧
      coin = ⟨unrollCoin.toCoinId E.sha256, g.lastRefereePuzzleHash, g.getAmount⟩ := by
  obtain ⟨hmem, hparent, hfound⟩ := setStateForCoins_found hcoin
  obtain ⟨g, hg, hph, hamount⟩ := hcoins _ _ hmem
  rw [← hph] at hfound
  refine ⟨g, hg, (found_gameId hh hch hS hg hfound).symm, ?_⟩
  rw [← hparent, hph, hamount]

theorem Ended.matched (hh : CollisionFree E.sha256) (h : Ended E o ch sent received)
    (hx : x = sent ∨ x = received) {coins : List (Hash × ℕ)} (hcoins : x.state.UnrollCoins coins)
    (unrollCoin : CoinString) : CoinsMatched E ch x unrollCoin coins := by
  obtain ⟨hch, hsent, hreceived⟩ := h.snapshots
  have hcarries := carries_of_last hch
  have hx' : Last E o x.state ∧ x.Known ch := by
    rcases hx with rfl | rfl
    · exact ⟨hsent, h.known.1⟩
    · exact ⟨hreceived, h.known.2⟩
  obtain ⟨hlast, hknown⟩ := hx'
  have hids := (carries_of_last hlast).ids
  refine ⟨?_, ?_, ?_, ?_⟩
  · intro coin coin' state state' hcoin hcoin' hsame
    obtain ⟨g, hg, hid, rfl⟩ := game_of_coin hh hch hlast hcoins hcoin
    obtain ⟨g', hg', hid', rfl⟩ := game_of_coin hh hch hlast hcoins hcoin'
    have hgames : g = g' := List.inj_on_of_nodup_map hids (List.mem_append_left _ hg)
      (List.mem_append_left _ hg') (hid.trans (hsame.trans hid'.symm))
    rw [hgames]
  · intro coin state hcoin
    obtain ⟨-, -, hfound⟩ := setStateForCoins_found hcoin
    generalize hph' : coin.puzzleHash = ph at hfound
    cases hfound with
    | latest g hg hph hamount =>
      exact ⟨g, List.mem_append_left _ hg, rfl, hamount, .inl hph⟩
    | redo m g hm hg hid hph hamount =>
      exact ⟨g, List.mem_append_left _ hg, rfl, hamount, .inr ⟨m, hm, hid.symm, hph⟩⟩
    | settling g hg hph hamount =>
      exact ⟨g, List.mem_append_right _ hg, rfl, hamount, .inl hph⟩
  · intro g hg hcoin huntouched
    have hfollows := hknown g hg huntouched
    have honly : ∀ ph' amount' matched state live, (ph', amount') ∈ coins →
        ch.gameOfCoin matched ph' amount' = some (state, live) → state.gameId = g.gameId →
          ph' = g.lastRefereePuzzleHash ∧ amount' = g.getAmount := by
      rintro ph' amount' matched state live hmem hsome hid
      obtain ⟨g', hg', rfl, rfl⟩ := hcoins ph' amount' hmem
      have hid' := found_gameId hh hch hlast hg' (ChannelState.gameOfCoin_found hsome)
      have hgames : g' = g := List.inj_on_of_nodup_map hids (List.mem_append_left _ hg')
        (List.mem_append_left _ hg) (hid'.symm.trans hid)
      rw [hgames]
      exact ⟨rfl, rfl⟩
    have hmem : (⟨unrollCoin.toCoinId E.sha256, g.lastRefereePuzzleHash, g.getAmount⟩ : CoinString) ∈
        ch.setStateForCoins E unrollCoin coins :=
      ChannelState.mem_matchCoins (fun matched hfree => hfollows.gameOfCoin hfree) honly
        (fun hid => by cases hid) (.inl hcoin)
    obtain ⟨state, hstate⟩ := Option.isSome_iff_exists.mp (AList.lookup_isSome.mpr hmem)
    obtain ⟨-, -, hfound⟩ := setStateForCoins_found hstate
    exact ⟨state, hstate, found_gameId hh hch hlast hg hfound⟩
  · intro coin state hcoin hsettling
    obtain ⟨-, -, hfound⟩ := setStateForCoins_found hcoin
    generalize hph' : coin.puzzleHash = ph at hfound ⊢
    cases hfound with
    | latest g hg hph hamount =>
      obtain ⟨a, ha, -, hmover⟩ := latest_args (hcarries.live g hg)
      exact ⟨a, ha.trans hph, hmover⟩
    | redo m g hm hg hid hph hamount =>
      obtain ⟨t, hreplays⟩ := hcarries.moves m hm g
        (hid ▸ ChannelState.findLiveGame_of_mem hcarries.ids hg)
      obtain ⟨a, ha, -, hmover⟩ := redo_args (hcarries.live g hg) hreplays
      exact ⟨a, ha.trans hph, hmover⟩
    | settling g hg hph hamount =>
      obtain ⟨a, ha, -, hmover⟩ := latest_args (hcarries.settling g hg)
      rw [hsettling g hg rfl] at hmover
      exact ⟨a, ha.trans hph, hmover⟩

end OffChainPhase

/-! The peer's answers to our move. -/

namespace Gambit

open OffChainPhase (Reach processQueuedMessage applyActions)
open SpendChannelCoinPhase.Running (gameCoins)

/-- The puzzle hash of the game's coin after the move. -/
def lastWord : Bytes :=
  ((channelOf [] (moved [])).liveGames.map LiveGame.lastRefereePuzzleHash).headD []

def lastEnv : ChannelEnv := envOf lastWord

def sentChannel : ChannelState := channelOf lastWord (moved lastWord)

/-- The coin that the last unroll that we signed leaves of the game. -/
def lastCoin : CoinString := ⟨unrollCoin.toCoinId lastEnv.sha256, List.replicate 32 4, 2⟩

def lastConditions : List CoinCondition :=
  [.other, .other, .createCoin Steady.otherHash 9, .createCoin Steady.walletHash 9,
    .createCoin lastCoin.puzzleHash 2]

def receives (msg : PeerMessage) : OffChainPhase :=
  { moved lastWord with incomingMessages := (moved lastWord).incomingMessages ++ [msg] }

/-- The peer moves on. -/
def reply : GameMoveDetails := ⟨⟨[9], 1, 5, [5]⟩, .hash hash, none⟩

def replying : PeerMessage := signedBatch lastWord (moved lastWord) [.move 1 reply]

def replied : OffChainPhase := (processQueuedMessage lastEnv).after (receives replying)

def repliedChannel : ChannelState := channelOf lastWord replied

/-- The peer settles the game and shuts the channel down with it. -/
def settledChannel : ChannelState :=
  channelOf lastWord ((applyActions lastEnv [.acceptSettlement 1 0]).after (moved lastWord))

def shutdown : PeerMessage :=
  .batch ⟨[.acceptSettlement 1 0], .default,
    some (partialSign 21 settledChannel.getAggregateChannelPublicKey (channelSpendMessage lastEnv
        (settledChannel.channelCoin.toCoinId lastEnv.sha256)
        settledChannel.getConditionsWithChannelState),
      settledChannel.getConditionsWithChannelState)⟩

def shut : OffChainPhase := (processQueuedMessage lastEnv).after (receives shutdown)

def shutChannel : ChannelState :=
  (shut.channelSpendNextPhase.bind SpendChannelCoinPhase.channelState).getD sentChannel

/-- What the spend of the unroll that a player sent last leads to. -/
def unrolled (ch : ChannelState) : Except Error (List CoinCondition) := do
  let args ← ch.latestSentUnroll.coin.makeCurriedUnrollPuzzle lastEnv ch.getAggregateUnrollPublicKey
  fromPuzzleAndSolution lastEnv.toEnv (.unroll args)
    (← ch.latestSentUnroll.coin.getConditionsForUnrollCoinSpend)

def found (ch : ChannelState) : Option OnChainGameState :=
  (ch.setStateForCoins lastEnv unrollCoin (gameCoins ch lastConditions)).lookup lastCoin

def lastArgs : RefereeArgs :=
  ((sentChannel.findGame 1).map fun g => g.refereeMaker.spendThisCoin.coin lastEnv.toEnv).getD
    coinArgs

def beforeLast : OffChainPhase :=
  { proposed lastWord with
    incomingMessages := (proposed lastWord).incomingMessages ++ [acceptance lastWord] }

-- one evaluation for all again
theorem answers_evaluated :
    ((processQueuedMessage lastEnv).succeeds beforeLast = true ∧
      (accepted lastWord).channelSpendNextPhase.isNone = true) ∧
    ((processQueuedMessage lastEnv).succeeds (receives replying) = true ∧
      replied.channelSpendNextPhase.isNone = true ∧ replied.channelState.isSome = true ∧
      unrolled repliedChannel = .ok lastConditions ∧
      (lastCoin.puzzleHash, lastCoin.amount) ∈ gameCoins repliedChannel lastConditions ∧
      (found repliedChannel).isNone = true) ∧
    (processQueuedMessage lastEnv).succeeds (receives shutdown) = true ∧
      (shut.channelSpendNextPhase.bind SpendChannelCoinPhase.channelState).isSome = true ∧
      unrolled shutChannel = .ok lastConditions ∧
      ((found shutChannel).any fun state => state.ourTurn) = true ∧
      lastArgs.puzzleHash lastEnv.sha256 = lastCoin.puzzleHash ∧
      lastArgs.moverPubkey = lastEnv.keyBytes shutChannel.theirRefereePubkey ∧
      lastEnv.keyBytes shutChannel.theirRefereePubkey ≠
        lastEnv.keyBytes shutChannel.ourRefereeKey := by
  decide +kernel

theorem moved_reached : Reach lastEnv (opening lastWord) (moved lastWord) := by
  obtain ⟨⟨hok, hnext⟩, -⟩ := answers_evaluated
  obtain ⟨effects, hok⟩ := Act.eq_ok_of_succeeds hok
  exact (((((Reach.start _ _).act _).act _).receive (acceptance lastWord) hok
    (Option.isNone_iff_eq_none.mp hnext)).act _).act _

theorem replied_carried : OffChainPhase.Carried lastEnv (opening lastWord) repliedChannel := by
  obtain ⟨-, ⟨hok, hnext, hsome, -⟩, -⟩ := answers_evaluated
  obtain ⟨effects, hok⟩ := Act.eq_ok_of_succeeds hok
  obtain ⟨ch, hch⟩ := Option.isSome_iff_exists.mp hsome
  have hchannel : repliedChannel = ch := by
    rw [repliedChannel, channelOf, hch]
    rfl
  exact hchannel ▸ .disputed (.running (moved_reached.receive replying hok
    (Option.isNone_iff_eq_none.mp hnext)) hch)

theorem shut_carried : OffChainPhase.Carried lastEnv (opening lastWord) shutChannel := by
  obtain ⟨-, -, hok, hsome, -⟩ := answers_evaluated
  obtain ⟨effects, hok⟩ := Act.eq_ok_of_succeeds hok
  obtain ⟨ch, hch⟩ := Option.isSome_iff_exists.mp hsome
  obtain ⟨s, hs, hsch⟩ := Option.bind_eq_some_iff.mp hch
  have hchannel : shutChannel = ch := by
    rw [shutChannel, hch]
    rfl
  exact hchannel ▸ .shut moved_reached _ hok hs hsch

end Gambit

end ChiaGaming
