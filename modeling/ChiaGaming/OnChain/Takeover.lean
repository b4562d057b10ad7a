import ChiaGaming.OnChain.Queue

namespace ChiaGaming

open Act

/-! What an unroll leaves of the games. -/

namespace ChannelState

variable {E : ChannelEnv} {ch : ChannelState}

/-- The ways in which a coin of an unroll belongs to a game. -/
inductive Found (ch : ChannelState) (ph : Hash) (amount : ℕ) : OnChainGameState → Prop where
  | latest (g : LiveGame) (hg : g ∈ ch.liveGames) (hph : g.lastRefereePuzzleHash = ph)
      (hamount : g.getAmount = amount) :
      Found ch ph amount (g.coinState ph ch.stateNumber g.isMyTurn false g.isGameOver)
  | redo (m : CachedSendMove) (g : LiveGame) (hm : m ∈ ch.cachedMoves) (hg : g ∈ ch.liveGames)
      (hid : g.gameId = m.gameId) (hph : m.matchPuzzleHash = ph) (hamount : g.getAmount = amount) :
      Found ch ph amount (g.coinState ph ch.stateNumber true false g.isGameOver)
  | settling (g : LiveGame) (hg : g ∈ ch.pendingSettlements) (hph : g.lastRefereePuzzleHash = ph)
      (hamount : g.getAmount = amount) :
      Found ch ph amount (g.coinState ph ch.stateNumber true true false)

theorem gameOfCoin_found {matched : List GameID} {ph : Hash} {amount : ℕ}
    {state : OnChainGameState} {live : Bool}
    (h : ch.gameOfCoin matched ph amount = some (state, live)) : ch.Found ph amount state := by
  rw [gameOfCoin] at h
  cases hlatest : ch.latestGame matched ph amount with
  | some g =>
    rw [hlatest] at h
    cases h
    have hcond := List.find?_some hlatest
    simp only [decide_eq_true_eq] at hcond
    exact .latest g (List.mem_of_find?_eq_some hlatest) hcond.2.1 hcond.2.2
  | none =>
    rw [hlatest] at h
    dsimp only at h
    cases hredo : ch.redoGame matched ph amount with
    | some g =>
      rw [hredo] at h
      cases h
      obtain ⟨m, hm, hgame⟩ := List.exists_of_findSome?_eq_some hredo
      split at hgame
      · rename_i hmatch
        have hcond := List.find?_some hgame
        simp only [decide_eq_true_eq] at hcond
        exact .redo m g hm (List.mem_of_find?_eq_some hgame) hcond.1 hmatch.1 hcond.2
      · cases hgame
    | none =>
      rw [hredo] at h
      obtain ⟨g, hsettling, heq⟩ := Option.map_eq_some_iff.mp h
      cases heq
      have hcond := List.find?_some hsettling
      simp only [decide_eq_true_eq] at hcond
      exact .settling g (List.mem_of_find?_eq_some hsettling) hcond.1 hcond.2

/-- Every coin that is tracked stems from the unroll, where a game was found for it. -/
theorem matchCoins_gameOfCoin {unrollCoinId : Hash} {matched : List GameID}
    {res : Dict CoinString OnChainGameState} {coins : List (Hash × ℕ)} {coin : CoinString}
    {state : OnChainGameState}
    (h : (ch.matchCoins unrollCoinId matched res coins).lookup coin = some state) :
    res.lookup coin = some state ∨ (coin.puzzleHash, coin.amount) ∈ coins ∧
      coin.parent = unrollCoinId ∧ ∃ matched' live,
        ch.gameOfCoin matched' coin.puzzleHash coin.amount = some (state, live) := by
  induction coins generalizing matched res with
  | nil => exact .inl h
  | cons created coins ih =>
    obtain ⟨ph, amount⟩ := created
    rw [matchCoins] at h
    cases hgame : ch.gameOfCoin matched ph amount with
    | none =>
      rw [hgame] at h
      rcases ih h with hres | ⟨hmem, hparent, hfound⟩
      · exact .inl hres
      · exact .inr ⟨List.mem_cons_of_mem _ hmem, hparent, hfound⟩
    | some found =>
      obtain ⟨state', live⟩ := found
      rw [hgame] at h
      rcases ih h with hres | ⟨hmem, hparent, hfound⟩
      · by_cases hcoin : coin = ⟨unrollCoinId, ph, amount⟩
        · subst hcoin
          rw [AList.lookup_insert] at hres
          cases hres
          exact .inr ⟨List.mem_cons_self, rfl, matched, live, hgame⟩
        · rw [AList.lookup_insert_ne hcoin] at hres
          exact .inl hres
      · exact .inr ⟨List.mem_cons_of_mem _ hmem, hparent, hfound⟩

theorem setStateForCoins_gameOfCoin {unrollCoin : CoinString} {coins : List (Hash × ℕ)}
    {coin : CoinString} {state : OnChainGameState}
    (h : (ch.setStateForCoins E unrollCoin coins).lookup coin = some state) :
    (coin.puzzleHash, coin.amount) ∈ coins ∧ coin.parent = unrollCoin.toCoinId E.sha256 ∧
      ∃ matched live, ch.gameOfCoin matched coin.puzzleHash coin.amount = some (state, live) := by
  rcases matchCoins_gameOfCoin h with hempty | hfound
  · cases hempty
  · exact hfound

theorem setStateForCoins_found {unrollCoin : CoinString} {coins : List (Hash × ℕ)}
    {coin : CoinString} {state : OnChainGameState}
    (h : (ch.setStateForCoins E unrollCoin coins).lookup coin = some state) :
    (coin.puzzleHash, coin.amount) ∈ coins ∧ coin.parent = unrollCoin.toCoinId E.sha256 ∧
      ch.Found coin.puzzleHash coin.amount state := by
  obtain ⟨hmem, hparent, matched, live, hgame⟩ := setStateForCoins_gameOfCoin h
  exact ⟨hmem, hparent, gameOfCoin_found hgame⟩

/-- The channel state once the settlements without a coin are done with. -/
def survived (ch : ChannelState) (survivingIds : List GameID) : ChannelState :=
  (drainPreemptResolvedAcceptSettlements survivingIds).after ch

@[simp] theorem liveGames_survived (ids : List GameID) :
    (ch.survived ids).liveGames = ch.liveGames := rfl

theorem cachedMoves_survived (ids : List GameID) : (ch.survived ids).cachedMoves = ch.cachedMoves := by
  have hcached : (ch.survived ids).cachedMoves =
      (ch.cachedRedoActions.filter fun entry => (acceptedSettlement? entry).all
        fun a : CachedAcceptSettlement => a.gameId ∈ ids).filterMap sentMove? := rfl
  rw [hcached, cachedMoves, List.filterMap_filter]
  refine List.filterMap_congr fun entry _ => ?_
  cases entry with
  | cachedSendMove m => rfl
  | proposalAccepted id => rfl
  | cachedAcceptSettlement a => exact ite_self _

theorem mem_pendingSettlements_survived {ids : List GameID} {g : LiveGame}
    (h : g.gameId ∈ ids) :
    g ∈ (ch.survived ids).pendingSettlements ↔ g ∈ ch.pendingSettlements := by
  have hpending : (ch.survived ids).pendingSettlements = ch.pendingSettlements.filter fun g =>
      g.gameId ∉ ((ch.cachedRedoActions.filterMap acceptedSettlement?).filter fun a =>
        a.gameId ∉ ids).map CachedAcceptSettlement.gameId := rfl
  rw [hpending, List.mem_filter]
  refine and_iff_left ?_
  simp only [decide_eq_true_eq, List.mem_map, List.mem_filter, not_exists, not_and]
  rintro a ⟨-, hgone⟩ heq
  exact hgone (heq ▸ h)

end ChannelState

namespace SpendChannelCoinPhase.Running

open ChannelState (survived)

variable {E : ChannelEnv} {s s' : Running} {ch ch' : ChannelState}

theorem channel_of_some (hch : s.channelState = some ch) : channel s = .ok ch s := by
  rw [channel, bind_of_ok (get_apply s), hch]
  rfl

theorem onChannel_eq_ok {α : Type} {x : Act Error ChannelState α} {a : α}
    (hch : s.channelState = some ch) :
    onChannel x s = .ok a s' ↔ ∃ ch', x ch = .ok a ch' ∧ s' = { s with channelState := some ch' } := by
  rw [onChannel, hch]
  dsimp only
  cases x ch with
  | ok b ch' => simp [eq_comm]
  | error e ch' => simp

/-- The coins of an unroll that belong to games. -/
def unrollMap (E : ChannelEnv) (ch : ChannelState) (unrollCoin : CoinString)
    (conditions : List CoinCondition) : Dict CoinString OnChainGameState :=
  ch.setStateForCoins E unrollCoin (gameCoins ch conditions)

/-- The games that the unroll has coins of. -/
def survivingIds (gameMap : Dict CoinString OnChainGameState) : List GameID :=
  gameMap.entries.map fun e => e.2.gameId

theorem mem_gameCoins {conditions : List CoinCondition} {ph : Hash} {amount : ℕ} :
    (ph, amount) ∈ gameCoins ch conditions ↔ .createCoin ph amount ∈ conditions ∧ 0 < amount ∧
      ph ≠ ch.rewardPuzzleHash ∧ ph ≠ ch.theirRewardPuzzleHash := by
  induction conditions with
  | nil => simp [gameCoins]
  | cons c conditions ih =>
    cases c with
    | other => simp [gameCoins, ih]
    | createCoin ph' amount' =>
      rw [gameCoins]
      split_ifs with hcoin
      · rw [List.mem_cons, List.mem_cons, ih]
        constructor
        · rintro (heq | ⟨hmem, h⟩)
          · cases heq
            exact ⟨.inl rfl, hcoin⟩
          · exact ⟨.inr hmem, h⟩
        · rintro ⟨heq | hmem, h⟩
          · cases heq
            exact .inl rfl
          · exact .inr ⟨hmem, h⟩
      · rw [ih, List.mem_cons]
        constructor
        · rintro ⟨hmem, h⟩
          exact ⟨.inr hmem, h⟩
        · rintro ⟨heq | hmem, h⟩
          · cases heq
            exact absurd h hcoin
          · exact ⟨hmem, h⟩

/-- The spend of a game coin that an effect asks for. -/
def spendOf : ChainEffect → Option RefereeSpend
  | .spendTransaction spend => some spend
  | _ => none

theorem resolveGames_ok {unrollCoin : CoinString} {conditions : List CoinCondition} {n : ℕ}
    {games : UnrollGames} (hch : s.channelState = some ch)
    (h : resolveGames E unrollCoin conditions n s = .ok games s') :
    games.gameMap = unrollMap E ch unrollCoin conditions ∧
      s'.channelState = some (ch.survived (survivingIds games.gameMap)) ∧
      s'.replacement = s.replacement ∧ s'.gameActionQueue = s.gameActionQueue ∧
      games.effects.filterMap spendOf = [] := by
  rw [resolveGames, bind_of_ok (channel_of_some hch)] at h
  obtain ⟨u, s₁, hstale, h₁⟩ := Act.bind_eq_ok.mp h
  cases hstale
  obtain ⟨resolved, s₂, hdrain, h₂⟩ := Act.bind_eq_ok.mp h₁
  rw [onChannel_eq_ok (by exact hch)] at hdrain
  obtain ⟨ch', hdrained, rfl⟩ := hdrain
  cases hdrained
  cases h₂
  refine ⟨rfl, rfl, rfl, rfl, ?_⟩
  simp [List.filterMap_append, List.filterMap_map, Function.comp_def, settledBy, spendOf]

theorem droppedEffects_spendOf
    (found : List ((Σ _ : CoinString, OnChainGameState) × Prospect)) :
    (droppedEffects found).filterMap spendOf = [] := by
  have hnone : ∀ entry effect, droppedEffect entry = some effect → spendOf effect = none := by
    intro entry effect h
    rw [droppedEffect] at h
    split at h <;> cases h <;> rfl
  have hdropped : ∀ entries : List ((Σ _ : CoinString, OnChainGameState) × Prospect),
      (entries.filterMap droppedEffect).filterMap spendOf = [] := by
    intro entries
    rw [List.filterMap_eq_nil_iff]
    intro effect heffect
    obtain ⟨entry, -, hentry⟩ := List.mem_filterMap.mp heffect
    exact hnone entry effect hentry
  rw [droppedEffects, List.filterMap_append, hdropped, hdropped]
  rfl

theorem prospects_ok {entries : List (Σ _ : CoinString, OnChainGameState)}
    {found : List ((Σ _ : CoinString, OnChainGameState) × Prospect)}
    (h : prospects ch entries = .ok found) :
    found.map Prod.fst = entries ∧ ∀ x ∈ found, prospect ch x.1.2 = .ok x.2 := by
  induction entries generalizing found with
  | nil =>
    cases h
    exact ⟨rfl, List.forall_mem_nil _⟩
  | cons e es ih =>
    obtain ⟨kind, hkind, h⟩ := bind_eq_ok.mp h
    obtain ⟨rest, hrest, h⟩ := bind_eq_ok.mp h
    cases h
    obtain ⟨hmap, hall⟩ := ih hrest
    exact ⟨by rw [List.map_cons, hmap], List.forall_mem_cons.mpr ⟨hkind, hall⟩⟩

/-- A coin is followed further if it is worth it. -/
theorem lookup_keptCoins {gameMap : Dict CoinString OnChainGameState}
    {found : List ((Σ _ : CoinString, OnChainGameState) × Prospect)}
    (h : prospects ch gameMap.entries = .ok found) {coin : CoinString} {state : OnChainGameState} :
    (keptCoins gameMap found).lookup coin = some state ↔
      gameMap.lookup coin = some state ∧ prospect ch state = .ok .kept := by
  obtain ⟨hmap, hall⟩ := prospects_ok h
  rw [keptCoins, Dict.lookup_retain, Option.filter_eq_some_iff]
  refine and_congr_right fun hlookup => ?_
  simp only [List.all_eq_true, decide_eq_true_eq]
  have hentry := Dict.lookup_eq_some.mp hlookup
  constructor
  · intro hkept
    rw [← hmap] at hentry
    obtain ⟨x, hx, hfst⟩ := List.mem_map.mp hentry
    have hprospect := hall x hx
    rw [hfst] at hprospect
    rcases hkept x hx with hne | heq
    · exact absurd (congrArg Sigma.fst hfst) hne
    · rw [hprospect, heq]
  · intro hprospect x hx
    by_cases hcoin : x.1.1 = coin
    · right
      have hx' : x.1 ∈ gameMap.entries := hmap ▸ List.mem_map_of_mem hx
      have hsame : gameMap.lookup coin = some x.1.2 := Dict.lookup_eq_some.mpr (hcoin ▸ hx')
      have hstate : x.1.2 = state := Option.some.inj (hsame.symm.trans hlookup)
      have hkind := hall x hx
      rw [hstate, hprospect] at hkind
      exact (Except.ok.inj hkind).symm
    · exact .inl hcoin

/-- The phase that has games to follow, as the channel state hands them over. -/
structure HandedOver (E : ChannelEnv) (s : Running) (ch : ChannelState)
    (gameMap : Dict CoinString OnChainGameState) (effects : List ChainEffect) (s' : Running) :
    Prop where
  replaced : ∃ redos ch' wasStale rewardCoin,
    redoMoves E ((gameMap.entries.filter fun e =>
      e.2.ourTurn && ch.hasCachedMoveForGame e.2.gameId).map fun e => e.2.gameId)
        gameMap.entries ch = .ok redos ch' ∧
      effects = gameMap.entries.map (unrollStatus ch) ++ redos.map (fun r => r.2.2) ∧
      s'.replacement = some (OnChainPhase.new ch'
        (s.gameActionQueue.filter fun action => action ≠ .cleanShutdown) gameMap
        (pendingMovesOf redos) wasStale rewardCoin)

theorem handOver_handedOver {gameMap : Dict CoinString OnChainGameState} {effects : List ChainEffect}
    (hch : s.channelState = some ch) (h : handOver E gameMap s = .ok effects s') :
    HandedOver E s ch gameMap effects s' := by
  rw [handOver, bind_of_ok (channel_of_some hch)] at h
  obtain ⟨redos, s₁, hredos, h₁⟩ := Act.bind_eq_ok.mp h
  obtain ⟨ch', hredone, rfl⟩ := (onChannel_eq_ok hch).mp hredos
  cases h₁
  exact ⟨⟨redos, ch', _, _, hredone, rfl, rfl⟩⟩

/-- What has become of the coins of an unroll once it is dealt with. -/
structure TakenOver (E : ChannelEnv) (s : Running) (ch : ChannelState) (unrollCoin : CoinString)
    (conditions : List CoinCondition) (handed : Bool) (s' : Running) : Prop where
  coins : ∃ found, prospects (ch.survived (survivingIds (unrollMap E ch unrollCoin conditions)))
      (unrollMap E ch unrollCoin conditions).entries = .ok found ∧
    ((keptCoins (unrollMap E ch unrollCoin conditions) found).entries = [] ∧ handed = false ∧
        (∃ p, s'.replacement = some p ∧ p.gameMap = ∅) ∨
      handed = true ∧ ∃ s₁ effects, s₁.gameActionQueue = s.gameActionQueue ∧
        HandedOver E s₁ (ch.survived (survivingIds (unrollMap E ch unrollCoin conditions)))
          (keptCoins (unrollMap E ch unrollCoin conditions) found) effects s')

theorem transitionToCompletedTerminal_ok {resolvedClean : Bool} {u : Unit}
    (hch : s.channelState = some ch)
    (h : transitionToCompletedTerminal resolvedClean s = .ok u s') :
    ∃ p, s'.replacement = some p ∧ p.gameMap = ∅ := by
  rw [transitionToCompletedTerminal, transitionToTerminal, bind_of_ok (get_apply s), hch] at h
  cases h
  exact ⟨_, rfl, rfl⟩

/-- The two ends of an unroll: no coin is worth following, or the games go to the next phase, with
the spends that it starts from. -/
theorem takeOver_handedOver {unrollCoin : CoinString} {spend : Option (ChainPuzzle × Clvm)} {n : ℕ}
    {effects : List ChainEffect} {handed : Bool} (hch : s.channelState = some ch)
    (h : takeOver E unrollCoin spend n s = .ok (effects, handed) s') :
    ∃ puzzle solution conditions found, spend = some (puzzle, solution) ∧
      fromPuzzleAndSolution E.toEnv puzzle solution = .ok conditions ∧
      prospects (ch.survived (survivingIds (unrollMap E ch unrollCoin conditions)))
        (unrollMap E ch unrollCoin conditions).entries = .ok found ∧
      ((keptCoins (unrollMap E ch unrollCoin conditions) found).entries = [] ∧ handed = false ∧
          (∃ p, s'.replacement = some p ∧ p.gameMap = ∅) ∧ effects.filterMap spendOf = [] ∨
        handed = true ∧ ∃ s₁ effects₁, s₁.gameActionQueue = s.gameActionQueue ∧
          HandedOver E s₁ (ch.survived (survivingIds (unrollMap E ch unrollCoin conditions)))
            (keptCoins (unrollMap E ch unrollCoin conditions) found) effects₁ s' ∧
          effects.filterMap spendOf = effects₁.filterMap spendOf) := by
  rw [takeOver] at h
  obtain ⟨⟨puzzle, solution⟩, s₀, hspend, h₁⟩ := Act.bind_eq_ok.mp h
  obtain ⟨hsome, rfl⟩ := lift_eq_ok.mp hspend
  dsimp only at h₁
  rw [bind_of_ok (channel_of_some hch)] at h₁
  obtain ⟨conditions, s₁, hconditions, h₂⟩ := Act.bind_eq_ok.mp h₁
  obtain ⟨hok, rfl⟩ := lift_eq_ok.mp hconditions
  obtain ⟨games, s₂, hgames, h₃⟩ := Act.bind_eq_ok.mp h₂
  obtain ⟨hmap, hch₂, -, hqueue, hquiet⟩ := resolveGames_ok hch hgames
  rw [hmap] at hch₂
  have hsome' : spend = some (puzzle, solution) := by
    cases spend with
    | none => cases hsome
    | some spend => exact congrArg some (Except.ok.inj hsome)
  rw [hmap] at h₃
  rcases ite_eq_ok.mp h₃ with ⟨hempty, h₄⟩ | ⟨-, h₄⟩
  · obtain ⟨u, s₃, hdone, h₅⟩ := Act.bind_eq_ok.mp h₄
    cases h₅
    have hnil := List.isEmpty_iff.mp hempty
    refine ⟨puzzle, solution, conditions, [], hsome', hok, by rw [hnil]; rfl,
      .inl ⟨?_, rfl, transitionToCompletedTerminal_ok hch₂ hdone, hquiet⟩⟩
    rw [keptCoins, Dict.retain]
    dsimp only
    rw [hnil]
    rfl
  · rw [bind_of_ok (channel_of_some hch₂)] at h₄
    obtain ⟨found, s₃, hfound, h₅⟩ := Act.bind_eq_ok.mp h₄
    obtain ⟨hprospects, rfl⟩ := lift_eq_ok.mp hfound
    have hspends : ∀ rest : List ChainEffect,
        (games.effects ++ droppedEffects found ++ rest).filterMap spendOf =
          rest.filterMap spendOf := by
      intro rest
      rw [List.filterMap_append, List.filterMap_append, hquiet, droppedEffects_spendOf]
      rfl
    refine ⟨puzzle, solution, conditions, found, hsome', hok, hprospects, ?_⟩
    rcases ite_eq_ok.mp h₅ with ⟨hempty, h₆⟩ | ⟨-, h₆⟩
    · obtain ⟨u, s₄, hdone, h₇⟩ := Act.bind_eq_ok.mp h₆
      cases h₇
      refine .inl ⟨List.isEmpty_iff.mp hempty, rfl, transitionToCompletedTerminal_ok hch₂ hdone, ?_⟩
      rw [← List.append_nil (games.effects ++ droppedEffects found)]
      exact hspends []
    · obtain ⟨handed', s₄, hhanded, h₇⟩ := Act.bind_eq_ok.mp h₆
      cases h₇
      exact .inr ⟨rfl, _, handed', hqueue, handOver_handedOver hch₂ hhanded, hspends handed'⟩

theorem takeOver_takenOver {unrollCoin : CoinString} {spend : Option (ChainPuzzle × Clvm)} {n : ℕ}
    {effects : List ChainEffect} {handed : Bool} (hch : s.channelState = some ch)
    (h : takeOver E unrollCoin spend n s = .ok (effects, handed) s') :
    ∃ puzzle solution conditions, spend = some (puzzle, solution) ∧
      fromPuzzleAndSolution E.toEnv puzzle solution = .ok conditions ∧
      TakenOver E s ch unrollCoin conditions handed s' := by
  obtain ⟨puzzle, solution, conditions, found, hsome, hok, hprospects, hends⟩ :=
    takeOver_handedOver hch h
  refine ⟨puzzle, solution, conditions, hsome, hok, found, hprospects, ?_⟩
  rcases hends with ⟨hnil, hhanded, hmap, -⟩ | ⟨hhanded, s₁, effects₁, hqueue, hover, -⟩
  · exact .inl ⟨hnil, hhanded, hmap⟩
  · exact .inr ⟨hhanded, s₁, effects₁, hqueue, hover⟩

/-- A coin of the unroll is followed if and only if it is worth it. -/
theorem TakenOver.followed {unrollCoin : CoinString} {conditions : List CoinCondition}
    {handed : Bool} (h : TakenOver E s ch unrollCoin conditions handed s') {coin : CoinString}
    {state : OnChainGameState}
    (hcoin : (unrollMap E ch unrollCoin conditions).lookup coin = some state) :
    ∃ p, s'.replacement = some p ∧ (p.gameMap.lookup coin = none ↔
      prospect (ch.survived (survivingIds (unrollMap E ch unrollCoin conditions))) state ≠
        .ok .kept) := by
  obtain ⟨found, hprospects, h⟩ := h.coins
  have hkept := @lookup_keptCoins _ _ _ hprospects coin state
  rcases h with ⟨hnil, -, p, hp, hmap⟩ | ⟨-, s₁, effects, -, ⟨redos, ch', wasStale, rewardCoin, -, -, hp⟩⟩
  · refine ⟨p, hp, iff_of_true (by rw [hmap]; rfl) fun hworth => ?_⟩
    have hentry := Dict.lookup_eq_some.mp (hkept.mpr ⟨hcoin, hworth⟩)
    rw [hnil] at hentry
    cases hentry
  · refine ⟨_, hp, ?_⟩
    have hnew : (OnChainPhase.new ch' (s₁.gameActionQueue.filter fun action => action ≠ .cleanShutdown)
        (keptCoins (unrollMap E ch unrollCoin conditions) found) (pendingMovesOf redos) wasStale
        rewardCoin).gameMap = keptCoins (unrollMap E ch unrollCoin conditions) found := rfl
    rw [hnew]
    constructor
    · intro hnone hworth
      rw [hkept.mpr ⟨hcoin, hworth⟩] at hnone
      cases hnone
    · intro hworthless
      cases hlookup : (keptCoins (unrollMap E ch unrollCoin conditions) found).lookup coin with
      | none => rfl
      | some state' =>
        obtain ⟨hstate, hworth⟩ := (lookup_keptCoins hprospects).mp hlookup
        obtain rfl := Option.some.inj (hcoin.symm.trans hstate)
        exact absurd hworth hworthless

end SpendChannelCoinPhase.Running

end ChiaGaming
