import ChiaGaming.OnChain.Carried
import ChiaGaming.OnChain.Takeover
import ChiaGaming.Referee.Tracking

namespace ChiaGaming

/-! The coins of an unroll that are let go of. -/

/-- What a timeout of the coin leaves the player with the key. -/
def RefereeArgs.shareOf (a : RefereeArgs) (key : Bytes) : ℤ :=
  if a.moverPubkey = key then intOfBytes a.moverShare
  else intOfBytes a.amount - intOfBytes a.moverShare

namespace ChannelState

variable (E : ChannelEnv) (ch : ChannelState)

def ourRefereeKey : PublicKey := publicKey ch.privateKeys.myRefereePrivateKey

/-- The arguments that are curried in the coin leave us nothing. -/
def PaysNothing (coin : CoinString) : Prop :=
  ∀ a : RefereeArgs, a.puzzleHash E.sha256 = coin.puzzleHash →
    a.shareOf (E.keyBytes ch.ourRefereeKey) ≤ 0

variable {E} {ch}

theorem paysNothing_iff (hh : CollisionFree E.sha256) {coin : CoinString}
    {args : RefereePuzzleArgs} (hcoin : coin.puzzleHash = (args.coin E.toEnv).puzzleHash E.sha256) :
    ch.PaysNothing E coin ↔ (args.coin E.toEnv).shareOf (E.keyBytes ch.ourRefereeKey) ≤ 0 := by
  constructor
  · intro h
    exact h _ hcoin.symm
  · intro h a ha
    rw [RefereeArgs.puzzleHash_injective hh (ha.trans hcoin)]
    exact h

/-- On the coin of our move the mover's share is ours, and on that of theirs the rest is, if the
keys differ. -/
theorem shareOf_coin {args : RefereePuzzleArgs} :
    (args.coin E.toEnv).shareOf (E.keyBytes ch.ourRefereeKey) =
      if E.keyBytes args.moverPubkey = E.keyBytes ch.ourRefereeKey then
        (args.gameMove.basic.moverShare : ℤ)
      else (args.amount : ℤ) - args.gameMove.basic.moverShare := by
  rw [RefereeArgs.shareOf, RefereePuzzleArgs.coin, intOfBytes_bytesOfNat, intOfBytes_bytesOfNat]

/-! The games that the coins stand for. -/

theorem findGame_of_mem (h : ((ch.liveGames ++ ch.pendingSettlements).map LiveGame.gameId).Nodup)
    {g : LiveGame} (hg : g ∈ ch.liveGames ++ ch.pendingSettlements) :
    ch.findGame g.gameId = some g := by
  have hfind : ch.findGame g.gameId =
      (ch.liveGames ++ ch.pendingSettlements).find? fun g' => g'.gameId = g.gameId := by
    rw [findGame, findLiveGame, List.find?_append]
    cases ch.liveGames.find? fun g' => g'.gameId = g.gameId <;> rfl
  rw [hfind]
  obtain ⟨g', hg'⟩ : ∃ g', (ch.liveGames ++ ch.pendingSettlements).find?
      (fun g' => g'.gameId = g.gameId) = some g' := by
    rw [← Option.isSome_iff_exists, List.find?_isSome]
    exact ⟨g, hg, by simp⟩
  have hid : g'.gameId = g.gameId := by simpa using List.find?_some hg'
  rw [hg', List.inj_on_of_nodup_map h (List.mem_of_find?_eq_some hg') hg hid]

theorem findLiveGame_of_mem (h : ((ch.liveGames ++ ch.pendingSettlements).map LiveGame.gameId).Nodup)
    {g : LiveGame} (hg : g ∈ ch.liveGames) : ch.findLiveGame g.gameId = some g := by
  obtain ⟨g', hg'⟩ : ∃ g', ch.findLiveGame g.gameId = some g' := by
    rw [← Option.isSome_iff_exists, findLiveGame, List.find?_isSome]
    exact ⟨g, hg, by simp⟩
  have hid : g'.gameId = g.gameId := by simpa using List.find?_some hg'
  have hmem := List.mem_append_left ch.pendingSettlements (List.mem_of_find?_eq_some hg')
  rw [hg', List.inj_on_of_nodup_map h hmem (List.mem_append_left _ hg) hid]

theorem nodup_survived (h : ((ch.liveGames ++ ch.pendingSettlements).map LiveGame.gameId).Nodup)
    (ids : List GameID) :
    (((ch.survived ids).liveGames ++ (ch.survived ids).pendingSettlements).map
      LiveGame.gameId).Nodup :=
  h.sublist ((List.filter_sublist.append_left _).map _)

theorem findGame_survived (h : ((ch.liveGames ++ ch.pendingSettlements).map LiveGame.gameId).Nodup)
    {ids : List GameID} {g : LiveGame} (hg : g ∈ ch.liveGames ++ ch.pendingSettlements)
    (hid : g.gameId ∈ ids) : (ch.survived ids).findGame g.gameId = some g := by
  refine findGame_of_mem (nodup_survived h ids) ?_
  rcases List.mem_append.mp hg with hlive | hsettling
  · exact List.mem_append_left _ hlive
  · exact List.mem_append_right _ ((mem_pendingSettlements_survived hid).mpr hsettling)

/-! What a game is taken to be worth, and what its coin pays. -/

/-- The share that a game is taken to leave us is zero or cannot be told. -/
def Worthless (g : LiveGame) : Prop := ∀ n, g.getOurCurrentShare = .ok n → n = 0

theorem worthless_iff {g : LiveGame} :
    Worthless g ↔ if g.isMyTurn then g.refereeMaker.spendThisCoin.gameMove.basic.moverShare = 0
      else g.refereeMaker.fixed.amount ≤ g.refereeMaker.spendThisCoin.gameMove.basic.moverShare := by
  rw [Worthless, LiveGame.getOurCurrentShare, Referee.getOurCurrentShare, LiveGame.isMyTurn]
  split
  · simp
  · rw [amountCheckedSub]
    split
    · simp only [Except.ok.injEq, forall_eq']
      omega
    · rename_i hle
      simp only [reduceCtorEq, false_imp_iff, implies_true, true_iff]
      omega

/-- The coin at the opponent's turn is told from ours by its mover's key, or has nothing for the
mover if it has nothing for the waiter. -/
def KeysTell (E : ChannelEnv) (ch : ChannelState) (g : LiveGame) : Prop :=
  g.isMyTurn = true ∨ E.keyBytes ch.theirRefereePubkey ≠ E.keyBytes ch.ourRefereeKey ∨
    (g.refereeMaker.fixed.amount ≤ g.refereeMaker.spendThisCoin.gameMove.basic.moverShare →
      g.refereeMaker.spendThisCoin.gameMove.basic.moverShare = 0)

/-- A game that is taken for worthless is, at its last coin, if the keys tell. -/
theorem latest_pays_iff (hh : CollisionFree E.sha256) {g : LiveGame} (hg : g.Seated E ch)
    {coin : CoinString} (hcoin : g.lastRefereePuzzleHash = coin.puzzleHash) :
    (Worthless g → ch.PaysNothing E coin) ↔ ch.KeysTell E g := by
  obtain ⟨hmover, -⟩ := hg.referee.mover
  obtain ⟨start, hfixed⟩ := hg.referee.seated.fixed
  have hsetUp := hg.referee.setUp.1
  have hours : g.refereeMaker.fixed.myIdentity.publicKey = ch.ourRefereeKey := by
    rw [hfixed]
    rfl
  have htheirs : g.refereeMaker.fixed.theirRefereePubkey = ch.theirRefereePubkey := by
    rw [hfixed]
    rfl
  have hph : coin.puzzleHash = (g.refereeMaker.spendThisCoin.coin E.toEnv).puzzleHash E.sha256 := by
    rw [← hcoin, hg.coin, Referee.outcomeRefereePuzzleHash, curryRefereePuzzleHash_eq hsetUp.puzzleHash]
  rw [paysNothing_iff hh hph, shareOf_coin, worthless_iff, KeysTell, hmover, hours, htheirs,
    hsetUp.amount, LiveGame.isMyTurn]
  cases g.refereeMaker.isMyTurn with
  | true =>
    simp only [if_true, true_or, iff_true]
    omega
  | false =>
    simp only [Bool.false_eq_true, if_false, false_or]
    by_cases hkeys : E.keyBytes ch.theirRefereePubkey = E.keyBytes ch.ourRefereeKey
    · simp only [hkeys, if_true, ne_eq, not_true_eq_false, false_or]
      refine imp_congr_right fun _ => ?_
      omega
    · simp only [hkeys, if_false, ne_eq, not_false_eq_true, true_or, iff_true]
      omega

/-- A game whose move has to be made again is taken for worthless by what the move leaves us; its
coin pays what we had before it. -/
theorem redo_pays_iff (hh : CollisionFree E.sha256) {g : LiveGame} (hg : g.Seated E ch)
    {m : CachedSendMove} {t : TheirTurnReferee} (hreplays : m.Replays E g t) {coin : CoinString}
    (hcoin : m.matchPuzzleHash = coin.puzzleHash) :
    (Worthless g → ch.PaysNothing E coin) ↔
      (t.fixed.amount ≤ t.spendThisCoin.gameMove.basic.moverShare →
        t.argsForThisCoin.gameMove.basic.moverShare = 0) := by
  have hreferee := hg.referee
  rw [hreplays.referee] at hreferee
  obtain ⟨start, hfixed⟩ := hreferee.seated.fixed
  have hmine : t.argsForThisCoin.moverPubkey = ch.ourRefereeKey := by
    have hours : t.fixed.myIdentity.publicKey = ch.ourRefereeKey := by
      rw [show t.fixed = _ from hfixed]
      rfl
    rw [hreplays.mover, hours]
  have hph : coin.puzzleHash = (t.argsForThisCoin.coin E.toEnv).puzzleHash E.sha256 := by
    rw [← hcoin, hreplays.coin, Referee.onChainRefereePuzzleHash]
    exact curryRefereePuzzleHash_eq hreferee.setUp.2.puzzleHash
  rw [paysNothing_iff hh hph, shareOf_coin, if_pos (by rw [hmine]), worthless_iff,
    LiveGame.isMyTurn, hreplays.referee]
  refine imp_congr Iff.rfl ?_
  omega

/-! What becomes of each coin. -/

theorem prospect_armed {state : OnChainGameState}
    (harmed : state.timeoutClaimArmed = true ∨ ¬ state.ourTurn = true) {g : LiveGame}
    (hg : ch.findGame state.gameId = some g) :
    SpendChannelCoinPhase.Running.prospect ch state ≠ .ok .kept ↔ Worthless g := by
  have hshare : ch.getGameOurCurrentShare state.gameId = g.getOurCurrentShare := by
    rw [getGameOurCurrentShare, hg, orError, ok_bind]
  rw [SpendChannelCoinPhase.Running.prospect, if_pos harmed, hshare, Worthless]
  cases g.getOurCurrentShare with
  | error e => simp
  | ok share =>
    by_cases hzero : share = 0
    · simp [hzero]
    · simp [hzero]

/-- No move is to be made again in a game at our turn. -/
theorem Carries.no_redo {o : Opening E} (h : ch.Carries E o) {g : LiveGame} (hg : g ∈ ch.liveGames)
    (hturn : g.isMyTurn = true) : ∀ m ∈ ch.cachedMoves, m.gameId ≠ g.gameId := by
  intro m hm hid
  obtain ⟨t, hreplays⟩ := h.moves m hm g (hid ▸ findLiveGame_of_mem h.ids hg)
  rw [LiveGame.isMyTurn, hreplays.referee] at hturn
  cases hturn

theorem prospect_ours {state : OnChainGameState} (hours : state.ourTurn = true)
    (hunarmed : state.timeoutClaimArmed = false) (hno : ∀ m ∈ ch.cachedMoves, m.gameId ≠ state.gameId) :
    SpendChannelCoinPhase.Running.prospect ch state = .ok .kept := by
  have hnone : (ch.cachedMoves.findSome? fun move =>
      if move.gameId = state.gameId then move.savedPostMoveReferee else none) = none := by
    rw [List.findSome?_eq_none_iff]
    intro m hm
    rw [if_neg (hno m hm)]
  have hnot : ¬ (state.timeoutClaimArmed = true ∨ ¬ state.ourTurn = true) := by
    simp [hours, hunarmed]
  rw [SpendChannelCoinPhase.Running.prospect, if_neg hnot, isRedoZeroReward, hnone]
  rfl

theorem prospect_redo (hmoves : ∀ m ∈ ch.cachedMoves, ∀ g, ch.findLiveGame m.gameId = some g →
      ∃ t, m.Replays E g t) {state : OnChainGameState}
    (hours : state.ourTurn = true) (hunarmed : state.timeoutClaimArmed = false) {g : LiveGame}
    (hg : ch.findLiveGame state.gameId = some g) {m : CachedSendMove} (hm : m ∈ ch.cachedMoves)
    (hid : m.gameId = state.gameId) :
    SpendChannelCoinPhase.Running.prospect ch state ≠ .ok .kept ↔ Worthless g := by
  obtain ⟨referee, hreferee⟩ : ∃ referee, (ch.cachedMoves.findSome? fun move =>
      if move.gameId = state.gameId then move.savedPostMoveReferee else none) = some referee := by
    rw [← Option.isSome_iff_exists, List.findSome?_isSome_iff]
    obtain ⟨t, hreplays⟩ := hmoves m hm g (hid ▸ hg)
    exact ⟨m, hm, by rw [if_pos hid, hreplays.saved]; rfl⟩
  have hsame : referee = g.refereeMaker := by
    obtain ⟨m', hm', hsaved⟩ := List.exists_of_findSome?_eq_some hreferee
    split at hsaved
    · rename_i hid'
      obtain ⟨t, hreplays⟩ := hmoves m' hm' g (hid' ▸ hg)
      rw [hreplays.referee]
      exact Option.some.inj (hsaved.symm.trans hreplays.saved)
    · cases hsaved
  have hnot : ¬ (state.timeoutClaimArmed = true ∨ ¬ state.ourTurn = true) := by
    simp [hours, hunarmed]
  rw [SpendChannelCoinPhase.Running.prospect, if_neg hnot, isRedoZeroReward, hreferee, hsame,
    Worthless, LiveGame.getOurCurrentShare]
  dsimp only
  cases g.refereeMaker.getOurCurrentShare with
  | error e => exact iff_of_true (fun h => by cases h) fun n hn => by cases hn
  | ok share =>
    rw [ok_bind, ok_bind]
    by_cases hzero : share = 0
    · simp [hzero]
    · simp [hzero]

/-- A coin on which our move has to be made again: if the move leaves us nothing, we had nothing
before it. -/
def RedoTells (ch : ChannelState) (state : OnChainGameState) : Prop :=
  state.ourTurn = true ∧ state.timeoutClaimArmed = false → ∀ g t,
    ch.findLiveGame state.gameId = some g → g.refereeMaker = .theirTurn t →
    t.fixed.amount ≤ t.spendThisCoin.gameMove.basic.moverShare →
    t.argsForThisCoin.gameMove.basic.moverShare = 0

/-- A coin that is armed or that the opponent is to move. -/
def LatestTells (E : ChannelEnv) (ch : ChannelState) (state : OnChainGameState) : Prop :=
  state.timeoutClaimArmed = true ∨ ¬ state.ourTurn = true → ∀ g,
    ch.findGame state.gameId = some g → ch.KeysTell E g

open SpendChannelCoinPhase.Running (unrollMap survivingIds prospect)

theorem latestTells_iff {state : OnChainGameState}
    (hlatest : state.timeoutClaimArmed = true ∨ ¬ state.ourTurn = true) {g : LiveGame}
    (hg : ch.findGame state.gameId = some g) :
    ch.RedoTells state ∧ ch.LatestTells E state ↔ ch.KeysTell E g := by
  constructor
  · rintro ⟨-, h⟩
    exact h hlatest g hg
  · intro h
    refine ⟨fun hours => ?_, fun _ g' hg' => Option.some.inj (hg.symm.trans hg') ▸ h⟩
    rcases hlatest with harmed | hnot
    · rw [hours.2] at harmed
      cases harmed
    · exact absurd hours.1 hnot

/-- A coin of the unroll that is let go of pays us nothing exactly if the share that is looked at
tells what the coin pays. -/
theorem let_go_iff (hh : CollisionFree E.sha256) {o : Opening E} (h : ch.Carries E o)
    {unrollCoin : CoinString} {conditions : List CoinCondition} {coin : CoinString}
    {state : OnChainGameState}
    (hcoin : (unrollMap E ch unrollCoin conditions).lookup coin = some state) :
    (prospect (ch.survived (survivingIds (unrollMap E ch unrollCoin conditions))) state ≠ .ok .kept →
        ch.PaysNothing E coin) ↔ ch.RedoTells state ∧ ch.LatestTells E state := by
  have hid : state.gameId ∈ survivingIds (unrollMap E ch unrollCoin conditions) :=
    List.mem_map.mpr ⟨⟨coin, state⟩, Dict.lookup_eq_some.mp hcoin, rfl⟩
  generalize survivingIds (unrollMap E ch unrollCoin conditions) = ids at hid ⊢
  obtain ⟨-, -, hfound⟩ := setStateForCoins_found hcoin
  -- a coin that is armed or at the opponent's turn is a game's last one
  have hlast : ∀ g ∈ ch.liveGames ++ ch.pendingSettlements, g.gameId = state.gameId →
      g.lastRefereePuzzleHash = coin.puzzleHash →
      (state.timeoutClaimArmed = true ∨ ¬ state.ourTurn = true) →
      ((prospect (ch.survived ids) state ≠ .ok .kept → ch.PaysNothing E coin) ↔
        ch.RedoTells state ∧ ch.LatestTells E state) := by
    intro g hg hgame hph hlatest
    have hseated : g.Seated E ch := by
      rcases List.mem_append.mp hg with hlive | hsettling
      · exact h.live g hlive
      · exact h.settling g hsettling
    have hfind := findGame_survived h.ids hg (hgame ▸ hid)
    rw [hgame] at hfind
    rw [prospect_armed hlatest hfind, latest_pays_iff hh hseated hph,
      latestTells_iff hlatest (hgame ▸ findGame_of_mem h.ids hg)]
  generalize hsame : coin.puzzleHash = ph at hfound
  cases hfound with
  | latest g hg hph hamount =>
    by_cases hturn : g.isMyTurn = true
    swap
    · exact hlast g (List.mem_append_left _ hg) rfl (hph.trans hsame.symm) (.inr hturn)
    · have hno : ∀ m ∈ (ch.survived ids).cachedMoves, m.gameId ≠ g.gameId := by
        rw [cachedMoves_survived]
        exact h.no_redo hg hturn
      have hfind := findLiveGame_of_mem h.ids hg
      refine iff_of_true (fun hdropped => absurd (prospect_ours hturn rfl hno) hdropped)
        ⟨fun _ g' t hg' href => ?_, fun hlatest => ?_⟩
      · obtain rfl := Option.some.inj (hfind.symm.trans hg')
        rw [LiveGame.isMyTurn, href] at hturn
        cases hturn
      · rcases hlatest with harmed | hnot
        · cases harmed
        · exact absurd hturn hnot
  | redo m g hm hg hgame hph hamount =>
    have hfind := findLiveGame_of_mem h.ids hg
    obtain ⟨t, hreplays⟩ := h.moves m hm g (hgame ▸ hfind)
    have hmoves : ∀ m ∈ (ch.survived ids).cachedMoves, ∀ g,
        (ch.survived ids).findLiveGame m.gameId = some g → ∃ t, m.Replays E g t := by
      rw [cachedMoves_survived]
      exact h.moves
    have hcached : m ∈ (ch.survived ids).cachedMoves := by
      rw [cachedMoves_survived]
      exact hm
    have hredo := @prospect_redo E (ch.survived ids) hmoves
      (g.coinState ph ch.stateNumber true false g.isGameOver) rfl rfl g hfind m hcached hgame.symm
    rw [hredo, redo_pays_iff hh (h.live g hg) hreplays (hph.trans hsame.symm)]
    constructor
    · intro hredo
      refine ⟨fun _ g' t' hg' href => ?_, fun hlatest => ?_⟩
      · obtain rfl := Option.some.inj (hfind.symm.trans hg')
        obtain rfl := Referee.theirTurn.inj (hreplays.referee.symm.trans href)
        exact hredo
      · rcases hlatest with harmed | hnot
        · cases harmed
        · exact absurd rfl hnot
    · rintro ⟨hredo, -⟩
      exact hredo ⟨rfl, rfl⟩ g t hfind hreplays.referee
  | settling g hg hph hamount =>
    exact hlast g (List.mem_append_right _ hg) rfl (hph.trans hsame.symm) (.inl rfl)

end ChannelState

namespace SpendChannelCoinPhase.Running

open ChannelState (carries_of_carried let_go_iff)

variable {E : ChannelEnv} {s s' : Running} {ch : ChannelState}

end SpendChannelCoinPhase.Running

/-! A game in which we have half of the stakes until we move and nothing from then on.  The hash
spells its input out, up to the puzzle hash of one coin, which has to fit in a condition. -/

namespace Gambit

def validator : Clvm := .pair (.atom (List.replicate 20 7)) .nil

def myHandler : Clvm := .list [.nat 1, .nat 2]

def theirHandler : Clvm := .list [.nat 3]

def factory : Clvm := .nat 8

def hash : Hash := List.replicate 32 5

section Word

variable (word : Bytes)

/-- Both put one in, and the mover's share is one to start with. -/
def record : Clvm :=
  .list [.nat 1, .nat 1, .nat 2, .nat 1, .atom (shatree (abridged word) validator), .nil, .nat 5,
    .nat 3, .nat 1, myHandler, theirHandler, validator]

/-- The move leaves two to the opponent. -/
def run : Run := fun program env =>
  if program = factory then some (.list [record word])
  else if program = validator then (env.nth 2).map fun state => answer hash state [5] .nil
  else if program = myHandler then
    some (.list [.atom [0x73], .atom [9], validator, .atom hash, validator, .atom hash, .nat 5,
      .nat 2, theirHandler])
  else if program = theirHandler then some (.list [.nil, .nil, myHandler])
  else none

def envOf : ChannelEnv where
  sha256 := abridged word
  run := run word
  keyBytes pk := bytesOfNat pk.sum
  unrollPuzzleHash := [5]
  refereeCoinPuzzleHash := [1]
  standardPuzzleHash := [6]
  aggSigMeAdditionalData := [7]

theorem env_collisionFree : CollisionFree (envOf word).sha256 := abridged_collisionFree word

def setup : ChannelState.Setup :=
  { Steady.setup with
    weStartWithPotato := false
    rewardPuzzleHash := Steady.walletHash
    theirRewardPuzzleHash := Steady.otherHash
    theirRewardPayoutSignature := sign 2 (rewardPayoutMessage Steady.otherHash) }

theorem setup_startPotato : setup.weStartWithPotato = !true := rfl

theorem setup_valid : setup.Valid := ⟨(Steady.setup_valid true).channelKeys, (Steady.setup_valid true).unrollKeys,
  (Steady.setup_valid true).timeout⟩

def opening : Opening (envOf word) where
  initiator := true
  setup := setup
  signatures := (ChannelState.opened (envOf word) setup).peerSignaturesAt (envOf word) 21 22 0
  startPotato := setup_startPotato
  valid := setup_valid
  channelKey := Steady.setup_channelKey
  unrollKey := Steady.setup_unrollKey
  verified := (ChannelState.verifies_iff _ _ rfl rfl).mpr rfl

open OffChainPhase

/-- A batch of the peer's, signed for the state that it leads to. -/
def signedBatch (p : OffChainPhase) (actions : List BatchAction) : PeerMessage :=
  .batch ⟨actions, match ((applyActions (envOf word) actions).after p).channelState with
    | some ch => ch.peerSignaturesAt (envOf word) 21 22 (ch.stateNumber + 1)
    | none => .default, none⟩

def opened : OffChainPhase := fromCompletedHandshake (opening word) [([1], some factory)] []

/-- We propose the game. -/
def proposed : OffChainPhase := (runLocal (envOf word) .flush).after
  ((runLocal (envOf word) (.propose ⟨[1], 15, .nil⟩)).after (opened word))

def acceptance : PeerMessage := signedBatch word (proposed word) [.acceptProposal 1]

/-- The peer accepts. -/
def accepted : OffChainPhase := (processQueuedMessage (envOf word)).after
  { proposed word with incomingMessages := (proposed word).incomingMessages ++ [acceptance word] }

/-- We move. -/
def moved : OffChainPhase := (runLocal (envOf word) .flush).after
  ((runLocal (envOf word) (.move 1 .nil hash)).after (accepted word))

def channelOf (p : OffChainPhase) : ChannelState :=
  p.channelState.getD (ChannelState.opened (envOf word) setup)

end Word

/-- The puzzle hash of the game's coin before the move. -/
def word : Bytes :=
  ((channelOf [] (accepted [])).liveGames.map LiveGame.lastRefereePuzzleHash).headD []

def env : ChannelEnv := envOf word

def channel : ChannelState := channelOf word (moved word)

def unrollCoin : CoinString := ⟨[8], [5], 20⟩

/-! The timeout of the unroll that the peer signed last. -/

def unrollPuzzle : ChainPuzzle := .unroll ((channelOf word (accepted word)).argsAt env 2)

def unrollSolution : Clvm := (channelOf word (accepted word)).timeoutConditionsAt 2

def running : SpendChannelCoinPhase.Running where
  state := .unrollConditions unrollCoin 2
  channelState := some channel
  gameActionQueue := []
  unrollTimeout := 15
  advisory := none
  wasStale := false
  terminalRewardCoin := none
  expectedCleanShutdownSolution := none
  lastChannelCoinSpendInfo := none
  replacement := none

/-- The coin of the game as it was before our move. -/
def coin : CoinString := ⟨unrollCoin.toCoinId env.sha256, List.replicate 32 4, 2⟩

def start : GameStartInfo where
  amount := 2
  gameHandler := .myTurnHandler myHandler
  myContributionThisGame := 1
  theirContributionThisGame := 1
  initialValidationProgram := StateUpdateProgram.new env.toEnv validator
  initialState := .nat 3
  initialMove := []
  initialMaxMoveSize := 5
  initialMoverShare := 1
  gameId := 1
  timeout := 15

def coinArgs : RefereeArgs :=
  (initialPuzzleArgs env.toEnv start (channel.refereeParties env 1)).coin env.toEnv

def conditions : List CoinCondition :=
  [.other, .other, .createCoin Steady.otherHash 9, .createCoin Steady.walletHash 9,
    .createCoin coin.puzzleHash 2]

open OffChainPhase (Reach processQueuedMessage)
open SpendChannelCoinPhase.Running (unrollMap takeOver)

def beforeAcceptance : OffChainPhase :=
  { proposed word with
    incomingMessages := (proposed word).incomingMessages ++ [acceptance word] }

def takeOverGambit : Act Error SpendChannelCoinPhase.Running (List ChainEffect × Bool) :=
  takeOver env unrollCoin (some (unrollPuzzle, unrollSolution)) 2

-- one evaluation for all, as each of them goes through the whole session
theorem session_evaluated :
    (processQueuedMessage env).succeeds beforeAcceptance = true ∧
    (accepted word).channelSpendNextPhase.isNone = true ∧
    (moved word).channelState.isSome = true ∧
    fromPuzzleAndSolution env.toEnv unrollPuzzle unrollSolution = .ok conditions ∧
    coin ∈ unrollMap env channel unrollCoin conditions ∧
    takeOverGambit.succeeds running = true ∧
    (takeOverGambit.after running).replacement.all (fun p => decide (coin ∉ p.gameMap)) = true ∧
    coinArgs.puzzleHash env.sha256 = coin.puzzleHash ∧
    ¬ coinArgs.shareOf (env.keyBytes channel.ourRefereeKey) ≤ 0 := by
  decide +kernel

theorem accepted_reached : Reach env (opening word) (accepted word) := by
  obtain ⟨hok, hnext, -⟩ := session_evaluated
  obtain ⟨effects, hok⟩ := Act.eq_ok_of_succeeds hok
  exact (((Reach.start _ _).act _).act _).receive (acceptance word) hok
    (Option.isNone_iff_eq_none.mp hnext)

theorem channel_carried : OffChainPhase.Carried env (opening word) channel := by
  obtain ⟨-, -, hsome, -⟩ := session_evaluated
  obtain ⟨ch, hch⟩ := Option.isSome_iff_exists.mp hsome
  have hchannel : channel = ch := by
    rw [channel, channelOf, hch]
    rfl
  exact hchannel ▸ .disputed (.running ((accepted_reached.act _).act _) hch)

theorem conditions_eq :
    fromPuzzleAndSolution env.toEnv unrollPuzzle unrollSolution = .ok conditions :=
  session_evaluated.2.2.2.1

/-- The phase that takes over follows no coin at all. -/
theorem taken_over : ∃ effects handed s', takeOverGambit running = .ok (effects, handed) s' ∧
    ∀ p, s'.replacement = some p → coin ∉ p.gameMap := by
  obtain ⟨-, -, -, -, -, htaken, hgone, -⟩ := session_evaluated
  obtain ⟨⟨effects, handed⟩, htaken⟩ := Act.eq_ok_of_succeeds htaken
  refine ⟨effects, handed, _, htaken, fun p hp => ?_⟩
  rw [hp] at hgone
  exact of_decide_eq_true hgone

end Gambit

open SpendChannelCoinPhase.Running (unrollMap)

end ChiaGaming
