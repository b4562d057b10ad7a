import ChiaGaming.Channel.Funds
import ChiaGaming.Referee.Timeout

namespace ChiaGaming

/-! Whether the coins that a state pays out are all different. -/

theorem createdCoins_timeoutConditions (a : RefereeArgs) (moverPh waiterPh : Bytes) :
    createdCoins (.list (timeoutConditions a moverPh waiterPh)) =
      .ok ((if a.moverShare = [] then [] else [(moverPh, natOfBytes a.moverShare)]) ++
        if intOfBytes a.amount - intOfBytes a.moverShare = 0 then []
        else [(waiterPh, natOfBytes (bytesOfInt (intOfBytes a.amount - intOfBytes a.moverShare)))]) := by
  have hcreate : ∀ ph amount : Bytes,
      createdCoin? (.list [condCreateCoin, .atom ph, .atom amount]) = some (ph, natOfBytes amount) := by
    intro ph amount
    simp [createdCoin?, Clvm.properList]
  have hassert : createdCoin? (.list [condAssertHeightRelative, .atom a.timeout]) = none := rfl
  have hsig : ∀ pk msg : Bytes,
      createdCoin? (.list [condAggSigUnsafe, .atom pk, .atom msg]) = none := by
    intro pk msg
    have hcode : condAggSigUnsafe ≠ condCreateCoin := by decide
    simp [createdCoin?, Clvm.properList, hcode]
  have hremark : createdCoin? (.list [.nat 1]) = none := rfl
  rw [createdCoins, Clvm.properList_list]
  refine congrArg Except.ok ?_
  rw [timeoutConditions, List.filterMap_append]
  refine congrArg₂ (· ++ ·) ?_ ?_
  · by_cases hs : a.moverShare = []
    · simp only [hs, if_pos, List.filterMap_cons, List.filterMap_nil, hassert, hremark]
    · simp only [if_neg hs, List.filterMap_cons, List.filterMap_nil, hassert, hcreate, hsig]
  · by_cases hd : intOfBytes a.amount - intOfBytes a.moverShare = 0
    · simp only [if_pos hd, List.filterMap_nil]
    · simp only [if_neg hd, Clvm.int, List.filterMap_cons, List.filterMap_nil, hcreate, hsig]

/-- The coins of a claim differ if the players' puzzle hashes do. -/
theorem timeout_coins_nodup {E : Env} {p : RefereeParties} (hne : p.rewardPuzzleHash ≠ p.theirRewardPuzzleHash)
    {r : Referee} (h : Referee.Reach E p r) {coin : CoinString} {spend : RefereeSpend}
    (hspend : r.getTransactionForTimeout E coin = .ok (some spend)) :
    ∃ conds coins, refereePuzzle E.sha256 E.run (spend.puzzle.coin E) spend.solution = some conds ∧
      createdCoins conds = .ok coins ∧ coins.Nodup := by
  obtain ⟨-, -, moverPh, waiterPh, hphs, hsolution⟩ :=
    Referee.getTransactionForTimeout_eq_ok h.seated hspend
  have hdiffer : moverPh ≠ waiterPh := by
    rcases hphs with ⟨rfl, rfl⟩ | ⟨rfl, rfl⟩
    · exact hne
    · exact hne.symm
  refine ⟨_, _, by rw [hsolution]; exact refereePuzzle_timeout moverPh waiterPh,
    createdCoins_timeoutConditions _ _ _, ?_⟩
  split
  · split <;> simp
  · split <;> simp [hdiffer]

/-! The games of a channel are between its players. -/

theorem LiveGame.internalMakeMove_moveTo {E : Env} {g moved : LiveGame} {readableMove : Clvm}
    {newEntropy : Hash} {n : ℕ} {wire : GameMoveWireData}
    (h : g.internalMakeMove E readableMove newEntropy n = .ok (moved, wire)) :
    ∃ r next, g.refereeMaker = .myTurn r ∧
      r.myTurnMakeMove E readableMove newEntropy n = .ok (next, wire) ∧ moved = g.moveTo E next := by
  rw [internalMakeMove] at h
  split at h
  · cases h
  obtain ⟨⟨next, wire'⟩, hmove, hok⟩ := bind_eq_ok.mp h
  cases hok
  cases href : g.refereeMaker with
  | theirTurn t =>
    rw [href] at hmove
    cases hmove
  | myTurn r =>
    rw [href] at hmove
    exact ⟨r, next, rfl, hmove, rfl⟩

theorem LiveGame.internalTheirMove_moveTo {E : Env} {g moved : LiveGame} {gameMove : GameMoveDetails}
    {n : ℕ} {result : TheirTurnMoveResult}
    (h : g.internalTheirMove E gameMove n = .ok (moved, result)) :
    moved = g ∨ ∃ t next answer, g.refereeMaker = .theirTurn t ∧
      t.theirTurnMoveOffChain E gameMove n = .ok (some next, answer) ∧
      moved = g.moveTo E (.myTurn next) := by
  rw [internalTheirMove] at h
  split at h
  · cases h
  obtain ⟨⟨next, result'⟩, hmove, hok⟩ := bind_eq_ok.mp h
  cases next with
  | none =>
    cases hok
    exact .inl rfl
  | some r =>
    cases href : g.refereeMaker with
    | myTurn r =>
      rw [href] at hmove
      cases hmove
    | theirTurn t =>
      rw [href] at hmove
      obtain ⟨⟨next', result''⟩, hoff, hpure⟩ := bind_eq_ok.mp hmove
      cases next' with
      | none => cases hpure
      | some r' =>
        cases hpure
        cases hok
        obtain ⟨handler, newState, answer, -, -, -, -, rfl, rfl⟩ := theirTurnMoveOffChain_eq_some hoff
        exact .inr ⟨t, _, _, rfl, hoff, rfl⟩

/-- A game whose referee has come about between the players of the channel, and whose coin is that of
its referee. -/
structure LiveGame.Seated (E : ChannelEnv) (ch : ChannelState) (g : LiveGame) : Prop where
  referee : Referee.Reach E.toEnv (ch.refereeParties E g.gameId) g.refereeMaker
  coin : g.lastRefereePuzzleHash = g.refereeMaker.outcomeRefereePuzzleHash E.toEnv

namespace ChannelState

structure Seated (E : ChannelEnv) (ch : ChannelState) : Prop where
  live : ∀ g ∈ ch.liveGames, g.Seated E ch
  proposed : ∀ p ∈ ch.proposedGames, (ofProposal p).Seated E ch

open GameOp

variable {E : ChannelEnv} {ch ch' : ChannelState}

theorem refereeParties_of_core (h : ch'.core = ch.core) (nonce : ℕ) :
    ch'.refereeParties E nonce = ch.refereeParties E nonce :=
  (congrArg (fun ch : ChannelState => ch.refereeParties E nonce) h :)

theorem seated_of_core {g : LiveGame} (h : ch'.core = ch.core) (hg : g.Seated E ch) :
    g.Seated E ch' := by
  refine ⟨?_, hg.coin⟩
  rw [refereeParties_of_core h]
  exact hg.referee

theorem seated_newProposedGame {startInfo : GameStartInfo} {groupId : GameID}
    {proposal : ProposedGame} (h : ch.newProposedGame E startInfo groupId = .ok proposal) :
    (ofProposal proposal).Seated E ch := by
  have hcoin := (newProposedGame_eq_ok h).2.2.2.2.2.2
  obtain ⟨⟨r, ph⟩, hnew, hok⟩ := bind_eq_ok.mp h
  cases hok
  exact ⟨.new hnew, hcoin⟩

theorem Seated.putGame (h : ch.Seated E) {moved : LiveGame} (hmoved : moved.Seated E ch)
    {g : LiveGame} (hg : g ∈ ChiaGaming.putGame moved ch.liveGames) : g.Seated E ch := by
  have hmem : ∀ games : List LiveGame, g ∈ ChiaGaming.putGame moved games → g = moved ∨ g ∈ games := by
    intro games
    induction games with
    | nil => exact fun hg => .inr hg
    | cons g' games ih =>
      rw [ChiaGaming.putGame]
      split
      · intro hg
        rcases List.mem_cons.mp hg with rfl | hg
        · exact .inl rfl
        · exact .inr (List.mem_cons_of_mem _ hg)
      · intro hg
        rcases List.mem_cons.mp hg with rfl | hg
        · exact .inr List.mem_cons_self
        · rcases ih hg with rfl | hg
          · exact .inl rfl
          · exact .inr (List.mem_cons_of_mem _ hg)
  rcases hmem _ hg with rfl | hg
  · exact hmoved
  · exact h.live g hg

theorem Seated.step (h : ch.Seated E) (op : GameOp) : (op.step E ch).Seated E := by
  have hcore := core_step (E := E) ch op
  have hbooked := booked_step (E := E) ch op
  generalize GameOp.step E ch op = ch' at hbooked hcore
  -- the players stay, so that it is enough to look at the games
  suffices hgames : (∀ g ∈ ch'.liveGames, g.Seated E ch) ∧
      ∀ p ∈ ch'.proposedGames, (ofProposal p).Seated E ch from
    ⟨fun g hg => seated_of_core hcore (hgames.1 g hg), fun p hp => seated_of_core hcore (hgames.2 p hp)⟩
  have hpropose : ∀ {startInfo : GameStartInfo} {groupId : GameID} {proposal : ProposedGame},
      ch.newProposedGame E startInfo groupId = .ok proposal →
      ∀ p ∈ ch.proposedGames ++ [proposal], (ofProposal p).Seated E ch := by
    intro startInfo groupId proposal hnew p hp
    rcases List.mem_append.mp hp with hp | hp
    · exact h.proposed p hp
    · rw [List.mem_singleton] at hp
      exact hp ▸ seated_newProposedGame hnew
  cases hbooked with
  | same _ cached => exact ⟨h.live, h.proposed⟩
  | proposed startInfo groupId proposal hnew => exact ⟨h.live, hpropose hnew⟩
  | received startInfo groupId proposal hcheck hnew => exact ⟨h.live, hpropose hnew⟩
  | accepted _ gameId proposal cached _ hfind =>
    refine ⟨fun g hg => ?_, fun p hp => h.proposed p (List.mem_of_mem_eraseP hp)⟩
    rcases List.mem_append.mp hg with hg | hg
    · exact h.live g hg
    · rw [List.mem_singleton] at hg
      exact hg ▸ h.proposed proposal (List.mem_of_find?_eq_some hfind)
  | removed _ gameId => exact ⟨h.live, fun p hp => h.proposed p (List.mem_of_mem_eraseP hp)⟩
  | cancelled => exact ⟨h.live, fun p hp => (by cases hp)⟩
  | allocated => exact ⟨h.live, h.proposed⟩
  | moved gameId readableMove newEntropy game moved wire cached hgame hmove =>
    obtain ⟨r, next, href, hnext, rfl⟩ := LiveGame.internalMakeMove_moveTo hmove
    have hseated := (h.live game (List.mem_of_find?_eq_some hgame)).referee
    rw [href] at hseated
    have hmoved : (game.moveTo E.toEnv next).Seated E ch := ⟨hseated.mine hnext, rfl⟩
    exact ⟨fun g hg => h.putGame hmoved hg, h.proposed⟩
  | theirMove gameId gameMove game moved result hgame hshare hmove =>
    have hseated := h.live game (List.mem_of_find?_eq_some hgame)
    rcases LiveGame.internalTheirMove_moveTo hmove with rfl | ⟨t, next, answer, href, hnext, rfl⟩
    · exact ⟨fun g hg => h.putGame hseated hg, h.proposed⟩
    · have hreferee := hseated.referee
      rw [href] at hreferee
      have hmoved : (game.moveTo E.toEnv (.myTurn next)).Seated E ch := ⟨hreferee.theirs hnext, rfl⟩
      exact ⟨fun g hg => h.putGame hmoved hg, h.proposed⟩
  | cheated gameId makeMove moverShare game hgame =>
    have hseated := h.live game (List.mem_of_find?_eq_some hgame)
    have hcheated : (game.enableCheating makeMove moverShare).1.Seated E ch := by
      rw [LiveGame.enableCheating]
      cases href : game.refereeMaker with
      | theirTurn t => exact hseated
      | myTurn r =>
        have hreferee := hseated.referee
        have hcoin := hseated.coin
        rw [href] at hreferee hcoin
        exact ⟨hreferee.cheating makeMove moverShare, hcoin⟩
    exact ⟨fun g hg => h.putGame hcheated hg, h.proposed⟩
  | settled _ gameId game forMe cached =>
    exact ⟨fun g hg => h.live g (List.mem_of_mem_eraseP hg), h.proposed⟩
  | broken _ gameId game _ hgame _ liveGames pendingSettlements _ _ _ hlive hpending =>
    refine ⟨fun g hg => ?_, h.proposed⟩
    rcases hlive with rfl | rfl
    · exact h.live g hg
    · exact h.live g (List.mem_of_mem_eraseP hg)

theorem Seated.sent (h : ch.Seated E) : (ch.sent E).Seated E :=
  ⟨fun g hg => ⟨(h.live g hg).referee, (h.live g hg).coin⟩,
    fun p hp => ⟨(h.proposed p hp).referee, (h.proposed p hp).coin⟩⟩

theorem Seated.received (h : ch.Seated E) (signatures : StateUpdateSignatures) :
    (ch.received E signatures).Seated E :=
  ⟨fun g hg => ⟨(h.live g hg).referee, (h.live g hg).coin⟩,
    fun p hp => ⟨(h.proposed p hp).referee, (h.proposed p hp).coin⟩⟩

end ChannelState

end ChiaGaming
