import ChiaGaming.Channel.Books
import ChiaGaming.Channel.History

namespace ChiaGaming

/-! The balances of a channel. -/

section Lists

variable {α : Type} {p : α → Bool} {l : List α} {a : α}

/-- What is found can be taken out. -/
theorem perm_cons_eraseP (h : l.find? p = some a) : l.Perm (a :: l.eraseP p) := by
  induction l with
  | nil => cases h
  | cons b l ih =>
    rw [List.find?_cons] at h
    cases hb : p b with
    | true =>
      rw [hb] at h
      obtain rfl := Option.some.inj h
      rw [List.eraseP_cons_of_pos hb]
    | false =>
      rw [hb] at h
      rw [List.eraseP_cons_of_neg (by simp [hb])]
      exact ((ih h).cons b).trans (List.Perm.swap a b _)

/-- A game that moves on takes the place of its predecessor. -/
theorem perm_putGame {game moved : LiveGame} {games : List LiveGame} {gameId : GameID}
    (h : games.find? (fun g => g.gameId = gameId) = some game) (hid : moved.gameId = gameId) :
    (putGame moved games).Perm (moved :: games.eraseP fun g => g.gameId = gameId) := by
  induction games with
  | nil => cases h
  | cons g games ih =>
    rw [List.find?_cons] at h
    by_cases hg : g.gameId = gameId
    · rw [putGame, if_pos (hg.trans hid.symm), List.eraseP_cons_of_pos (by simpa using hg)]
    · rw [putGame, if_neg (by rwa [hid]), List.eraseP_cons_of_neg (by simpa using hg)]
      simp only [hg, decide_false] at h
      exact ((ih h).cons g).trans (List.Perm.swap moved g _)

end Lists

namespace LiveGame

/-- A game whose stake is what the players have put in, and whose mover can be paid from it. -/
structure Backed (g : LiveGame) : Prop where
  amount : g.getAmount = g.myContribution + g.theirContribution
  share : g.refereeMaker.spendThisCoin.gameMove.basic.moverShare ≤ g.getAmount

theorem Backed.share_le {g : LiveGame} (h : g.Backed) {forMe : ℕ}
    (hshare : g.getOurCurrentShare = .ok forMe) : forMe ≤ g.getAmount := by
  rw [getOurCurrentShare, Referee.getOurCurrentShare] at hshare
  split at hshare
  · obtain rfl := Except.ok.inj hshare
    exact h.share
  · have hsub := amountCheckedSub_of_le h.share
    obtain rfl := Except.ok.inj (hsub.symm.trans hshare)
    exact Nat.sub_le _ _

theorem Backed.moveTo {g : LiveGame} (h : g.Backed) {E : Env} {r : Referee}
    (hfixed : r.fixed = g.refereeMaker.fixed)
    (hshare : r.spendThisCoin.gameMove.basic.moverShare ≤ g.getAmount) : (g.moveTo E r).Backed := by
  have hamount : (g.moveTo E r).getAmount = g.getAmount := by
    rw [getAmount, LiveGame.moveTo, hfixed]
    rfl
  exact ⟨hamount.trans h.amount, hamount ▸ hshare⟩

end LiveGame

namespace ChannelState

/-- Every coin of the channel is in a balance or in a game. -/
structure Balanced (ch : ChannelState) : Prop where
  total : ch.myOutOfGameBalance + ch.theirOutOfGameBalance + ch.myAllocatedBalance +
    ch.theirAllocatedBalance = ch.channelCoin.amount
  mine : ch.myAllocatedBalance = (ch.liveGames.map LiveGame.myContribution).sum
  theirs : ch.theirAllocatedBalance = (ch.liveGames.map LiveGame.theirContribution).sum
  live : ∀ g ∈ ch.liveGames, g.Backed
  proposed : ∀ p ∈ ch.proposedGames, (ofProposal p).Backed ∧
    p.myContribution + p.theirContribution < 2 ^ 64

end ChannelState

namespace GameOp

open Act

variable {E : ChannelEnv}

/-- Our own proposals have the amount that the players put in. -/
def Stated (_ : ChannelState) : GameOp → Prop
  | .sendProposeGame startInfo _ => startInfo.amount =
      startInfo.myContributionThisGame + startInfo.theirContributionThisGame ∧
    startInfo.amount < 2 ^ 64
  | _ => True

/-- No proposal and no move of ours gives the mover more than the game's amount. -/
def Payable (E : ChannelEnv) (ch : ChannelState) : GameOp → Prop
  | .sendProposeGame startInfo _ => startInfo.initialMoverShare ≤ startInfo.amount
  | .applyReceivedProposal startInfo _ => startInfo.initialMoverShare ≤ startInfo.amount
  | .sendMoveNoFinalize gameId readableMove newEntropy => ∀ game r handler result,
      ch.findLiveGame gameId = some game → game.refereeMaker = .myTurn r →
      r.state.gameHandler = some handler →
      r.handlerResult E.toEnv handler readableMove newEntropy = .ok result →
      result.moverShare ≤ game.getAmount
  | _ => True

end GameOp

namespace ChannelState

open GameOp

variable {E : ChannelEnv} {ch ch' : ChannelState}

theorem Balanced.covers (h : ch.Balanced) {gameId : GameID} {game : LiveGame}
    (hgame : ch.findLiveGame gameId = some game) : ch.Covers game := by
  have hmem : game ∈ ch.liveGames := List.mem_of_find?_eq_some hgame
  refine ⟨?_, ?_, (h.live game hmem).share⟩
  · rw [h.mine]
    exact List.le_sum_of_mem (List.mem_map_of_mem hmem)
  · rw [h.theirs]
    exact List.le_sum_of_mem (List.mem_map_of_mem hmem)

/-- A game moves on and keeps its stake. -/
theorem Balanced.putGame (h : ch.Balanced) {gameId : GameID} {game moved : LiveGame}
    (hgame : ch.findLiveGame gameId = some game) (hbacked : moved.Backed)
    (hid : moved.gameId = game.gameId) (hmine : moved.myContribution = game.myContribution)
    (htheirs : moved.theirContribution = game.theirContribution)
    (cached : List CachedRedoActions) :
    Balanced { ch with
      liveGames := ChiaGaming.putGame moved ch.liveGames
      cachedRedoActions := cached } := by
  have hfind := findLiveGame_gameId hgame
  have hold := perm_cons_eraseP hgame
  have hnew := perm_putGame hgame (hid.trans hfind)
  have hsum : ∀ f : LiveGame → ℕ, f moved = f game →
      ((ChiaGaming.putGame moved ch.liveGames).map f).sum = (ch.liveGames.map f).sum := by
    intro f hf
    rw [(hnew.map f).sum_eq, (hold.map f).sum_eq, List.map_cons, List.map_cons, hf]
  refine ⟨h.total, ?_, ?_, ?_, h.proposed⟩
  · exact h.mine.trans (hsum _ hmine).symm
  · exact h.theirs.trans (hsum _ htheirs).symm
  · intro g hg
    rcases List.mem_cons.mp (hnew.mem_iff.mp hg) with rfl | hg
    · exact hbacked
    · exact h.live g (List.mem_of_mem_eraseP hg)

theorem Balanced.withoutProposal (h : ch.Balanced) (gameId : GameID) :
    (ch.withoutProposal gameId).Balanced :=
  ⟨h.total, h.mine, h.theirs, h.live, fun p hp => h.proposed p (List.mem_of_mem_eraseP hp)⟩

theorem Balanced.propose (h : ch.Balanced) {startInfo : GameStartInfo} {groupId : GameID}
    {proposal : ProposedGame} (hnew : ch.newProposedGame E startInfo groupId = .ok proposal)
    (hamount : startInfo.amount =
      startInfo.myContributionThisGame + startInfo.theirContributionThisGame)
    (hfits : startInfo.amount < 2 ^ 64) (hshare : startInfo.initialMoverShare ≤ startInfo.amount)
    (nonce : ℕ) :
    Balanced { ch with
      theirNextNonce := nonce
      proposedGames := ch.proposedGames ++ [proposal] } := by
  obtain ⟨-, -, hmine, htheirs, hfixed, hcoin, -⟩ := newProposedGame_eq_ok hnew
  have hstake : (ofProposal proposal).getAmount = startInfo.amount := by
    rw [LiveGame.getAmount, ofProposal, hfixed]
    rfl
  refine ⟨h.total, h.mine, h.theirs, h.live, fun p hp => ?_⟩
  rcases List.mem_append.mp hp with hp | hp
  · exact h.proposed p hp
  · rw [List.mem_singleton] at hp
    subst hp
    refine ⟨⟨?_, ?_⟩, ?_⟩
    · rw [hstake, hamount, ofProposal, hmine, htheirs]
    · rw [hstake, ofProposal, hcoin]
      exact hshare
    · rw [hmine, htheirs, ← hamount]
      exact hfits

theorem Balanced.accepted (h : ch.Balanced) {gameId : GameID} {proposal : ProposedGame}
    (hfind : ch.findProposal gameId = some proposal)
    (hmine : proposal.myContribution ≤ ch.myOutOfGameBalance)
    (htheirs : proposal.theirContribution ≤ ch.theirOutOfGameBalance)
    (cached : List CachedRedoActions) :
    Balanced { ch.accepted proposal with cachedRedoActions := cached } := by
  have hmem : proposal ∈ ch.proposedGames := List.mem_of_find?_eq_some hfind
  refine ⟨?_, ?_, ?_, ?_, fun p hp => h.proposed p (List.mem_of_mem_eraseP hp)⟩
  · have htotal := h.total
    simp only [ChannelState.accepted, ChannelState.withoutProposal, channelCoin] at htotal ⊢
    omega
  · simp [ChannelState.accepted, h.mine, ofProposal]
  · simp [ChannelState.accepted, h.theirs, ofProposal]
  · intro g hg
    rcases List.mem_append.mp hg with hg | hg
    · exact h.live g hg
    · rw [List.mem_singleton] at hg
      subst hg
      exact (h.proposed proposal hmem).1

theorem Balanced.settled (h : ch.Balanced) {gameId : GameID} {game : LiveGame} {forMe : ℕ}
    (hgame : ch.findLiveGame gameId = some game) (hshare : game.getOurCurrentShare = .ok forMe)
    (cached : List CachedRedoActions) :
    Balanced { ch.settled game forMe with cachedRedoActions := cached } := by
  obtain rfl := findLiveGame_gameId hgame
  have hmem : game ∈ ch.liveGames := List.mem_of_find?_eq_some hgame
  have hperm := perm_cons_eraseP hgame
  have hbacked := h.live game hmem
  have hle := hbacked.share_le hshare
  have hcovers := h.covers hgame
  have hmine := h.mine
  have htheirs := h.theirs
  rw [(hperm.map _).sum_eq, List.map_cons, List.sum_cons] at hmine htheirs
  refine ⟨?_, ?_, ?_, fun g hg => h.live g (List.mem_of_mem_eraseP hg), h.proposed⟩
  · have htotal := h.total
    have hstake := hbacked.amount
    have hcoversMine := hcovers.mine
    have hcoversTheirs := hcovers.theirs
    simp only [ChannelState.settled, ChannelState.withoutGame, channelCoin] at htotal ⊢
    omega
  · simp only [ChannelState.settled, ChannelState.withoutGame]
    omega
  · simp only [ChannelState.settled, ChannelState.withoutGame]
    omega

/-- An operation that pays no more than there is keeps the books balanced. -/
theorem Balanced.step (h : ch.Balanced) {op : GameOp} (hstated : op.Stated ch)
    (hpayable : op.Payable E ch) : (op.step E ch).Balanced := by
  have hbooked := booked_step (E := E) ch op
  generalize GameOp.step E ch op = ch' at hbooked
  cases hbooked with
  | same _ cached => exact ⟨h.total, h.mine, h.theirs, h.live, h.proposed⟩
  | proposed startInfo groupId proposal hnew =>
    exact h.propose hnew hstated.1 hstated.2 hpayable ch.theirNextNonce
  | received startInfo groupId proposal hcheck hnew =>
    obtain ⟨-, -, -, hfits, hamount, -⟩ := checkReceivedProposal_eq_ok_iff.mp hcheck
    exact h.propose hnew hamount (hamount ▸ hfits) hpayable _
  | accepted _ gameId proposal cached hop hfind hmine htheirs =>
    exact h.accepted hfind hmine htheirs cached
  | removed _ gameId hop => exact h.withoutProposal gameId
  | cancelled => exact ⟨h.total, h.mine, h.theirs, h.live, fun p hp => by simp at hp⟩
  | allocated => exact ⟨h.total, h.mine, h.theirs, h.live, h.proposed⟩
  | moved gameId readableMove newEntropy game moved wire cached hgame hmove =>
    obtain ⟨r, handler, result, t, href, hhandler, hresult, rfl, hfixed, hcoin, -⟩ :=
      LiveGame.internalMakeMove_eq_ok hmove
    have hshare := hpayable game r handler result hgame href hhandler hresult
    have hbacked := h.live game (List.mem_of_find?_eq_some hgame)
    refine h.putGame hgame (hbacked.moveTo ?_ ?_) rfl rfl rfl cached
    · rw [href]
      exact hfixed
    · rw [Referee.spendThisCoin, hcoin]
      exact hshare
  | theirMove gameId gameMove game moved result hgame hshare hmove =>
    have hbacked := h.live game (List.mem_of_find?_eq_some hgame)
    rcases LiveGame.internalTheirMove_eq_ok hmove with rfl | ⟨t, r, href, rfl, hfixed, hcoin⟩
    · exact h.putGame hgame hbacked rfl rfl rfl ch.cachedRedoActions
    · refine h.putGame hgame (hbacked.moveTo ?_ ?_) rfl rfl rfl ch.cachedRedoActions
      · rw [href]
        exact hfixed
      · rw [Referee.spendThisCoin, hcoin]
        exact hshare
  | cheated gameId makeMove moverShare game hgame =>
    have hbacked := h.live game (List.mem_of_find?_eq_some hgame)
    have hcheat : (game.enableCheating makeMove moverShare).1.gameId = game.gameId ∧
        (game.enableCheating makeMove moverShare).1.myContribution = game.myContribution ∧
        (game.enableCheating makeMove moverShare).1.theirContribution = game.theirContribution ∧
        (game.enableCheating makeMove moverShare).1.Backed := by
      rw [LiveGame.enableCheating]
      cases href : game.refereeMaker with
      | theirTurn t => exact ⟨rfl, rfl, rfl, hbacked⟩
      | myTurn r =>
        have hamount := hbacked.amount
        have hshare := hbacked.share
        rw [LiveGame.getAmount, href] at hamount hshare
        exact ⟨rfl, rfl, rfl, hamount, hshare⟩
    obtain ⟨hid, hmine, htheirs, hcheated⟩ := hcheat
    exact h.putGame hgame hcheated hid hmine htheirs ch.cachedRedoActions
  | settled _ gameId game forMe cached hop hgame hcovers hshare =>
    exact h.settled hgame hshare cached
  | broken _ gameId game hop hgame hcovers =>
    exact absurd (h.covers hgame) hcovers

/-! The coins that a state pays out. -/

/-- The balances and the games of an unroll. -/
def payouts (ch : ChannelState) : List (Hash × ℕ) :=
  (if ch.latestSentUnroll.coin.startedWithPotato then
    [(ch.rewardPuzzleHash, ch.myOutOfGameBalance), (ch.theirRewardPuzzleHash, ch.theirOutOfGameBalance)]
  else
    [(ch.theirRewardPuzzleHash, ch.theirOutOfGameBalance), (ch.rewardPuzzleHash, ch.myOutOfGameBalance)])
    ++ computeUnrollDataForGames ch.liveGames

/-- The balances of a clean shutdown, of which those at zero are left out. -/
def shutdownPayouts (ch : ChannelState) : List (Hash × ℕ) :=
  (if ch.myOutOfGameBalance ≠ 0 then [(ch.rewardPuzzleHash, ch.myOutOfGameBalance)] else []) ++
    if ch.theirOutOfGameBalance ≠ 0 then [(ch.theirRewardPuzzleHash, ch.theirOutOfGameBalance)] else []

theorem createdCoins_conditionsAt (ch : ChannelState) (n : ℕ) :
    createdCoins (ch.conditionsAt n) = .ok ch.payouts := by
  have hlist : ch.conditionsAt n = .list (.list [condRem, .nat n] ::
      ch.payouts.map fun c => createCoin c.1 c.2) := by
    rw [conditionsAt, UnrollCoin.computeUnrollCoinConditions, payouts, List.map_append]
    cases ch.latestSentUnroll.coin.startedWithPotato with
    | true => simp [currentInputs, unrollCoinConditionInputs, Clvm.list]
    | false => simp [currentInputs, unrollCoinConditionInputs, Clvm.list]
  have hcoins := createdCoins_createCoin ch.payouts
  rw [createdCoins, Clvm.properList_list] at hcoins
  rw [hlist, createdCoins, Clvm.properList_list]
  exact hcoins

theorem createdCoins_timeoutConditionsAt (ch : ChannelState) (n : ℕ) :
    createdCoins (ch.timeoutConditionsAt n) = .ok ch.payouts := by
  have hcoins := ch.createdCoins_conditionsAt n
  rw [timeoutConditionsAt, UnrollCoin.timeoutConditionsOf]
  split
  · rw [createdCoins] at hcoins ⊢
    rw [Clvm.properList]
    cases hproper : (ch.conditionsAt n).properList with
    | none =>
      rw [hproper] at hcoins
      cases hcoins
    | some conds =>
      rw [hproper] at hcoins
      exact hcoins
  · exact hcoins

theorem createdCoins_getConditionsWithChannelState (ch : ChannelState) :
    createdCoins ch.getConditionsWithChannelState = .ok ch.shutdownPayouts := by
  have hlist : ch.getConditionsWithChannelState =
      .list (ch.shutdownPayouts.map fun c => createCoin c.1 c.2) := by
    rw [getConditionsWithChannelState, shutdownPayouts]
    congr 1
    rw [List.map_append]
    congr 1
    · rw [getOurCurrentShare]
      split_ifs <;> rfl
    · rw [getTheirCurrentShare]
      split_ifs <;> rfl
  rw [hlist]
  exact createdCoins_createCoin _

theorem Balanced.payouts_sum (h : ch.Balanced) :
    (ch.payouts.map Prod.snd).sum = ch.channelCoin.amount := by
  have hgames : ∀ games : List LiveGame, (∀ g ∈ games, g.Backed) →
      ((computeUnrollDataForGames games).map Prod.snd).sum =
        (games.map LiveGame.myContribution).sum + (games.map LiveGame.theirContribution).sum := by
    intro games hbacked
    induction games with
    | nil => rfl
    | cons g games ih =>
      have hg := (hbacked g List.mem_cons_self).amount
      have hrest := ih fun g' hg' => hbacked g' (List.mem_cons_of_mem _ hg')
      simp only [computeUnrollDataForGames, List.map_cons, List.sum_cons] at hrest ⊢
      omega
  have hlive := hgames ch.liveGames h.live
  have htotal := h.total
  have hmine := h.mine
  have htheirs := h.theirs
  rw [payouts, List.map_append, List.sum_append, hlive]
  split
  · simp only [List.map_cons, List.map_nil, List.sum_cons, List.sum_nil]
    omega
  · simp only [List.map_cons, List.map_nil, List.sum_cons, List.sum_nil]
    omega

theorem Balanced.shutdownPayouts_sum (h : ch.Balanced) (hgames : ch.hasActiveGames = false) :
    (ch.shutdownPayouts.map Prod.snd).sum = ch.channelCoin.amount := by
  have hlive : ch.liveGames = [] := by simpa [hasActiveGames] using hgames
  have htotal := h.total
  have hmine := h.mine
  have htheirs := h.theirs
  rw [hlive] at hmine htheirs
  simp only [List.map_nil, List.sum_nil] at hmine htheirs
  rw [shutdownPayouts]
  split_ifs
  all_goals
    simp only [List.map_append, List.map_cons, List.map_nil, List.sum_append, List.sum_cons,
      List.sum_nil]
    omega

/-! Runs of operations and potatoes. -/

/-- The balances with the games and the coin that they are about. -/
def funds (ch : ChannelState) :=
  (ch.myOutOfGameBalance, ch.theirOutOfGameBalance, ch.myAllocatedBalance, ch.theirAllocatedBalance,
    ch.liveGames, ch.proposedGames, ch.channelCoin)

theorem Balanced.of_funds (h : ch.Balanced) (hfunds : ch'.funds = ch.funds) : ch'.Balanced := by
  simp only [funds, Prod.mk.injEq] at hfunds
  obtain ⟨hmine, htheirs, hmyAllocated, htheirAllocated, hlive, hproposed, hcoin⟩ := hfunds
  constructor
  · rw [hmine, htheirs, hmyAllocated, htheirAllocated, hcoin]
    exact h.total
  · rw [hmyAllocated, hlive]
    exact h.mine
  · rw [htheirAllocated, hlive]
    exact h.theirs
  · rw [hlive]
    exact h.live
  · rw [hproposed]
    exact h.proposed

theorem keeps_funds_verifyReceivedBatchSignatures (signatures : StateUpdateSignatures) :
    Act.Keeps funds (verifyReceivedBatchSignatures E signatures) := by
  refine Act.Keeps.bind ?_ fun _ => Act.Keeps.bind (fun _ => rfl) fun _ => Act.keeps_pure _
  refine Act.Keeps.bind (fun _ => rfl) fun _ => Act.keeps_get.bind fun _ =>
    (Act.keeps_lift _).bind fun _ => Act.keeps_ite (Act.keeps_throw _) ?_
  refine (Act.keeps_lift _).bind fun _ => (Act.keeps_lift _).bind fun _ =>
    Act.Keeps.bind (fun _ => rfl) fun _ => Act.Keeps.bind ?_ fun _ =>
      Act.Keeps.bind (fun _ => rfl) fun _ => Act.keeps_pure _
  exact Act.keeps_get.bind fun _ => (Act.keeps_lift _).bind fun _ => fun _ => rfl

/-- The runs of a channel state in which the operations are admitted: whether an operation or a
receipt succeeds or not, the run goes on with what it left. -/
inductive Played (E : ChannelEnv) (admits : ChannelState → GameOp → Prop) (o : Opening E) :
    ChannelState → Prop where
  | start : Played E admits o o.channel
  | op {ch : ChannelState} (h : Played E admits o ch) (op : GameOp) (hop : admits ch op) :
      Played E admits o (op.step E ch)
  | sent {ch : ChannelState} (h : Played E admits o ch) : Played E admits o (ch.sent E)
  | received {ch : ChannelState} (h : Played E admits o ch) (signatures : StateUpdateSignatures) :
      Played E admits o ((verifyReceivedBatchSignatures E signatures).after ch)

/-- Neither kind of settlement runs out of funds; if it fails, it has not begun. -/
def SettlesSafely (ch : ChannelState) : Prop :=
  ∀ gameId e ch', sendAcceptSettlementNoFinalize gameId ch = .error e ch' ∨
      applyReceivedAcceptSettlement gameId ch = .error e ch' →
    ch' = ch ∧ ∀ a b, e ≠ .strErr "Amount underflow" [.nat a, .nat b]

/-- The funds of a channel state, the arithmetic on them and what is paid out of them. -/
structure Conserved (E : ChannelEnv) (admits : ChannelState → GameOp → Prop) (ch : ChannelState) :
    Prop where
  total : ch.myOutOfGameBalance + ch.theirOutOfGameBalance + ch.myAllocatedBalance +
    ch.theirAllocatedBalance = ch.channelCoin.amount
  mine : ch.myAllocatedBalance = (ch.liveGames.map LiveGame.myContribution).sum
  theirs : ch.theirAllocatedBalance = (ch.liveGames.map LiveGame.theirContribution).sum
  amounts : ∀ g ∈ ch.liveGames, g.getAmount = g.myContribution + g.theirContribution
  -- the additions: those of a proposal, and those that the next operation stores
  proposals : ∀ p ∈ ch.proposedGames, p.myContribution + p.theirContribution < 2 ^ 64
  additions : ∀ op, admits ch op → let ch' := GameOp.step E ch op
    ch'.myOutOfGameBalance + ch'.theirOutOfGameBalance + ch'.myAllocatedBalance +
      ch'.theirAllocatedBalance < 2 ^ 64
  subtractions : ch.SettlesSafely
  unroll : ∀ n, ∃ coins, createdCoins (ch.conditionsAt n) = .ok coins ∧
    createdCoins (ch.timeoutConditionsAt n) = .ok coins ∧
    (coins.map Prod.snd).sum = ch.channelCoin.amount
  shutdown : ch.hasActiveGames = false → ∃ coins,
    createdCoins ch.getConditionsWithChannelState = .ok coins ∧
    (coins.map Prod.snd).sum = ch.channelCoin.amount

theorem Balanced.start (o : Opening E) : o.channel.Balanced :=
  ⟨rfl, rfl, rfl, fun g hg => (by cases hg), fun p hp => (by cases hp)⟩

theorem amount_step (ch : ChannelState) (op : GameOp) :
    (GameOp.step E ch op).channelCoin.amount = ch.channelCoin.amount :=
  (congrArg (fun ch : ChannelState => ch.channelCoin.amount) (core_step ch op) :)

theorem Played.balanced {admits : ChannelState → GameOp → Prop} {o : Opening E}
    (hadmits : ∀ ch op, admits ch op → op.Stated ch ∧ op.Payable E ch) (h : Played E admits o ch) :
    ch.Balanced ∧ ch.channelCoin.amount = o.setup.myContribution + o.setup.theirContribution := by
  induction h with
  | start => exact ⟨.start o, rfl⟩
  | @op ch _ op hop ih =>
    obtain ⟨hstated, hpayable⟩ := hadmits ch op hop
    exact ⟨ih.1.step hstated hpayable, (amount_step ch op).trans ih.2⟩
  | sent _ ih => exact ⟨ih.1.of_funds rfl, ih.2⟩
  | @received ch _ signatures ih =>
    have hkeeps := keeps_funds_verifyReceivedBatchSignatures (E := E) signatures ch
    have hcoin : ((verifyReceivedBatchSignatures E signatures).after ch).channelCoin =
        ch.channelCoin := by
      simp only [funds, Prod.mk.injEq] at hkeeps
      exact hkeeps.2.2.2.2.2.2
    exact ⟨ih.1.of_funds hkeeps, by rw [hcoin]; exact ih.2⟩

theorem getGameById_eq_error {gameId : GameID} {e : Error} (h : ch.getGameById gameId = .error e) :
    e = .strErr "no live game with the given game id" [] := by
  rw [getGameById] at h
  cases hfind : ch.findLiveGame gameId with
  | none =>
    rw [hfind] at h
    exact (Except.error.inj h).symm
  | some game =>
    rw [hfind] at h
    cases h

theorem sendAcceptSettlement_error {gameId : GameID} {e : Error}
    (hcovers : ∀ game, ch.findLiveGame gameId = some game → ch.Covers game)
    (h : sendAcceptSettlementNoFinalize gameId ch = .error e ch') :
    ch' = ch ∧ ∀ a b, e ≠ .strErr "Amount underflow" [.nat a, .nat b] := by
  rw [sendAcceptSettlementNoFinalize, Act.bind_of_ok (Act.get_apply ch)] at h
  split_ifs at h with hpotato
  swap
  · cases h
    exact ⟨rfl, by simp⟩
  rw [Act.bind_of_ok (Act.get_apply ch)] at h
  cases hgame : ch.getGameById gameId with
  | error e' =>
    rw [hgame] at h
    cases h
    rw [getGameById_eq_error hgame]
    exact ⟨rfl, by simp⟩
  | ok game =>
    obtain ⟨hmine, htheirs, hshare⟩ := hcovers game (getGameById_eq_ok.mp hgame)
    rw [hgame, Act.bind_of_ok (Act.lift_ok _ _)] at h
    split_ifs at h with hturn
    swap
    · cases h
      exact ⟨rfl, by simp⟩
    have hours : game.getOurCurrentShare =
        .ok game.refereeMaker.spendThisCoin.gameMove.basic.moverShare := by
      rw [LiveGame.getOurCurrentShare, Referee.getOurCurrentShare, if_pos]
      exact hturn
    -- every subtraction goes through
    rw [Act.bind_of_ok (Act.modify_apply _ _), Act.bind_of_ok (Act.get_apply _),
      amountCheckedSub_of_le (a := (ch.withoutGame gameId).myAllocatedBalance) hmine,
      Act.bind_of_ok (Act.lift_ok _ _), Act.bind_of_ok (Act.modify_apply _ _),
      Act.bind_of_ok (Act.get_apply _),
      amountCheckedSub_of_le (a := (ch.withoutGame gameId).theirAllocatedBalance) htheirs,
      Act.bind_of_ok (Act.lift_ok _ _), Act.bind_of_ok (Act.modify_apply _ _), hours,
      Act.bind_of_ok (Act.lift_ok _ _), Act.bind_of_ok (Act.modify_apply _ _),
      amountCheckedSub_of_le hshare, Act.bind_of_ok (Act.lift_ok _ _),
      Act.bind_of_ok (Act.modify_apply _ _)] at h
    cases h

theorem applyReceivedAcceptSettlement_error {gameId : GameID} {e : Error}
    (hcovers : ∀ game, ch.findLiveGame gameId = some game → ch.Covers game)
    (h : applyReceivedAcceptSettlement gameId ch = .error e ch') :
    ch' = ch ∧ ∀ a b, e ≠ .strErr "Amount underflow" [.nat a, .nat b] := by
  rw [applyReceivedAcceptSettlement, Act.bind_of_ok (Act.get_apply ch)] at h
  cases hgame : ch.getGameById gameId with
  | error e' =>
    rw [hgame] at h
    cases h
    rw [getGameById_eq_error hgame]
    exact ⟨rfl, by simp⟩
  | ok game =>
    obtain ⟨hmine, htheirs, hshare⟩ := hcovers game (getGameById_eq_ok.mp hgame)
    rw [hgame, Act.bind_of_ok (Act.lift_ok _ _)] at h
    split_ifs at h with hturn
    · cases h
      exact ⟨rfl, by simp⟩
    have hours : game.getOurCurrentShare =
        .ok (game.getAmount - game.refereeMaker.spendThisCoin.gameMove.basic.moverShare) := by
      rw [LiveGame.getOurCurrentShare, Referee.getOurCurrentShare, if_neg]
      · exact amountCheckedSub_of_le hshare
      · exact hturn
    rw [hours, Act.bind_of_ok (Act.lift_ok _ _), amountCheckedSub_of_le (Nat.sub_le _ _),
      Act.bind_of_ok (Act.lift_ok _ _), Act.bind_of_ok (Act.get_apply _),
      amountCheckedSub_of_le hmine, Act.bind_of_ok (Act.lift_ok _ _),
      Act.bind_of_ok (Act.modify_apply _ _), Act.bind_of_ok (Act.get_apply _),
      amountCheckedSub_of_le (a := ch.theirAllocatedBalance) htheirs,
      Act.bind_of_ok (Act.lift_ok _ _), Act.bind_of_ok (Act.modify_apply _ _),
      Act.bind_of_ok (Act.modify_apply _ _)] at h
    cases h

theorem Balanced.settlesSafely (h : ch.Balanced) : ch.SettlesSafely := by
  rintro gameId e ch' (herror | herror)
  · exact sendAcceptSettlement_error (fun _ hgame => h.covers hgame) herror
  · exact applyReceivedAcceptSettlement_error (fun _ hgame => h.covers hgame) herror

/-- The operations that pay no more than there is, our own proposals being as the factories make
them. -/
def Payable (E : ChannelEnv) (ch : ChannelState) (op : GameOp) : Prop :=
  op.Stated ch ∧ op.Payable E ch

/-- In every run of such operations, no coin is lost or made. -/
theorem funds_conserved {o : Opening E}
    (hfits : o.setup.myContribution + o.setup.theirContribution < 2 ^ 64)
    (h : Played E (Payable E) o ch) : Conserved E (Payable E) ch := by
  obtain ⟨hbalanced, hamount⟩ := h.balanced fun _ _ hop => hop
  refine ⟨hbalanced.total, hbalanced.mine, hbalanced.theirs,
    fun g hg => (hbalanced.live g hg).amount, fun p hp => (hbalanced.proposed p hp).2, ?_,
    hbalanced.settlesSafely, fun n => ?_, fun hgames => ?_⟩
  · intro op hop
    have hnext := (hbalanced.step hop.1 hop.2).total
    rw [amount_step, hamount] at hnext
    dsimp only
    rw [hnext]
    exact hfits
  · exact ⟨_, ch.createdCoins_conditionsAt n, ch.createdCoins_timeoutConditionsAt n,
      hbalanced.payouts_sum⟩
  · exact ⟨_, ch.createdCoins_getConditionsWithChannelState, hbalanced.shutdownPayouts_sum hgames⟩

end ChannelState

namespace Steady

/-- The steady game as the receiver of the handshake may propose it, with a share for the mover. -/
def offer (moverShare : ℕ) : GameStartInfo :=
  { start with gameId := 0, initialMoverShare := moverShare }

/-- The game is proposed, accepted and settled at once. -/
def settle (moverShare : ℕ) : List GameOp :=
  [.sendProposeGame (offer moverShare) 0, .applyReceivedAcceptProposal 0,
    .sendAcceptSettlementNoFinalize 0]

end Steady

theorem ChannelState.Played.foldl {E : ChannelEnv} {admits : ChannelState → GameOp → Prop}
    {o : Opening E} {ch : ChannelState} (h : ChannelState.Played E admits o ch) {ops : List GameOp}
    (hops : ∀ ch, ∀ op ∈ ops, admits ch op) :
    ChannelState.Played E admits o (ops.foldl (GameOp.step E) ch) := by
  induction ops generalizing ch with
  | nil => exact h
  | cons op ops ih =>
    exact ih (h.op op (hops ch op List.mem_cons_self)) fun ch' op' hop' =>
      hops ch' op' (List.mem_cons_of_mem op hop')

/-- The mover's share of one goes to us, and the rest to the peer. -/
theorem funds_conserved_settled :
    ChannelState.Conserved Steady.channelEnv (ChannelState.Payable Steady.channelEnv)
      ((Steady.settle 1).foldl (GameOp.step Steady.channelEnv) (Steady.opening false).channel) := by
  refine ChannelState.funds_conserved (o := Steady.opening false) (by decide)
    (ChannelState.Played.start.foldl fun ch op hop => ?_)
  simp only [Steady.settle, List.mem_cons, List.not_mem_nil, or_false] at hop
  rcases hop with rfl | rfl | rfl
  · exact ⟨⟨rfl, by decide⟩, (by decide : (1 : ℕ) ≤ 2)⟩
  · exact ⟨trivial, trivial⟩
  · exact ⟨trivial, trivial⟩

/-- A share of five of a game for two: the settlement fails after we have taken it. -/
theorem overpaid_mover_not_conserved :
    ∃ ch, ChannelState.Played Steady.channelEnv (fun ch op => op.Stated ch) (Steady.opening false) ch ∧
      ¬ ChannelState.Conserved Steady.channelEnv (fun ch op => op.Stated ch) ch := by
  refine ⟨(Steady.settle 5).foldl (GameOp.step Steady.channelEnv) (Steady.opening false).channel,
    ChannelState.Played.start.foldl fun ch op hop => ?_, fun h => ?_⟩
  · simp only [Steady.settle, List.mem_cons, List.not_mem_nil, or_false] at hop
    rcases hop with rfl | rfl | rfl
    · exact ⟨rfl, by decide⟩
    · trivial
    · trivial
  · exact absurd h.total (by decide +kernel)

end ChiaGaming
