import ChiaGaming.Channel.Funds
import ChiaGaming.Session.Discipline
import ChiaGaming.Session.Spends

namespace ChiaGaming

/-! What the games of a channel are worth. -/

/-- What a proposal's game pays out beyond what the players put in. -/
def ProposedGame.surplus (p : ProposedGame) : ℤ :=
  ((ChannelState.ofProposal p).getAmount : ℤ) - (p.myContribution + p.theirContribution)

/-- The surplus of the proposals that a batch accepts. -/
def acceptedSurplus : List BatchAction → List ProposedGame → ℤ
  | [], _ => 0
  | .acceptProposal gameId :: rest, proposals =>
    (match proposals.find? fun p => p.gameId = gameId with
    | some proposal => proposal.surplus
    | none => 0) + acceptedSurplus rest (proposals.eraseP fun p => p.gameId = gameId)
  | .cancelProposal gameId :: rest, proposals =>
    acceptedSurplus rest (proposals.eraseP fun p => p.gameId = gameId)
  | _ :: rest, proposals => acceptedSurplus rest proposals

namespace ChannelState

/-- The balances, with the amounts of the games. -/
def worth (ch : ChannelState) : ℤ :=
  ch.myOutOfGameBalance + ch.theirOutOfGameBalance + ((ch.liveGames.map LiveGame.getAmount).sum : ℕ)

variable {E : ChannelEnv} {ch ch' : ChannelState}

theorem worth_putGame {gameId : GameID} {game moved : LiveGame}
    (hgame : ch.findLiveGame gameId = some game) (hid : moved.gameId = gameId)
    (hamount : moved.getAmount = game.getAmount) :
    worth { ch with liveGames := putGame moved ch.liveGames } = ch.worth := by
  have hold := (perm_cons_eraseP hgame).map LiveGame.getAmount
  have hnew := (perm_putGame hgame hid).map LiveGame.getAmount
  rw [worth, worth, hold.sum_eq, hnew.sum_eq, List.map_cons, List.map_cons, hamount]

theorem worth_accepted {proposal : ProposedGame}
    (hmine : proposal.myContribution ≤ ch.myOutOfGameBalance)
    (htheirs : proposal.theirContribution ≤ ch.theirOutOfGameBalance) :
    (ch.accepted proposal).worth = ch.worth + proposal.surplus := by
  simp only [worth, accepted, withoutProposal, List.map_append, List.map_cons, List.map_nil,
    List.sum_append, List.sum_cons, List.sum_nil, ProposedGame.surplus]
  omega

theorem worth_settled {game : LiveGame} {gameId : GameID} {forMe : ℕ}
    (hgame : ch.findLiveGame gameId = some game) (hle : forMe ≤ game.getAmount) :
    (ch.settled game forMe).worth = ch.worth := by
  obtain rfl := GameOp.findLiveGame_gameId hgame
  have hperm := (perm_cons_eraseP hgame).map LiveGame.getAmount
  simp only [worth, settled, withoutGame]
  rw [hperm.sum_eq, List.map_cons, List.sum_cons]
  omega

theorem Covers.share_le {game : LiveGame} (h : ch.Covers game) {forMe : ℕ}
    (hshare : game.getOurCurrentShare = .ok forMe) : forMe ≤ game.getAmount := by
  rw [LiveGame.getOurCurrentShare, Referee.getOurCurrentShare] at hshare
  split at hshare
  · obtain rfl := Except.ok.inj hshare
    exact h.share
  · have hsub := amountCheckedSub_of_le h.share
    obtain rfl := Except.ok.inj (hsub.symm.trans hshare)
    exact Nat.sub_le _ _

theorem applyReceivedMove_worth (gameId : GameID) (gameMove : GameMoveDetails) :
    ((applyReceivedMove E gameId gameMove).after ch).worth = ch.worth ∧
      ((applyReceivedMove E gameId gameMove).after ch).proposedGames = ch.proposedGames := by
  have hbooked := GameOp.booked_applyReceivedMove (E := E) ch gameId gameMove
  generalize (applyReceivedMove E gameId gameMove).after ch = ch' at hbooked ⊢
  cases hbooked with
  | same _ cached => exact ⟨rfl, rfl⟩
  | theirMove _ _ game moved result hgame hshare hmove =>
    have hid := GameOp.findLiveGame_gameId hgame
    rcases LiveGame.internalTheirMove_eq_ok hmove with rfl | ⟨t, r, href, rfl, hfixed, -⟩
    · exact ⟨worth_putGame hgame hid rfl, rfl⟩
    · have hamount : (game.moveTo E.toEnv (.myTurn r)).getAmount = game.getAmount := by
        rw [LiveGame.getAmount, LiveGame.getAmount, href]
        exact congrArg RefereeFixedContext.amount hfixed
      exact ⟨worth_putGame hgame hid hamount, rfl⟩
  | accepted _ _ _ _ hop =>
    rcases hop with h | ⟨h, -⟩
    · cases h
    · cases h
  | removed _ _ hop =>
    rcases hop with h | h
    · cases h
    · cases h
  | settled _ _ _ _ _ hop =>
    rcases hop with h | h
    · cases h
    · cases h
  | broken _ _ _ hop =>
    rcases hop with h | h
    · cases h
    · cases h

theorem amountCheckedSub_eq_ok {a b c : ℕ} (h : amountCheckedSub a b = .ok c) : b ≤ a ∧ c = a - b := by
  by_cases hle : b ≤ a
  · have hsub := amountCheckedSub_of_le hle
    exact ⟨hle, (Except.ok.inj (hsub.symm.trans h)).symm⟩
  · have hsub := amountCheckedSub_of_not_le hle
    cases hsub.symm.trans h

/-- A settlement that goes through pays out the amount of its game. -/
theorem applyReceivedAcceptSettlement_worth {gameId : GameID} {reward : ℕ × Bool}
    (h : applyReceivedAcceptSettlement gameId ch = .ok reward ch') :
    ch'.worth = ch.worth ∧ ch'.proposedGames = ch.proposedGames := by
  rw [applyReceivedAcceptSettlement, Act.bind_of_ok (Act.get_apply ch)] at h
  obtain ⟨game, ch₁, hgame, h₁⟩ := Act.bind_eq_ok.mp h
  obtain ⟨hfind, rfl⟩ := Act.lift_eq_ok.mp hgame
  rcases Act.ite_eq_ok.mp h₁ with ⟨-, h₂⟩ | ⟨-, h₂⟩
  · cases h₂
  obtain ⟨forMe, ch₂, hshare, h₃⟩ := Act.bind_eq_ok.mp h₂
  obtain ⟨-, rfl⟩ := Act.lift_eq_ok.mp hshare
  obtain ⟨forThem, ch₃, hrest, h₄⟩ := Act.bind_eq_ok.mp h₃
  obtain ⟨hsub, rfl⟩ := Act.lift_eq_ok.mp hrest
  obtain ⟨hle, rfl⟩ := amountCheckedSub_eq_ok hsub
  rw [Act.bind_of_ok (Act.get_apply _)] at h₄
  obtain ⟨mine, ch₄, hmine, h₅⟩ := Act.bind_eq_ok.mp h₄
  obtain ⟨-, rfl⟩ := Act.lift_eq_ok.mp hmine
  rw [Act.bind_of_ok (Act.modify_apply _ _), Act.bind_of_ok (Act.get_apply _)] at h₅
  obtain ⟨theirs, ch₅, htheirs, h₆⟩ := Act.bind_eq_ok.mp h₅
  obtain ⟨-, rfl⟩ := Act.lift_eq_ok.mp htheirs
  rw [Act.bind_of_ok (Act.modify_apply _ _), Act.bind_of_ok (Act.modify_apply _ _)] at h₆
  cases h₆
  have hfound := GameOp.getGameById_eq_ok.mp hfind
  obtain rfl := GameOp.findLiveGame_gameId hfound
  exact ⟨worth_settled hfound hle, rfl⟩

end ChannelState

namespace OffChainPhase

open Act

variable {E : ChannelEnv} {gameTypes : List (Bytes × Option Clvm)} {ch ch' : ChannelState}
  {p p' : OffChainPhase}

/-- Proposals of the peer come in at what the players put in. -/
theorem each_applyReceivedProposal_worth {games : List GameStartInfo} {groupId : GameID}
    {units : List Unit}
    (h : Act.each (fun game => do
      ChannelState.applyReceivedProposal E game groupId
      pure ([] : List Unit)) games ch = .ok units ch') :
    ch'.worth = ch.worth ∧ ∃ received, ch'.proposedGames = ch.proposedGames ++ received ∧
      ∀ p ∈ received, p.surplus = 0 := by
  induction games generalizing ch units with
  | nil =>
    cases h
    exact ⟨rfl, [], (List.append_nil _).symm, fun p hp => by cases hp⟩
  | cons game games ih =>
    obtain ⟨ch₁, units', happly, hrest⟩ := each_applyReceivedProposal_cons h
    obtain ⟨hcheck, proposal, hnew, rfl⟩ := applyReceivedProposal_eq_ok happly
    obtain ⟨hworth, received, hproposed, hsurplus⟩ := ih hrest
    obtain ⟨-, -, -, -, hamount, -⟩ := ChannelState.checkReceivedProposal_eq_ok_iff.mp hcheck
    obtain ⟨-, -, hmine, htheirs, hfixed, -⟩ := ChannelState.newProposedGame_eq_ok hnew
    have hstake : (ChannelState.ofProposal proposal).getAmount = game.amount := by
      rw [LiveGame.getAmount, ChannelState.ofProposal, hfixed]
      rfl
    refine ⟨hworth, proposal :: received, ?_, fun p hp => ?_⟩
    · rw [hproposed, List.append_assoc]
      rfl
    · rcases List.mem_cons.mp hp with rfl | hp
      · rw [ProposedGame.surplus, hstake, hamount, hmine, htheirs]
        push_cast
        ring
      · exact hsurplus p hp

/-- What an action of a batch does to the worth of a channel.  The proposals are those before the
batch and those that have come in with it. -/
theorem Applied.worth {action : BatchAction} (h : Applied E gameTypes ch action ch')
    {before received : List ProposedGame} (hproposed : ch.proposedGames = before ++ received)
    (hreceived : ∀ p ∈ received, p.surplus = 0) :
    ∃ before' received', ch'.proposedGames = before' ++ received' ∧
      (∀ p ∈ received', p.surplus = 0) ∧ ∀ rest, ch'.worth + acceptedSurplus rest before' =
        ch.worth + acceptedSurplus (action :: rest) before := by
  -- the proposal that is taken away is one of the first list, if there is any
  have herase : ∀ gameId, ∃ received', (ch.withoutProposal gameId).proposedGames =
      (before.eraseP fun p => p.gameId = gameId) ++ received' ∧ ∀ p ∈ received', p.surplus = 0 := by
    intro gameId
    simp only [ChannelState.withoutProposal, hproposed, List.eraseP_append]
    split
    · exact ⟨received, rfl, hreceived⟩
    · rename_i hnone
      refine ⟨received.eraseP fun p => p.gameId = gameId, ?_,
        fun p hp => hreceived p (List.mem_of_mem_eraseP hp)⟩
      rw [List.eraseP_of_forall_not fun p hp hid => hnone (List.any_eq_true.mpr ⟨p, hp, hid⟩)]
  cases h with
  | declined wire h => exact ⟨before, received, hproposed, hreceived, fun rest => rfl⟩
  | proposed wire games hgames h =>
    obtain ⟨hworth, more, hmore, hsurplus⟩ := each_applyReceivedProposal_worth h
    refine ⟨before, received ++ more, ?_, ?_, fun rest => ?_⟩
    · rw [hmore, hproposed, List.append_assoc]
    · intro p hp
      exact (List.mem_append.mp hp).elim (hreceived p) (hsurplus p)
    · rw [hworth]
      rfl
  | accepted gameId proposal hfind hparity hmine htheirs =>
    obtain rfl := GameOp.findProposal_gameId hfind
    obtain ⟨received', hproposed', hreceived'⟩ := herase proposal.gameId
    refine ⟨_, received', hproposed', hreceived', fun rest => ?_⟩
    rw [ChannelState.worth_accepted hmine htheirs, acceptedSurplus]
    rw [ChannelState.findProposal, hproposed, List.find?_append] at hfind
    cases hbefore : before.find? fun p => p.gameId = proposal.gameId with
    | some first =>
      rw [hbefore] at hfind
      obtain rfl := Option.some.inj hfind
      ring
    | none =>
      rw [hbefore] at hfind
      rw [hreceived proposal (List.mem_of_find?_eq_some hfind)]
      ring
  | cancelled gameId h =>
    obtain ⟨received', hproposed', hreceived'⟩ := herase gameId
    exact ⟨_, received', hproposed', hreceived', fun rest => rfl⟩
  | move gameId gameMove h =>
    obtain ⟨hworth, hsame⟩ := @ChannelState.applyReceivedMove_worth E ch gameId gameMove
    rw [after_of_ok h] at hworth hsame
    refine ⟨before, received, hsame.trans hproposed, hreceived, fun rest => ?_⟩
    rw [hworth]
    rfl
  | settled gameId amount h =>
    obtain ⟨hworth, hsame⟩ := ChannelState.applyReceivedAcceptSettlement_worth h
    refine ⟨before, received, hsame.trans hproposed, hreceived, fun rest => ?_⟩
    rw [hworth]
    rfl

/-- The actions of a batch add the surplus of the proposals that they accept, and nothing else. -/
theorem ApplyRun.worth {queue queue' : List GameAction} {actions : List BatchAction}
    (h : ApplyRun E gameTypes ch queue actions ch' queue') {before received : List ProposedGame}
    (hproposed : ch.proposedGames = before ++ received) (hreceived : ∀ p ∈ received, p.surplus = 0) :
    ch'.worth = ch.worth + acceptedSurplus actions before := by
  induction h generalizing before received with
  | nil ch queue => rw [acceptedSurplus, add_zero]
  | cons happlied _ _ ih =>
    obtain ⟨before', received', hproposed', hreceived', hworth⟩ := happlied.worth hproposed hreceived
    rw [ih hproposed' hreceived']
    exact hworth _

end OffChainPhase

/-! What is signed together with the peer. -/

/-- The spends that an effect lets out, with their signatures. -/
def Effect.coinSpends : Effect → List CoinSpend
  | .peerCleanShutdownComplete spend => [spend]
  | .spendTransaction spends => spends
  | .queueTerminalHandoff spend => [spend]
  | _ => []

namespace ChannelState

/-- The spend of the channel coin by the peer's conditions, under our half of the signature and the
peer's. -/
def shutdownSpend (E : ChannelEnv) (ch : ChannelState) (sig : Aggsig) (conditions : Clvm) :
    CoinSpend where
  coin := ch.channelCoin
  bundle := ⟨.standard ch.getAggregateChannelPublicKey, solutionForConditions conditions,
    ch.channelHalf E conditions + sig⟩

/-- The last batch is signed over conditions that are our own up to their order, which pay out the
channel coin, and over nothing else. -/
structure CoSigned (E : ChannelEnv) (ch : ChannelState) (sig : Aggsig) (conditions : Clvm)
    (effects : List Effect) : Prop where
  games : ch.liveGames = []
  same : ∃ peerConds expectedConds, conditions.properList = some peerConds ∧
    ch.getConditionsWithChannelState.properList = some expectedConds ∧ peerConds.Perm expectedConds
  paid : ∃ coins, createdCoins conditions = .ok coins ∧ coins.Perm ch.shutdownPayouts ∧
    (coins.map Prod.snd).sum = ch.channelCoin.amount
  released : ∀ spend ∈ effects.flatMap Effect.coinSpends, spend = ch.shutdownSpend E sig conditions

variable {E : ChannelEnv} {ch ch' : ChannelState}

theorem verifyChannelCoinFromPeerSignatures_eq_ok {half : Aggsig} {conditions : Clvm}
    {spend : BrokenOutCoinSpendInfo}
    (h : ch.verifyChannelCoinFromPeerSignatures E half conditions = .ok spend) :
    spend.solution = solutionForConditions conditions ∧
      spend.signature = ch.channelHalf E conditions + half := by
  rw [verifyChannelCoinFromPeerSignatures] at h
  obtain ⟨ours, hours, h₁⟩ := bind_eq_ok.mp h
  rw [getSolutionAndSignatureFromConditions, standardSolutionPartial] at hours
  obtain ⟨coins, -, h₂⟩ := bind_eq_ok.mp hours
  split at h₂
  · cases h₂
  cases h₂
  dsimp only at h₁
  split at h₁
  · cases h₁
    exact ⟨rfl, rfl⟩
  · cases h₁

theorem createdCoins_of_perm {conditions conditions' : Clvm} {conds conds' : List Clvm}
    (h : conditions.properList = some conds) (h' : conditions'.properList = some conds')
    (hperm : conds.Perm conds') {coins' : List (Hash × ℕ)}
    (hcoins' : createdCoins conditions' = .ok coins') :
    ∃ coins, createdCoins conditions = .ok coins ∧ coins.Perm coins' := by
  rw [createdCoins, h'] at hcoins'
  cases hcoins'
  refine ⟨conds.filterMap createdCoin?, ?_, hperm.filterMap _⟩
  rw [createdCoins, h]

theorem sum_shutdownPayouts (ch : ChannelState) :
    (ch.shutdownPayouts.map Prod.snd).sum = ch.myOutOfGameBalance + ch.theirOutOfGameBalance := by
  rw [shutdownPayouts, List.map_append, List.sum_append]
  congr 1
  · split_ifs with h
    · simp
    · simp [not_not.mp h]
  · split_ifs with h
    · simp
    · simp [not_not.mp h]

end ChannelState

namespace OffChainPhase

open Act

/-- What is signed after the actions of a batch is as it should be. -/
def CoSignedAfter (E : ChannelEnv) (p : OffChainPhase) (actions : List BatchAction) (sig : Aggsig)
    (conditions : Clvm) (effects : List Effect) : Prop :=
  ∃ applied p₁ ch₁, applyActions E actions p = .ok applied p₁ ∧ p₁.channelState = some ch₁ ∧
    ch₁.CoSigned E sig conditions effects

variable {E : ChannelEnv} {ch : ChannelState} {p p' : OffChainPhase} {b : PeerBatch} {sig : Aggsig}
  {conditions : Clvm} {effects : List Effect}

theorem perm_of_checkShutdownConditions (h : checkShutdownConditions ch conditions = .ok ()) :
    ∃ peerConds expectedConds, conditions.properList = some peerConds ∧
      ch.getConditionsWithChannelState.properList = some expectedConds ∧
        peerConds.Perm expectedConds := by
  rw [checkShutdownConditions] at h
  obtain ⟨peerConds, hpeer, h₁⟩ := bind_eq_ok.mp h
  obtain ⟨expectedConds, hexpected, h₂⟩ := bind_eq_ok.mp h₁
  split at h₂
  · cases h₂
  obtain ⟨peerSerialized, hpeerBytes, h₃⟩ := bind_eq_ok.mp h₂
  obtain ⟨expectedSerialized, hexpectedBytes, h₄⟩ := bind_eq_ok.mp h₃
  split at h₄
  · cases h₄
  rename_i hsorted
  exact ⟨peerConds, expectedConds, orError_eq_ok.mp hpeer, orError_eq_ok.mp hexpected,
    perm_of_nodesToBytes (orError_eq_ok.mp hpeerBytes) (orError_eq_ok.mp hexpectedBytes)
      (sortBytes_eq_iff.mp (not_not.mp hsorted))⟩

theorem coinSpends_of_told (h : Told effects) : effects.flatMap Effect.coinSpends = [] := by
  refine List.flatMap_eq_nil_iff.mpr fun e he => ?_
  have htells := h e he
  cases e with
  | notify n => rfl
  | peerGameMessage gameId data => rfl
  | _ => exact htells.elim

/-- What a shutdown that goes through has checked, and what it lets out. -/
theorem receiveCleanShutdown_eq_ok (hch : p.channelState = some ch)
    (h : receiveCleanShutdown E sig conditions p = .ok effects p') :
    ch.liveGames = [] ∧ checkShutdownConditions ch conditions = .ok () ∧
      ∀ spend ∈ effects.flatMap Effect.coinSpends, spend = ch.shutdownSpend E sig conditions := by
  rw [receiveCleanShutdown, bind_of_ok (channel_of_some hch)] at h
  rcases ite_eq_ok.mp h with ⟨-, h₁⟩ | ⟨hgames, h₁⟩
  · cases h₁
  obtain ⟨cancelled, p₁, hcancel, h₂⟩ := Act.bind_eq_ok.mp h₁
  obtain ⟨ch₀, ch₁, hch₀, hcancelled, rfl⟩ := onChannel_eq_ok_iff.mp hcancel
  obtain rfl := Option.some.inj (hch.symm.trans hch₀)
  cases hcancelled
  rw [bind_of_ok (channel_of_some rfl)] at h₂
  obtain ⟨checked, p₂, hcheck, h₃⟩ := Act.bind_eq_ok.mp h₂
  obtain ⟨hchecked, rfl⟩ := lift_eq_ok.mp hcheck
  obtain ⟨spend, p₃, hspend, h₄⟩ := Act.bind_eq_ok.mp h₃
  obtain ⟨hverified, rfl⟩ := lift_eq_ok.mp hspend
  obtain ⟨hsolution, hsignature⟩ := ChannelState.verifyChannelCoinFromPeerSignatures_eq_ok hverified
  obtain ⟨settled, p₄, hsettle, h₅⟩ := Act.bind_eq_ok.mp h₄
  obtain ⟨ns, hns⟩ := notifySettlements_of_some
    (p := { p with channelState := some { ch with proposedGames := [] } }) rfl
  rw [hns] at hsettle
  cases hsettle
  cases h₅
  refine ⟨by simpa [ChannelState.hasActiveGames] using hgames, hchecked, fun out hout => ?_⟩
  rw [hsolution, hsignature] at hout
  simp only [List.flatMap_append, List.mem_append, List.flatMap_map] at hout
  rcases hout with (hout | hout) | hout
  · simp [Effect.coinSpends] at hout
  · simp [Effect.coinSpends] at hout
  · split at hout
    · simp only [List.flatMap_cons, List.flatMap_nil, Effect.coinSpends, List.append_nil,
        List.mem_singleton] at hout
      exact hout
    · simp only [List.flatMap_cons, List.flatMap_nil, Effect.coinSpends, List.append_nil,
        List.mem_append, List.mem_singleton, or_self] at hout
      exact hout

theorem passOnBatch_eq_ok (h : passOnBatch E b p = .ok effects p') :
    processReceivedBatch E b p = .ok effects p' := by
  rw [passOnBatch] at h
  cases hr : processReceivedBatch E b p with
  | ok effects₁ p₁ =>
    rw [hr] at h
    exact h
  | error e p₁ =>
    rw [hr] at h
    cases h

/-- The batch is accepted exactly if its actions are and the shutdown after them. -/
theorem processReceivedBatch_shutdown (hb : b.cleanShutdown = some (sig, conditions))
    (h : processReceivedBatch E b p = .ok effects p') :
    ∃ applied p₁ shutdown, applyActions E b.actions p = .ok applied p₁ ∧
      receiveCleanShutdown E sig conditions p₁ = .ok shutdown p' ∧ effects = applied ++ shutdown := by
  obtain ⟨applied, p₁, happlied, hrest⟩ := Act.bind_eq_ok.mp h
  rw [hb] at hrest
  obtain ⟨shutdown, p₂, hshutdown, hpure⟩ := Act.bind_eq_ok.mp hrest
  cases hpure
  exact ⟨applied, p₁, shutdown, happlied, hshutdown, rfl⟩

theorem passOnBatch_refused {e : Error} (hb : b.cleanShutdown = some (sig, conditions))
    (h : passOnBatch E b p = .error e p') :
    ∃ failed, p' = { p with lastFailedQueuedAction := failed } := by
  rw [passOnBatch] at h
  cases hr : processReceivedBatch E b p with
  | ok effects₁ p₁ =>
    rw [hr] at h
    cases h
  | error e' p₁ =>
    rw [hr] at h
    cases h
    have hshell : p₁.shell = p.shell := by
      rcases Act.bind_eq_error.mp hr with happly | ⟨applied, p₂, happly, hrest⟩
      · have hkeeps := keeps_applyActions (E := E) b.actions p
        rwa [after_of_error happly] at hkeeps
      · have hkeeps := keeps_applyActions (E := E) b.actions p
        rw [after_of_ok happly] at hkeeps
        rw [hb] at hrest
        rcases Act.bind_eq_error.mp hrest with hshutdown | ⟨shutdown, p₃, -, hpure⟩
        · exact (receiveCleanShutdown_keepsOnError sig conditions _ _ _ hshutdown).trans hkeeps
        · cases hpure
    refine ⟨p₁.lastFailedQueuedAction, ?_⟩
    cases p
    cases p₁
    simp only [shell, mk.injEq] at hshell ⊢
    simp [hshell]

/-- Nothing but the balances is left after the last batch, and they are paid as they are. -/
theorem coSigned_iff (hgames : ch.liveGames = [])
    (hcheck : checkShutdownConditions ch conditions = .ok ())
    (hreleased : ∀ spend ∈ effects.flatMap Effect.coinSpends,
      spend = ch.shutdownSpend E sig conditions) :
    ch.CoSigned E sig conditions effects ↔ ch.worth = ch.channelCoin.amount := by
  obtain ⟨peerConds, expectedConds, hpeer, hexpected, hperm⟩ := perm_of_checkShutdownConditions hcheck
  obtain ⟨coins, hcoins, hpaid⟩ := ChannelState.createdCoins_of_perm hpeer hexpected hperm
    ch.createdCoins_getConditionsWithChannelState
  have hsum : (coins.map Prod.snd).sum = ch.myOutOfGameBalance + ch.theirOutOfGameBalance :=
    (hpaid.map _).sum_eq.trans ch.sum_shutdownPayouts
  have hworth : ch.worth = (coins.map Prod.snd).sum := by
    rw [ChannelState.worth, hgames, hsum]
    simp
  rw [hworth]
  constructor
  · rintro ⟨-, -, ⟨coins', hcoins', -, htotal⟩, -⟩
    obtain rfl := Except.ok.inj (hcoins.symm.trans hcoins')
    exact congrArg Nat.cast htotal
  · intro htotal
    exact ⟨hgames, ⟨peerConds, expectedConds, hpeer, hexpected, hperm⟩,
      ⟨coins, hcoins, hpaid, by exact_mod_cast htotal⟩, hreleased⟩

/-- The balances after the actions come from what there was before them. -/
theorem coSignedAfter_of_ok (hch : p.channelState = some ch)
    (hb : b.cleanShutdown = some (sig, conditions)) (hr : passOnBatch E b p = .ok effects p') :
    CoSignedAfter E p b.actions sig conditions effects ↔
      ch.worth + acceptedSurplus b.actions ch.proposedGames = ch.channelCoin.amount := by
  obtain ⟨applied, p₁, shutdown, happlied, hshutdown, rfl⟩ :=
    processReceivedBatch_shutdown hb (passOnBatch_eq_ok hr)
  obtain ⟨-, -, ch₁, queue, hrun, hp₁⟩ := applyActions_eq_ok hch happlied
  have hch₁ : p₁.channelState = some ch₁ := by
    rcases hp₁ with rfl | rfl
    · rfl
    · rfl
  obtain ⟨hgames, hcheck, hspends⟩ := receiveCleanShutdown_eq_ok hch₁ hshutdown
  have hreleased : ∀ spend ∈ (applied ++ shutdown).flatMap Effect.coinSpends,
      spend = ch₁.shutdownSpend E sig conditions := by
    rw [List.flatMap_append, coinSpends_of_told (applyActions_told _ _ _ _ happlied)]
    exact hspends
  have hevolves : Evolves E p p₁ := by
    have hmoves := moves_applyActions (E := E) b.actions p
    rwa [after_of_ok happlied] at hmoves
  have hcoin : ch₁.channelCoin = ch.channelCoin :=
    (congrArg ChannelState.channelCoin (evolves_core hevolves hch hch₁) :)
  have hworth := hrun.worth (List.append_nil _).symm fun p hp => by cases hp
  rw [← hworth, ← hcoin, ← coSigned_iff hgames hcheck hreleased]
  constructor
  · rintro ⟨applied', p₂, ch₂, happlied', hch₂, hsigned⟩
    cases happlied.symm.trans happlied'
    obtain rfl := Option.some.inj (hch₁.symm.trans hch₂)
    exact hsigned
  · intro hsigned
    exact ⟨applied, p₁, ch₁, happlied, hch₁, hsigned⟩

/-- A batch that shuts the channel down and is accepted is safe for us exactly if the balances and the
games before it, with what the proposals that it accepts pay out beyond their stakes, make up the
channel coin.  Of a batch that is refused nothing is left, and nothing is signed for it. -/
theorem coSignedAfter_iff (hch : p.channelState = some ch)
    (hb : b.cleanShutdown = some (sig, conditions)) :
    (∀ effects p', passOnBatch E b p = .ok effects p' →
      (CoSignedAfter E p b.actions sig conditions effects ↔
        ch.worth + acceptedSurplus b.actions ch.proposedGames = ch.channelCoin.amount)) ∧
    ∀ e p', passOnBatch E b p = .error e p' →
      ∃ failed, p' = { p with lastFailedQueuedAction := failed } :=
  ⟨fun _ _ hr => coSignedAfter_of_ok hch hb hr, fun _ _ hr => passOnBatch_refused hb hr⟩

end OffChainPhase

namespace Steady

/-- A shutdown that the peer has signed for. -/
def lastBatch (E : ChannelEnv) (actions : List BatchAction) (ch : ChannelState) : PeerBatch where
  actions
  signatures := ⟨0, 0⟩
  cleanShutdown := some (partialSign 21 ch.getAggregateChannelPublicKey
    (channelSpendMessage E (ch.channelCoin.toCoinId E.sha256) ch.getConditionsWithChannelState),
    ch.getConditionsWithChannelState)

/-- A game that pays five for a stake of two. -/
def generous : Clvm :=
  .list [.nat 1, .nat 1, .nat 5, .nil, .atom (shatree frame validator), .nil, .nat 5, .nat 3, .nil,
    handler, handler, validator]

def mint : Run := fun program parameters =>
  if program = single then some (.list [generous]) else run program parameters

def mintEnv : ChannelEnv := { channelEnv with run := mint }

def mintOpening : Opening mintEnv where
  initiator := true
  setup := { setup with weStartWithPotato := false }
  signatures := (ChannelState.opened mintEnv
    { setup with weStartWithPotato := false }).peerSignaturesAt mintEnv 21 22 0
  startPotato := setup_startPotato true
  valid := setup_valid true
  channelKey := setup_channelKey
  unrollKey := setup_unrollKey
  verified := (ChannelState.verifies_iff _ _ rfl rfl).mpr rfl

/-- The game is proposed and the potato is passed. -/
def minting : OffChainPhase :=
  (OffChainPhase.runLocal mintEnv .flush).after
    ((OffChainPhase.runLocal mintEnv (.propose singleOffer)).after (OffChainPhase.fromCompletedHandshake mintOpening
      [([1], some single)] []))

def minted : PeerBatch :=
  lastBatch mintEnv [.acceptProposal 1, .acceptSettlement 1 0]
    { mintOpening.channel with myOutOfGameBalance := 14, theirOutOfGameBalance := 9 }

theorem minting_evaluated : (OffChainPhase.passOnBatch mintEnv minted).succeeds minting = true ∧
    minting.channelState.map (fun ch => (ch.worth + acceptedSurplus minted.actions ch.proposedGames,
      ch.channelCoin.amount)) = some (23, 20) := by
  decide +kernel

theorem minting_reach : OffChainPhase.Reach mintEnv mintOpening minting :=
  .act (.act (.start _ _) (.propose singleOffer)) .flush

/-- Right after the handshake the peer shuts the channel down. -/
def parted : PeerBatch := lastBatch channelEnv [] (opening false).channel

def unplayed : OffChainPhase := .fromCompletedHandshake (opening false) [] []

theorem parted_evaluated : (OffChainPhase.passOnBatch channelEnv parted).succeeds unplayed = true ∧
    (opening false).channel.worth +
      acceptedSurplus parted.actions (opening false).channel.proposedGames =
        (opening false).channel.channelCoin.amount := by
  decide +kernel

end Steady

theorem coSignedAfter_iff_parted : ∃ effects p',
    OffChainPhase.passOnBatch Steady.channelEnv Steady.parted Steady.unplayed = .ok effects p' ∧
      OffChainPhase.CoSignedAfter Steady.channelEnv Steady.unplayed []
        (partialSign 21 (Steady.opening false).channel.getAggregateChannelPublicKey
          (channelSpendMessage Steady.channelEnv
            ((Steady.opening false).channel.channelCoin.toCoinId Steady.channelEnv.sha256)
            (Steady.opening false).channel.getConditionsWithChannelState))
        (Steady.opening false).channel.getConditionsWithChannelState effects := by
  obtain ⟨hok, hworth⟩ := Steady.parted_evaluated
  obtain ⟨effects, hr⟩ := Act.eq_ok_of_succeeds hok
  have hch : Steady.unplayed.channelState = some (Steady.opening false).channel := rfl
  have hiff := (OffChainPhase.coSignedAfter_iff hch rfl).1 effects _ hr
  exact ⟨effects, _, hr, hiff.mpr hworth⟩

/-- The peer accepts the game and leaves all of it to us: fourteen and nine are signed for, out of a
coin of twenty. -/
theorem generous_shutdown_signed : ¬ ∀ (p : OffChainPhase) (b : PeerBatch) (sig : Aggsig)
    (conditions : Clvm) (effects : List Effect) (p' : OffChainPhase),
    OffChainPhase.Reach Steady.mintEnv Steady.mintOpening p → b.cleanShutdown = some (sig, conditions) →
      OffChainPhase.passOnBatch Steady.mintEnv b p = .ok effects p' →
        OffChainPhase.CoSignedAfter Steady.mintEnv p b.actions sig conditions effects := by
  intro h
  obtain ⟨hok, hworth⟩ := Steady.minting_evaluated
  obtain ⟨effects, hr⟩ := Act.eq_ok_of_succeeds hok
  obtain ⟨ch, hch, hpair⟩ := Option.map_eq_some_iff.mp hworth
  have hsigned := h Steady.minting Steady.minted _ _ effects _ Steady.minting_reach rfl hr
  have heq := (OffChainPhase.coSignedAfter_of_ok hch rfl hr).mp hsigned
  obtain ⟨htotal, hamount⟩ := Prod.mk.inj hpair
  rw [htotal, hamount] at heq
  exact absurd heq (by decide)

end ChiaGaming
