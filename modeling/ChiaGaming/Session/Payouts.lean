import ChiaGaming.Channel.Payouts
import ChiaGaming.Session.Names

namespace ChiaGaming

namespace OffChainPhase

open Act

/-! Turns as operations on the channel state. -/

variable {E : ChannelEnv} {ch ch' : ChannelState} {gameTypes : List (Bytes × Option Clvm)}

theorem steps_of_op (op : GameOp) (h : GameOp.step E ch op = ch') : GameOp.Steps E ch ch' :=
  h ▸ GameOp.Steps.single ch op

theorem steps_withoutProposal {gameId : GameID} (h : ch.isGameProposed gameId = true) :
    GameOp.Steps E ch (ch.withoutProposal gameId) := by
  have hcancel : ChannelState.sendCancelProposal gameId ch = .ok () (ch.withoutProposal gameId) := by
    rw [ChannelState.sendCancelProposal, ChannelState.removeProposal, bind_of_ok (get_apply ch),
      if_neg (by simp [h])]
    rfl
  exact steps_of_op (.sendCancelProposal gameId) (after_of_ok hcancel)

theorem each_steps {α : Type} {x : α → Act Error ChannelState Unit} (op : α → GameOp)
    (hop : ∀ a ch, (x a).after ch = GameOp.step E ch (op a)) {as : List α} {units : List Unit}
    (h : each (fun a => do
      x a
      pure ([] : List Unit)) as ch = .ok units ch') : GameOp.Steps E ch ch' := by
  have hmoves : Moves (GameOp.Steps E) (each (fun a => do
      x a
      pure ([] : List Unit)) as) :=
    moves_each (fun a => Moves.bind (fun ch => hop a ch ▸ GameOp.Steps.single ch (op a))
      fun _ => moves_pure _) as
  exact after_of_ok h ▸ hmoves ch

theorem Drained.steps {action : GameAction} {out : Option BatchAction}
    (h : Drained E ch action out ch') : GameOp.Steps E ch ch' := by
  cases h with
  | deferred _ hplay => exact refl ch
  | rejected gameId readableMove newEntropy => exact refl ch
  | move gameId readableMove newEntropy h =>
    exact steps_of_op (.sendMoveNoFinalize gameId readableMove newEntropy) (after_of_ok h)
  | cheat gameId moverShare entropy hcheat h =>
    exact IsTrans.trans _ _ _ (steps_of_op (.enableCheatingForGame gameId [0x80] moverShare)
      (after_of_ok hcheat)) (steps_of_op (.sendMoveNoFinalize gameId .nil entropy) (after_of_ok h))
  | settle gameId h => exact steps_of_op (.sendAcceptSettlementNoFinalize gameId) (after_of_ok h)
  | propose myGames theirWire h =>
    exact each_steps (fun game => .sendProposeGame game theirWire.groupId) (fun _ _ => rfl) h
  | accept gameId proposal hfind hparity hmine htheirs h =>
    exact steps_of_op (.sendAcceptProposal gameId) (after_of_ok h)
  | short gameId proposal hfind hparity hshort =>
    exact steps_withoutProposal (by simp [ChannelState.isGameProposed, hfind])
  | cancel _ gameId haction h => exact steps_withoutProposal h
  | shutdown => exact steps_of_op .cancelAllProposals rfl

theorem Failed.steps {action : GameAction} (h : Failed ch action ch') : GameOp.Steps E ch ch' := by
  cases h with
  | same => exact refl ch
  | settle gameId => exact steps_of_op (.sendAcceptSettlementNoFinalize gameId) rfl
  | cheat gameId moverShare entropy =>
    exact steps_of_op (.enableCheatingForGame gameId [0x80] moverShare) rfl
  | shutdown => exact steps_of_op .cancelAllProposals rfl

theorem Applied.steps {action : BatchAction} (h : Applied E gameTypes ch action ch') :
    GameOp.Steps E ch ch' := by
  cases h with
  | declined wire h => exact refl ch
  | proposed wire games hgames h =>
    exact each_steps (fun game => .applyReceivedProposal game wire.groupId) (fun _ _ => rfl) h
  | accepted gameId proposal hfind hparity hmine htheirs =>
    have haccept : ChannelState.applyReceivedAcceptProposal gameId ch =
        .ok () (ch.accepted proposal) := by
      rw [ChannelState.applyReceivedAcceptProposal, bind_of_ok (get_apply ch), if_neg (by simp [hparity]),
        ChannelState.acceptProposalInner, bind_of_ok (get_apply ch), hfind]
      dsimp only
      rw [if_neg (by simp [hmine, htheirs]), ChannelState.accepted, GameOp.findProposal_gameId hfind]
      rfl
    exact steps_of_op (.applyReceivedAcceptProposal gameId) (after_of_ok haccept)
  | cancelled gameId h => exact steps_withoutProposal h
  | move gameId gameMove h =>
    exact steps_of_op (.applyReceivedMove gameId gameMove) (after_of_ok h)
  | settled gameId amount h =>
    exact steps_of_op (.applyReceivedAcceptSettlement gameId) (after_of_ok h)

theorem DrainRun.steps {queue : List GameAction} {outs : List BatchAction}
    (h : DrainRun E ch queue outs ch') : GameOp.Steps E ch ch' := by
  induction h with
  | nil ch => exact refl ch
  | cons hdrained _ ih => exact IsTrans.trans _ _ _ hdrained.steps ih

theorem ApplyRun.steps {queue queue' : List GameAction} {actions : List BatchAction}
    (h : ApplyRun E gameTypes ch queue actions ch' queue') : GameOp.Steps E ch ch' := by
  induction h with
  | nil ch queue => exact refl ch
  | cons happlied _ _ ih => exact IsTrans.trans _ _ _ happlied.steps ih

section Preserves

variable {I : ChannelState → Prop} (hop : ∀ ch op, I ch → I (GameOp.step E ch op))
  (hsent : ∀ ch, I ch → I (ch.sent E))
  (hreceived : ∀ ch signatures, I ch → I (ch.received E signatures))

include hop hsent hreceived

/-- What the operations, the sending and the receipt preserve, a turn preserves. -/
theorem Turn.preserves {t t' : Desk} {events : List Event} (h : Turn E gameTypes t events t')
    (ht : I t.channel) : I t'.channel := by
  have hsteps : ∀ {ch ch' : ChannelState}, GameOp.Steps E ch ch' → I ch → I ch' :=
    fun hsteps hch => hsteps.preserves hop hch
  cases h with
  | push action hplain => exact ht
  | strip => exact ht
  | answer gameId ids action h haction => exact ht
  | allocate => exact hop _ .allocateMyNonce ht
  | propose start games hgames h =>
    clear hgames h
    induction games with
    | nil => exact ht
    | cons game games ih =>
      have hnext := hop _ .allocateMyNonce ih
      exact hnext
  | idle ch' deferred hpotato hrun hshutdown hdeferred => exact hsteps hrun.steps ht
  | send outs ch' deferred shutdown hpotato hrun hshutdown hdeferred => exact hsent ch' (hsteps hrun.steps ht)
  | fail done action rest outs ch₁ ch' hpotato hqueue hrun hfailed =>
    exact hsteps hfailed.steps (hsteps hrun.steps ht)
  | pass hpotato => exact hsent _ ht
  | receive b ch₁ queue₁ hpotato hlast haccept hcancel hrun hverifies =>
    exact hop _ .drainCachedAcceptSettlements (hreceived ch₁ b.signatures (hsteps hrun.steps ht))

theorem Turns.preserves {t t' : Desk} {events : List Event} (h : Turns E gameTypes t events t')
    (ht : I t.channel) : I t'.channel := by
  induction h with
  | refl => exact ht
  | step _ hturn ih => exact hturn.preserves hop hsent hreceived ih

end Preserves

end OffChainPhase

/-! No two coins of a payout are the same. -/

/-- The coins of a game between two players. -/
def IsBetween (a b : PublicKey) (args : RefereePuzzleArgs) : Prop :=
  args.moverPubkey = a ∧ args.waiterPubkey = b ∨ args.moverPubkey = b ∧ args.waiterPubkey = a

namespace ChannelState

/-- The players have puzzle hashes of their own, which are not those of a coin of their games. -/
structure Setup.Apart (E : ChannelEnv) (s : Setup) : Prop where
  rewards : s.rewardPuzzleHash ≠ s.theirRewardPuzzleHash
  games : ∀ args, IsBetween (publicKey s.privateKeys.myRefereePrivateKey) s.theirRefereePubkey args →
    curryRefereePuzzleHash E.toEnv E.refereeCoinPuzzleHash args ≠ s.rewardPuzzleHash ∧
      curryRefereePuzzleHash E.toEnv E.refereeCoinPuzzleHash args ≠ s.theirRewardPuzzleHash

/-- A list of conditions whose coins are all different. -/
def Includable (conditions : Clvm) : Prop :=
  ∃ coins, createdCoins conditions = .ok coins ∧ coins.Nodup

/-- Everything that a channel state and the games in it can pay out. -/
structure Spendable (E : ChannelEnv) (ch : ChannelState) : Prop where
  unroll : ∀ n, Includable (ch.conditionsAt n) ∧ Includable (ch.timeoutConditionsAt n)
  shutdown : Includable ch.getConditionsWithChannelState
  games : ∀ g ∈ ch.liveGames,
    Referee.Reach E.toEnv (ch.refereeParties E g.gameId) g.refereeMaker
  timeouts : ∀ nonce r, Referee.Reach E.toEnv (ch.refereeParties E nonce) r → ∀ coin spend,
    r.getTransactionForTimeout E.toEnv coin = .ok (some spend) →
      ∃ conditions, refereePuzzle E.sha256 E.run (spend.puzzle.coin E.toEnv) spend.solution =
        some conditions ∧ Includable conditions

variable {E : ChannelEnv} {ch : ChannelState}

/-- The players of a channel state are those of the opening. -/
def Between (E : ChannelEnv) (o : Opening E) (ch : ChannelState) : Prop :=
  ch.Seated E ∧ ∀ nonce, ch.refereeParties E nonce = o.channel.refereeParties E nonce

theorem Between.turns {o : Opening E} {gameTypes : List (Bytes × Option Clvm)}
    {t : OffChainPhase.Desk} {events : List OffChainPhase.Event}
    (h : OffChainPhase.Turns E gameTypes (OffChainPhase.Desk.opening o) events t) : t.channel.Between E o := by
  refine h.preserves (I := Between E o) (fun ch op hch => ?_) (fun ch hch => ?_)
    (fun ch signatures hch => ?_) ?_
  · exact ⟨hch.1.step op, fun nonce =>
      (refereeParties_of_core (GameOp.core_step ch op) nonce).trans (hch.2 nonce)⟩
  · exact ⟨hch.1.sent, hch.2⟩
  · exact ⟨hch.1.received signatures, hch.2⟩
  · exact ⟨⟨fun g hg => (by cases hg), fun p hp => (by cases hp)⟩, fun _ => rfl⟩

/-- The coin of a game tells which game it is. -/
theorem nonce_of_puzzleHash (hh : CollisionFree E.sha256) {args args' : RefereePuzzleArgs}
    (h : curryRefereePuzzleHash E.toEnv E.refereeCoinPuzzleHash args =
      curryRefereePuzzleHash E.toEnv E.refereeCoinPuzzleHash args') : args.nonce = args'.nonce := by
  obtain ⟨-, hargs⟩ := curryHashes_injective hh h
  have htree := hh.shatree_injective (List.cons.inj hargs).1
  simp only [RefereeArgs.toClvm, Clvm.list, Clvm.pair.injEq, Clvm.atom.injEq] at htree
  exact bytesOfNat_injective htree.2.2.2.2.2.1

theorem Between.rewards {o : Opening E} (h : ch.Between E o) :
    ch.rewardPuzzleHash = o.setup.rewardPuzzleHash ∧
      ch.theirRewardPuzzleHash = o.setup.theirRewardPuzzleHash :=
  ⟨(congrArg RefereeParties.rewardPuzzleHash (h.2 0) :),
    (congrArg RefereeParties.theirRewardPuzzleHash (h.2 0) :)⟩

/-- The coin of a live game is one of a game between the players, under the number of the game. -/
theorem Between.puzzleHash {o : Opening E} (h : ch.Between E o) (hapart : o.setup.Apart E)
    {g : LiveGame} (hg : g ∈ ch.liveGames) :
    g.lastRefereePuzzleHash ≠ ch.rewardPuzzleHash ∧
      g.lastRefereePuzzleHash ≠ ch.theirRewardPuzzleHash ∧ ∃ args : RefereePuzzleArgs,
        args.nonce = g.gameId ∧
          g.lastRefereePuzzleHash = curryRefereePuzzleHash E.toEnv E.refereeCoinPuzzleHash args := by
  obtain ⟨hreferee, hcoin⟩ := h.1.live g hg
  have hparties := h.2 g.gameId
  have hseated := hreferee.seated
  obtain ⟨start, hfixed⟩ := hseated.fixed
  have hspends := hseated.spends
  rw [Referee.outcomeRefereePuzzleHash, hfixed] at hcoin
  rw [hfixed] at hspends
  obtain ⟨hours, htheirs⟩ := h.rewards
  have hbetween : IsBetween (publicKey o.setup.privateKeys.myRefereePrivateKey)
      o.setup.theirRefereePubkey g.refereeMaker.spendThisCoin := by
    have hkeys := hspends.keys
    rw [hparties] at hkeys
    exact hkeys
  obtain ⟨hne, hne'⟩ := hapart.games _ hbetween
  rw [hours, htheirs]
  refine ⟨?_, ?_, _, hspends.nonce, hcoin⟩
  · rw [hcoin]
    exact hne
  · rw [hcoin]
    exact hne'

theorem Between.rewards_ne {o : Opening E} (h : ch.Between E o) (hapart : o.setup.Apart E) :
    ch.rewardPuzzleHash ≠ ch.theirRewardPuzzleHash := by
  obtain ⟨hours, htheirs⟩ := h.rewards
  rw [hours, htheirs]
  exact hapart.rewards

theorem Between.payouts_nodup (hh : CollisionFree E.sha256) {o : Opening E}
    (hapart : o.setup.Apart E) (h : ch.Between E o)
    (hids : (ch.liveGames.map LiveGame.gameId).Nodup) : ch.payouts.Nodup := by
  have hrewards := h.rewards_ne hapart
  -- the games have different coins because they have different numbers
  have hgames : (ch.liveGames.map LiveGame.lastRefereePuzzleHash).Nodup := by
    refine List.Nodup.map_on ?_ hids.of_map
    intro g hg g' hg' heq
    obtain ⟨-, -, args, hnonce, hcoin⟩ := h.puzzleHash hapart hg
    obtain ⟨-, -, args', hnonce', hcoin'⟩ := h.puzzleHash hapart hg'
    have hsame := nonce_of_puzzleHash hh (hcoin.symm.trans (heq.trans hcoin'))
    exact List.inj_on_of_nodup_map hids hg hg' (hnonce.symm.trans (hsame.trans hnonce'))
  have hfst : (computeUnrollDataForGames ch.liveGames).map Prod.fst =
      ch.liveGames.map LiveGame.lastRefereePuzzleHash := by
    rw [computeUnrollDataForGames, List.map_map]
    rfl
  refine List.Nodup.of_map Prod.fst ?_
  rw [payouts, List.map_append, hfst]
  have hnotin : ∀ ph ∈ ch.liveGames.map LiveGame.lastRefereePuzzleHash,
      ph ≠ ch.rewardPuzzleHash ∧ ph ≠ ch.theirRewardPuzzleHash := by
    intro ph hph
    obtain ⟨g, hg, rfl⟩ := List.mem_map.mp hph
    obtain ⟨hne, hne', -⟩ := h.puzzleHash hapart hg
    exact ⟨hne, hne'⟩
  have hhead : ∀ a b : Hash, a ≠ b →
      (∀ ph ∈ ch.liveGames.map LiveGame.lastRefereePuzzleHash, ph ≠ a ∧ ph ≠ b) →
      ([a, b] ++ ch.liveGames.map LiveGame.lastRefereePuzzleHash).Nodup := by
    intro a b hne hall
    refine List.nodup_append.mpr ⟨by simp [hne], hgames, ?_⟩
    intro ph hph ph' hph' heq
    obtain ⟨hne, hne'⟩ := hall ph' hph'
    simp only [List.mem_cons, List.not_mem_nil, or_false] at hph
    rcases hph with rfl | rfl
    · exact hne heq.symm
    · exact hne' heq.symm
  split
  · exact hhead _ _ hrewards hnotin
  · exact hhead _ _ hrewards.symm fun ph hph => (hnotin ph hph).symm

theorem shutdownPayouts_nodup (h : ch.rewardPuzzleHash ≠ ch.theirRewardPuzzleHash) :
    ch.shutdownPayouts.Nodup := by
  rw [shutdownPayouts]
  split
  · split <;> simp [h]
  · split <;> simp

theorem Between.spendable (hh : CollisionFree E.sha256) {o : Opening E} (hapart : o.setup.Apart E)
    (h : ch.Between E o) (hids : (ch.liveGames.map LiveGame.gameId).Nodup) : ch.Spendable E := by
  have hrewards := h.rewards_ne hapart
  have hpayouts := h.payouts_nodup hh hapart hids
  refine ⟨fun n => ?_, ?_, fun g hg => (h.1.live g hg).referee, ?_⟩
  · exact ⟨⟨_, ch.createdCoins_conditionsAt n, hpayouts⟩,
      ⟨_, ch.createdCoins_timeoutConditionsAt n, hpayouts⟩⟩
  · exact ⟨_, ch.createdCoins_getConditionsWithChannelState, shutdownPayouts_nodup hrewards⟩
  · intro nonce r hr coin spend hspend
    obtain ⟨conditions, coins, hconditions, hcoins, hnodup⟩ :=
      timeout_coins_nodup (p := ch.refereeParties E nonce) hrewards hr hspend
    exact ⟨conditions, hconditions, coins, hcoins, hnodup⟩

end ChannelState

namespace OffChainPhase

/-- The channel states that a player comes through: those that a dispute can be fought with, and
those within the handling of a message. -/
inductive Visited (E : ChannelEnv) (o : Opening E) : ChannelState → Prop where
  | disputed {ch : ChannelState} (h : Disputed E o ch) : Visited E o ch
  | turned {gameTypes : List (Bytes × Option Clvm)} {t : Desk} {events : List Event}
      (h : Turns E gameTypes (Desk.opening o) events t) : Visited E o t.channel

variable {E : ChannelEnv} {o : Opening E} {ch : ChannelState}

theorem Turns.between {gameTypes : List (Bytes × Option Clvm)} {t : Desk} {events : List Event}
    (h : Turns E gameTypes (Desk.opening o) events t) :
    t.channel.Between E o ∧ (t.channel.liveGames.map LiveGame.gameId).Nodup := by
  refine ⟨ChannelState.Between.turns h, ?_⟩
  have hnodup := (h.book.fresh (fresh_opening o)).nodup
  have hheld : t.channel.heldIds.Nodup := (List.nodup_append.mp hnodup).1
  exact (List.nodup_append.mp (List.nodup_append.mp hheld).1).2.1

theorem Disputed.between (h : Disputed E o ch) :
    ch.Between E o ∧ (ch.liveGames.map LiveGame.gameId).Nodup := by
  have hrunning : ∀ {p : OffChainPhase} {ch : ChannelState}, Reach E o p →
      p.channelState = some ch → ch.Between E o ∧ (ch.liveGames.map LiveGame.gameId).Nodup := by
    intro p ch hreach hch
    obtain ⟨t, events, ht, hturns⟩ := hreach.turns
    obtain rfl : t.channel = ch := Option.some.inj (ht.channel.symm.trans hch)
    exact hturns.between
  induction h with
  | running hreach hch => exact hrunning hreach hch
  | refused hreach msg herror hch => exact hrunning hreach (processMessage_error herror ▸ hch)
  | @onChain ch _ ih =>
    refine ⟨⟨ih.1.1.step .cancelAllProposals, fun nonce => ?_⟩, ih.2⟩
    exact (ChannelState.refereeParties_of_core
      (GameOp.core_step (E := E) ch .cancelAllProposals) nonce).trans (ih.1.2 nonce)

/-- In every run after such a setup, the peer can refuse to play, but not keep a payout out of a
block. -/
theorem payouts_includable (hh : CollisionFree E.sha256) (hapart : o.setup.Apart E)
    (h : Visited E o ch) : ch.Spendable E := by
  cases h with
  | disputed h => exact h.between.1.spendable hh hapart h.between.2
  | turned h => exact h.between.1.spendable hh hapart h.between.2

end OffChainPhase

/-- The reward puzzle hashes of one byte are not hashes of anything. -/
theorem Steady.apart : (Steady.opening true).setup.Apart Steady.channelEnv := by
  refine ⟨by decide, fun args _ => ?_⟩
  have hlong : 1 < (curryRefereePuzzleHash channelEnv.toEnv channelEnv.refereeCoinPuzzleHash args).length := by
    rw [curryRefereePuzzleHash, curryHashes, treeHashOfApply]
    simp only [channelEnv, env, frame, List.length_append, List.length_cons]
    omega
  have hshort : ∀ b : UInt8,
      curryRefereePuzzleHash channelEnv.toEnv channelEnv.refereeCoinPuzzleHash args ≠ [b] := by
    intro b heq
    rw [heq] at hlong
    exact absurd hlong (by simp)
  exact ⟨hshort 3, hshort 2⟩

theorem payouts_includable_start : (Steady.opening true).channel.Spendable Steady.channelEnv :=
  OffChainPhase.payouts_includable frame_collisionFree Steady.apart
    (.disputed (.running (.start [] []) rfl))

namespace Steady

/-- A peer that takes our puzzle hash for its own. -/
def greedySetup : ChannelState.Setup :=
  { setup with
    weStartWithPotato := false
    theirRewardPuzzleHash := [3]
    theirRewardPayoutSignature := sign 2 (rewardPayoutMessage [3]) }

def greedyOpening : Opening channelEnv where
  initiator := true
  setup := greedySetup
  signatures := (ChannelState.opened channelEnv greedySetup).peerSignaturesAt channelEnv 21 22 0
  startPotato := rfl
  valid := ⟨by simp [greedySetup, setup, publicKey], by simp [greedySetup, setup, publicKey],
    by simp [greedySetup, setup]⟩
  channelKey := setup_channelKey
  unrollKey := setup_unrollKey
  verified := (ChannelState.verifies_iff _ _ rfl rfl).mpr rfl

end Steady

/-- Both balances are at ten and go to the same puzzle hash. -/
theorem same_reward_not_includable :
    OffChainPhase.Visited Steady.channelEnv Steady.greedyOpening Steady.greedyOpening.channel ∧
      ¬ Steady.greedyOpening.channel.Spendable Steady.channelEnv := by
  refine ⟨.disputed (.running (.start [] []) rfl), fun h => ?_⟩
  obtain ⟨⟨coins, hcoins, hnodup⟩, -⟩ := h.unroll 0
  rw [ChannelState.createdCoins_conditionsAt] at hcoins
  cases hcoins
  revert hnodup
  decide

end ChiaGaming
