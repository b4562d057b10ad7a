import ChiaGaming.Channel.Funds
import ChiaGaming.Lib.Naming
import ChiaGaming.Session.Turns

namespace ChiaGaming

/-! The identifiers of games. -/

/-- The games that a channel state knows, by their identifiers. -/
def ChannelState.heldIds (ch : ChannelState) : List GameID :=
  ch.proposedGames.map ProposedGame.gameId ++ ch.liveGames.map LiveGame.gameId ++
    ch.pendingSettlements.map LiveGame.gameId

/-- The games that an action has yet to propose. -/
def GameAction.proposes : GameAction → List GameID
  | .queuedProposalGroup myGames _ => myGames.map GameStartInfo.gameId
  | _ => []

def queuedIds (queue : List GameAction) : List GameID := queue.flatMap GameAction.proposes

@[simp] theorem queuedIds_append (xs ys : List GameAction) :
    queuedIds (xs ++ ys) = queuedIds xs ++ queuedIds ys := List.flatMap_append ..

def ChannelState.book (ch : ChannelState) (queue : List GameAction) : Naming.Book :=
  ⟨ch.myNextNonce, ch.theirNextNonce, ch.heldIds, queuedIds queue⟩

theorem map_gameId_putGame (moved : LiveGame) (games : List LiveGame) :
    (putGame moved games).map LiveGame.gameId = games.map LiveGame.gameId := by
  induction games with
  | nil => rfl
  | cons g games ih =>
    rw [putGame]
    split_ifs with hid
    · rw [List.map_cons, List.map_cons, hid]
    · rw [List.map_cons, List.map_cons, ih]

namespace GameOp

open Naming

variable {E : ChannelEnv} {ch ch' : ChannelState}

/-- Games that change their place or go. -/
theorem book_drop (queue : List GameAction) (hmine : ch'.myNextNonce = ch.myNextNonce)
    (htheirs : ch'.theirNextNonce = ch.theirNextNonce)
    (hheld : ch'.heldIds.Subperm ch.heldIds) :
    Naming.Steps (ch.book queue) (ch'.book queue) := by
  have hstep := Step.drop (b := ch.book queue) ch'.heldIds (queuedIds queue)
    ((List.subperm_append_right (queuedIds queue)).mpr hheld) (List.Sublist.refl _)
  have hbook : ch'.book queue = { ch.book queue with
      held := ch'.heldIds
      queued := queuedIds queue } := by
    rw [ChannelState.book, hmine, htheirs]
    rfl
  rw [hbook]
  exact hstep.steps

theorem subperm_of_count {l l' : List GameID} (h : ∀ n, l.count n ≤ l'.count n) : l.Subperm l' :=
  List.subperm_ext_iff.mpr fun n _ => h n

/-- A game that is taken out of a list, by its identifier. -/
theorem count_eraseP {α : Type} {f : α → GameID} {l : List α} {a : α} {p : α → Bool}
    (h : l.find? p = some a) (n : GameID) :
    (l.map f).count n = ((l.eraseP p).map f).count n + if f a = n then 1 else 0 := by
  have hperm := (perm_cons_eraseP h).map f
  rw [hperm.count_eq, List.map_cons, List.count_cons]
  simp only [beq_iff_eq]

/-- Only a proposal of our own brings identifiers in that the channel state cannot vouch for. -/
theorem book_step (op : GameOp) (hop : ∀ startInfo groupId, op ≠ .sendProposeGame startInfo groupId)
    (queue : List GameAction) :
    Naming.Steps (ch.book queue) ((step E ch op).book queue) := by
  have hbooked := booked_step (E := E) ch op
  generalize step E ch op = ch' at hbooked
  cases hbooked with
  | same _ cached => exact .refl
  | proposed startInfo groupId proposal hnew => exact absurd rfl (hop startInfo groupId)
  | received startInfo groupId proposal hcheck hnew =>
    obtain ⟨hparity, hle, -⟩ := ChannelState.checkReceivedProposal_eq_ok_iff.mp hcheck
    obtain ⟨hid, -⟩ := ChannelState.newProposedGame_eq_ok hnew
    refine (Step.receive (b := ch.book queue) startInfo.gameId _ hparity hle ?_).steps
    rw [ChannelState.book, ChannelState.heldIds]
    simp only [List.map_append, List.map_cons, List.map_nil, hid]
    refine List.perm_iff_count.mpr fun n => ?_
    simp only [ChannelState.heldIds, List.count_append]
    omega
  | accepted _ gameId proposal cached _ hfind =>
    refine book_drop queue rfl rfl (subperm_of_count fun n => ?_)
    obtain rfl := findProposal_gameId hfind
    have hcount := count_eraseP (f := ProposedGame.gameId) hfind n
    simp only [ChannelState.heldIds, ChannelState.accepted, ChannelState.withoutProposal,
      List.map_append, List.map_cons, List.map_nil, List.count_append, List.count_singleton,
      ChannelState.ofProposal, beq_iff_eq]
    omega
  | removed _ gameId =>
    refine book_drop queue rfl rfl ?_
    refine List.Sublist.subperm ?_
    exact ((((List.eraseP_sublist).map _).append_right _).append_right _)
  | cancelled =>
    refine book_drop queue rfl rfl (List.Sublist.subperm ?_)
    exact (((List.nil_sublist _).append_right _).append_right _)
  | allocated => exact Step.allocate.steps
  | moved gameId readableMove newEntropy game moved wire cached hgame hmove =>
    refine book_drop queue rfl rfl ?_
    rw [ChannelState.heldIds, map_gameId_putGame]
    exact (List.Perm.refl _).subperm
  | theirMove gameId gameMove game moved result hgame hshare hmove =>
    refine book_drop queue rfl rfl ?_
    rw [ChannelState.heldIds, map_gameId_putGame]
    exact (List.Perm.refl _).subperm
  | cheated gameId makeMove moverShare game hgame =>
    refine book_drop queue rfl rfl ?_
    rw [ChannelState.heldIds, map_gameId_putGame]
    exact (List.Perm.refl _).subperm
  | settled _ gameId game forMe cached _ hgame =>
    refine book_drop queue rfl rfl (subperm_of_count fun n => ?_)
    obtain rfl := findLiveGame_gameId hgame
    have hcount := count_eraseP (f := LiveGame.gameId) hgame n
    simp only [ChannelState.heldIds, ChannelState.settled, ChannelState.withoutGame,
      List.map_append, List.map_cons, List.map_nil, List.count_append, List.count_singleton,
      beq_iff_eq]
    omega
  | broken _ gameId game _ hgame _ liveGames pendingSettlements _ _ _ hlive hpending =>
    refine book_drop queue rfl rfl (subperm_of_count fun n => ?_)
    obtain rfl := findLiveGame_gameId hgame
    have hcount := count_eraseP (f := LiveGame.gameId) hgame n
    simp only [ChannelState.heldIds, List.count_append]
    rcases hpending with rfl | ⟨rfl, rfl⟩
    · rcases hlive with rfl | rfl
      · omega
      · simp only [ChannelState.withoutGame]
        omega
    · simp only [ChannelState.withoutGame, List.map_append, List.map_cons, List.map_nil,
        List.count_append, List.count_singleton, beq_iff_eq]
      omega

end GameOp

namespace OffChainPhase

open Act Naming

variable {E : ChannelEnv} {ch ch' : ChannelState} {gameTypes : List (Bytes × Option Clvm)}

theorem queuedIds_cons_of_nil {action : GameAction} (h : action.proposes = [])
    (rest : List GameAction) : queuedIds (action :: rest) = queuedIds rest := by
  rw [queuedIds, List.flatMap_cons, h]
  rfl

theorem queuedIds_eq_nil {queue : List GameAction} (h : ∀ a ∈ queue, a.proposes = []) :
    queuedIds queue = [] := List.flatMap_eq_nil_iff.mpr h

theorem book_of_nil (ch : ChannelState) {queue : List GameAction}
    (h : ∀ a ∈ queue, a.proposes = []) : ch.book queue = ch.book [] := by
  rw [ChannelState.book, queuedIds_eq_nil h]
  rfl

theorem proposes_of_isPlay {action : GameAction} (h : action.isPlay = true) :
    action.proposes = [] := by
  cases action <;> first | rfl | cases h

/-- The games of a group that we propose, in order. -/
theorem each_sendProposeGame_eq_ok {games : List GameStartInfo} {groupId : GameID}
    {units : List Unit}
    (h : each (fun game => do
      ChannelState.sendProposeGame E game groupId
      pure ([] : List Unit)) games ch = .ok units ch') :
    ∃ proposals, ch' = { ch with proposedGames := ch.proposedGames ++ proposals } ∧
      List.Forall₂ (fun game proposal => ch.newProposedGame E game groupId = .ok proposal)
        games proposals := by
  induction games generalizing ch units with
  | nil =>
    cases h
    exact ⟨[], by simp, .nil⟩
  | cons game games ih =>
    obtain ⟨us, ch₁, hfirst, h₁⟩ := Act.bind_eq_ok.mp h
    obtain ⟨us', ch₂, hrest, h₂⟩ := Act.bind_eq_ok.mp h₁
    cases h₂
    obtain ⟨u, ch₃, hsend, hpure⟩ := Act.bind_eq_ok.mp hfirst
    cases hpure
    rw [ChannelState.sendProposeGame, bind_of_ok (get_apply ch)] at hsend
    obtain ⟨proposal, ch₄, hlift, hmodify⟩ := Act.bind_eq_ok.mp hsend
    obtain ⟨hnew, rfl⟩ := lift_eq_ok.mp hlift
    cases hmodify
    obtain ⟨proposals, rfl, hall⟩ := ih hrest
    exact ⟨proposal :: proposals, by simp, .cons hnew hall⟩

theorem gameIds_of_newProposedGame {games : List GameStartInfo} {groupId : GameID}
    {proposals : List ProposedGame}
    (h : List.Forall₂ (fun game proposal => ch.newProposedGame E game groupId = .ok proposal)
      games proposals) :
    proposals.map ProposedGame.gameId = games.map GameStartInfo.gameId := by
  induction h with
  | nil => rfl
  | cons hnew _ ih =>
    rw [List.map_cons, List.map_cons, ih, (ChannelState.newProposedGame_eq_ok hnew).1]

theorem book_of_op (E : ChannelEnv) (op : GameOp)
    (hop : ∀ startInfo groupId, op ≠ .sendProposeGame startInfo groupId)
    (h : GameOp.step E ch op = ch') (queue : List GameAction) :
    Naming.Steps (ch.book queue) (ch'.book queue) := h ▸ GameOp.book_step op hop queue

/-- A proposal leaves the queue and takes its games with it. -/
theorem Drained.book {action : GameAction} {out : Option BatchAction}
    (h : Drained E ch action out ch') (rest : List GameAction) :
    Naming.Steps (ch.book (action :: rest)) (ch'.book rest) := by
  have hskip : action.proposes = [] → ch.book (action :: rest) = ch.book rest := by
    intro hnil
    rw [ChannelState.book, queuedIds_cons_of_nil hnil]
    rfl
  cases h with
  | deferred _ hplay =>
    rw [hskip (proposes_of_isPlay hplay)]
    exact .refl
  | rejected gameId readableMove newEntropy => exact .refl
  | move gameId readableMove newEntropy h =>
    exact book_of_op E (.sendMoveNoFinalize gameId readableMove newEntropy)
      (fun _ _ heq => by cases heq) (after_of_ok h) rest
  | cheat gameId moverShare entropy hcheat h =>
    exact (book_of_op E (.enableCheatingForGame gameId [0x80] moverShare)
      (fun _ _ heq => by cases heq) (after_of_ok hcheat) rest).trans
        (book_of_op E (.sendMoveNoFinalize gameId .nil entropy) (fun _ _ heq => by cases heq)
          (after_of_ok h) rest)
  | settle gameId h =>
    exact book_of_op E (.sendAcceptSettlementNoFinalize gameId) (fun _ _ heq => by cases heq)
      (after_of_ok h) rest
  | propose myGames theirWire h =>
    obtain ⟨proposals, rfl, hall⟩ := each_sendProposeGame_eq_ok h
    have hids := gameIds_of_newProposedGame hall
    have hqueued : queuedIds (.queuedProposalGroup myGames theirWire :: rest) =
        proposals.map ProposedGame.gameId ++ queuedIds rest := by
      rw [hids]
      rfl
    have hperm : (ChannelState.heldIds { ch with proposedGames := ch.proposedGames ++ proposals } ++
        queuedIds rest).Perm (ch.heldIds ++
          queuedIds (.queuedProposalGroup myGames theirWire :: rest)) := by
      refine List.perm_iff_count.mpr fun n => ?_
      rw [hqueued]
      simp only [ChannelState.heldIds, List.map_append, List.count_append]
      omega
    refine (Step.drop (b := ch.book (.queuedProposalGroup myGames theirWire :: rest)) _ _
      hperm.subperm ?_).steps
    exact List.sublist_append_right _ _
  | accept gameId proposal hfind hparity hmine htheirs h =>
    exact book_of_op E (.sendAcceptProposal gameId) (fun _ _ heq => by cases heq)
      (after_of_ok h) rest
  | short gameId proposal hfind hparity hshort =>
    have hproposed : ch.isGameProposed gameId = true := by simp [ChannelState.isGameProposed, hfind]
    have hcancel : ChannelState.sendCancelProposal gameId ch = .ok () (ch.withoutProposal gameId) := by
      rw [ChannelState.sendCancelProposal, ChannelState.removeProposal, bind_of_ok (get_apply ch),
        if_neg (by simp [hproposed])]
      rfl
    exact book_of_op E (.sendCancelProposal gameId) (fun _ _ heq => by cases heq)
      (after_of_ok hcancel) rest
  | cancel _ gameId haction h =>
    have hcancel : ChannelState.sendCancelProposal gameId ch = .ok () (ch.withoutProposal gameId) := by
      rw [ChannelState.sendCancelProposal, ChannelState.removeProposal, bind_of_ok (get_apply ch),
        if_neg (by simp [h])]
      rfl
    rw [hskip (by rcases haction with rfl | rfl <;> rfl)]
    exact book_of_op E (.sendCancelProposal gameId) (fun _ _ heq => by cases heq)
      (after_of_ok hcancel) rest
  | shutdown =>
    exact book_of_op E .cancelAllProposals (fun _ _ heq => by cases heq) rfl rest

theorem DrainRun.book {queue : List GameAction} {outs : List BatchAction}
    (h : DrainRun E ch queue outs ch') (rest : List GameAction) :
    Naming.Steps (ch.book (queue ++ rest)) (ch'.book rest) := by
  induction h with
  | nil ch => exact .refl
  | cons hdrained _ ih => exact (hdrained.book _).trans ih

theorem Failed.book (E : ChannelEnv) {action : GameAction} (h : Failed ch action ch')
    (rest : List GameAction) :
    Naming.Steps (ch.book (action :: rest)) (ch'.book rest) := by
  cases h with
  | same =>
    refine (Step.drop (b := ch.book (action :: rest)) ch.heldIds (queuedIds rest) ?_ ?_).steps
    · refine (List.Sublist.append (List.Sublist.refl _) ?_).subperm
      exact List.sublist_append_right _ _
    · exact List.sublist_append_right _ _
  | settle gameId =>
    exact GameOp.book_step (E := E) (.sendAcceptSettlementNoFinalize gameId)
      (fun _ _ heq => by cases heq) rest
  | cheat gameId moverShare entropy =>
    exact GameOp.book_step (E := E) (.enableCheatingForGame gameId [0x80] moverShare)
      (fun _ _ heq => by cases heq) rest
  | shutdown =>
    exact GameOp.book_step (E := E) .cancelAllProposals (fun _ _ heq => by cases heq) rest

/-- Every proposal of a received group is taken under its number. -/
theorem each_applyReceivedProposal_book {games : List GameStartInfo} {groupId : GameID}
    {units : List Unit} (queue : List GameAction)
    (h : each (fun game => do
      ChannelState.applyReceivedProposal E game groupId
      pure ([] : List Unit)) games ch = .ok units ch') :
    Naming.Steps (ch.book queue) (ch'.book queue) := by
  induction games generalizing ch units with
  | nil =>
    cases h
    exact .refl
  | cons game games ih =>
    obtain ⟨us, ch₁, hfirst, h₁⟩ := Act.bind_eq_ok.mp h
    obtain ⟨us', ch₂, hrest, h₂⟩ := Act.bind_eq_ok.mp h₁
    cases h₂
    obtain ⟨u, ch₃, happly, hpure⟩ := Act.bind_eq_ok.mp hfirst
    cases hpure
    exact (book_of_op E (.applyReceivedProposal game groupId) (fun _ _ heq => by cases heq)
      (after_of_ok happly) queue).trans (ih hrest)

theorem Applied.book {action : BatchAction} (h : Applied E gameTypes ch action ch')
    (queue : List GameAction) : Naming.Steps (ch.book queue) (ch'.book queue) := by
  cases h with
  | declined wire h => exact .refl
  | proposed wire games hgames h => exact each_applyReceivedProposal_book queue h
  | accepted gameId proposal hfind hparity hmine htheirs =>
    refine GameOp.book_drop queue rfl rfl (GameOp.subperm_of_count fun n => ?_)
    have hcount := GameOp.count_eraseP (f := ProposedGame.gameId) hfind n
    obtain rfl := GameOp.findProposal_gameId hfind
    simp only [ChannelState.heldIds, ChannelState.accepted, ChannelState.withoutProposal,
      List.map_append, List.map_cons, List.map_nil, List.count_append, List.count_singleton,
      ChannelState.ofProposal, beq_iff_eq]
    omega
  | cancelled gameId h =>
    refine GameOp.book_drop queue rfl rfl (List.Sublist.subperm ?_)
    exact ((((List.eraseP_sublist).map _).append_right _).append_right _)
  | move gameId gameMove h =>
    exact book_of_op E (.applyReceivedMove gameId gameMove) (fun _ _ heq => by cases heq)
      (after_of_ok h) queue
  | settled gameId amount h =>
    exact book_of_op E (.applyReceivedAcceptSettlement gameId)
      (fun _ _ heq => by cases heq) (after_of_ok h) queue

/-- The queue loses proposals at most. -/
theorem book_requeue {queue queue' : List GameAction}
    (h : (queuedIds queue').Sublist (queuedIds queue)) :
    Naming.Steps (ch.book queue) (ch.book queue') :=
  (Step.drop (b := ch.book queue) ch.heldIds (queuedIds queue')
    (List.Sublist.append (List.Sublist.refl _) h).subperm h).steps

theorem queuedIds_filter (p : GameAction → Bool) (queue : List GameAction) :
    (queuedIds (queue.filter p)).Sublist (queuedIds queue) := by
  induction queue with
  | nil => exact List.Sublist.refl _
  | cons action queue ih =>
    rw [List.filter_cons]
    split
    · exact (List.Sublist.refl _).append ih
    · exact ih.trans (List.sublist_append_right _ _)

theorem Requeued.sublist {queue queue' : List GameAction} {action : BatchAction}
    (h : Requeued queue action queue') : (queuedIds queue').Sublist (queuedIds queue) := by
  cases h with
  | superseded wire => exact queuedIds_filter _ _
  | finished gameId gameMove =>
    have hnil : queuedIds [.acceptSettlement gameId] = [] := rfl
    rw [queuedIds_append, hnil, List.append_nil]
  | same _ h => exact List.Sublist.refl _

theorem ApplyRun.book {queue queue' : List GameAction} {actions : List BatchAction}
    (h : ApplyRun E gameTypes ch queue actions ch' queue') :
    Naming.Steps (ch.book queue) (ch'.book queue') := by
  induction h with
  | nil ch queue => exact .refl
  | cons happlied hqueue _ ih =>
    exact (happlied.book _).trans ((book_requeue hqueue.sublist).trans ih)

theorem zip_ids (games : List FactoryGame) (start : GameProposal) (ids : List GameID)
    (h : ids.length = games.length) :
    ((games.zip ids).map fun pair => pair.1.gameStart pair.2 start.timeout true).map
      GameStartInfo.gameId = ids := by
  rw [List.map_map]
  have hsnd : (GameStartInfo.gameId ∘ fun pair : FactoryGame × GameID =>
      pair.1.gameStart pair.2 start.timeout true) = Prod.snd := rfl
  rw [hsnd, List.map_snd_zip (le_of_eq h)]

theorem proposes_proposalGroup (start : GameProposal) (games : List FactoryGame) (nonce : ℕ) :
    (proposalGroup start games nonce).proposes = nextNonces nonce games.length :=
  zip_ids games start _ (by simp [nextNonces])

def Desk.book (t : Desk) : Naming.Book := t.channel.book t.queue

/-- A turn gives and takes names as the two players agreed. -/
theorem Turn.book {t t' : Desk} {events : List Event} (h : Turn E gameTypes t events t') :
    Naming.Steps t.book t'.book := by
  cases h with
  | push action hplain =>
    refine book_requeue ?_
    have hnil : queuedIds [action] = [] := by cases action <;> first | rfl | cases hplain
    rw [queuedIds_append, hnil, List.append_nil]
  | strip => exact book_requeue (queuedIds_filter _ _)
  | answer gameId ids action h haction =>
    refine book_requeue ?_
    have hnil : queuedIds (ids.map action) = [] := by
      refine queuedIds_eq_nil fun a ha => ?_
      obtain ⟨id, -, rfl⟩ := List.mem_map.mp ha
      rcases haction with rfl | rfl | rfl <;> rfl
    rw [queuedIds_append, hnil, List.append_nil]
  | allocate => exact Step.allocate.steps
  | propose start games hgames h =>
    have hqueued : queuedIds (t.queue ++ [proposalGroup start games t.channel.myNextNonce]) =
        t.book.queued ++ t.book.next games.length := by
      rw [queuedIds_append]
      congr 1
      rw [queuedIds, List.flatMap_cons, proposes_proposalGroup, List.flatMap_nil, List.append_nil]
      rfl
    have hbook : Desk.book { t with
        channel := { t.channel with myNextNonce := t.channel.myNextNonce + 2 * games.length }
        queue := t.queue ++ [proposalGroup start games t.channel.myNextNonce] } =
        { t.book with
          mine := t.book.mine + 2 * games.length
          queued := t.book.queued ++ t.book.next games.length } :=
      congrArg (Naming.Book.mk _ _ _) hqueued
    rw [hbook]
    exact (Step.propose (b := t.book) games.length).steps
  | idle ch' deferred hpotato hrun hshutdown hdeferred =>
    have hsteps := hrun.book []
    rw [List.append_nil] at hsteps
    rw [Desk.book, Desk.book, book_of_nil ch' fun a ha => proposes_of_isPlay (hdeferred a ha)]
    exact hsteps
  | send outs ch' deferred shutdown hpotato hrun hshutdown hdeferred =>
    have hsteps := hrun.book []
    rw [List.append_nil] at hsteps
    rw [Desk.book, Desk.book,
      book_of_nil (ch'.sent E) fun a ha => proposes_of_isPlay (hdeferred a ha)]
    exact hsteps
  | fail done action rest outs ch₁ ch' hpotato hqueue hrun hfailed =>
    have hsteps := hrun.book (action :: rest)
    rw [← hqueue] at hsteps
    exact hsteps.trans (hfailed.book E rest)
  | pass hpotato => exact .refl
  | receive b ch₁ queue₁ hpotato hlast haccept hcancel hrun hverifies =>
    refine hrun.book.trans (GameOp.book_drop queue₁ rfl rfl ?_)
    exact ((List.Sublist.refl _).append (List.nil_sublist _)).subperm

theorem Turns.book {t t' : Desk} {events : List Event} (h : Turns E gameTypes t events t') :
    Naming.Steps t.book t'.book := by
  induction h with
  | refl => exact .refl
  | step _ hturn ih => exact ih.trans hturn.book

/-- The names at the end of the handshake: the player that is not the initiator counts from zero. -/
theorem fresh_opening (o : Opening E) : Naming.Fresh (o.channel.book []) := by
  have hids : (o.channel.book []).held ++ (o.channel.book []).queued = [] := rfl
  refine ⟨?_, by rw [hids]; exact List.nodup_nil, by simp [hids], fun n hn => (by cases hn), .nil⟩
  show (if o.setup.weStartWithPotato then 0 else 1) % 2 ≠
    (if o.setup.weStartWithPotato then 1 else 0) % 2
  split <;> simp

/-- In every run, the games have names of their own. -/
theorem Reach.fresh {o : Opening E} {p : OffChainPhase} (h : Reach E o p)
    (hch : p.channelState = some ch) : Naming.Fresh (ch.book p.gameActionQueue) := by
  obtain ⟨t, events, ht, hturns⟩ := h.turns
  obtain rfl : t.channel = ch := Option.some.inj (ht.channel.symm.trans hch)
  rw [ht.queue]
  exact hturns.book.fresh (fresh_opening o)

end OffChainPhase

end ChiaGaming
