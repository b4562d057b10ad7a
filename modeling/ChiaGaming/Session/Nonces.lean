import ChiaGaming.Session.Names
import ChiaGaming.Session.Table

namespace ChiaGaming

open OffChainPhase

/-! The numbers of games on their way from one player to the other. -/

/-- The games that an action of a batch proposes. -/
def BatchAction.proposes : BatchAction → List GameID
  | .proposeGroup wire => wire.members.map WireGameSpec.gameId
  | _ => []

def proposedIds (actions : List BatchAction) : List GameID := actions.flatMap BatchAction.proposes

@[simp] theorem proposedIds_append (xs ys : List BatchAction) :
    proposedIds (xs ++ ys) = proposedIds xs ++ proposedIds ys := List.flatMap_append ..

def flightIds (batches : List PeerBatch) : List GameID :=
  batches.flatMap fun b => proposedIds b.actions

@[simp] theorem flightIds_append (xs ys : List PeerBatch) :
    flightIds (xs ++ ys) = flightIds xs ++ flightIds ys := List.flatMap_append ..

namespace OffChainPhase

/-! What waits in a queue comes from our own factories. -/

def Fabricated (E : ChannelEnv) (gameTypes : List (Bytes × Option Clvm)) (action : GameAction) :
    Prop :=
  isProposalGroup action = true → ∃ start games nonce, games ≠ [] ∧
    FactoryAnswer E gameTypes start games ∧ action = proposalGroup start games nonce

variable {E : ChannelEnv} {gameTypes : List (Bytes × Option Clvm)} {ch ch' : ChannelState}

theorem fabricated_of_not {action : GameAction} (h : isProposalGroup action = false) :
    Fabricated E gameTypes action := fun hgroup => absurd hgroup (by simp [h])

theorem fabricated_of_isPlay {action : GameAction} (h : action.isPlay = true) :
    Fabricated E gameTypes action := by
  refine fabricated_of_not ?_
  cases action <;> first | rfl | cases h

theorem Requeued.fabricated {queue queue' : List GameAction} {action : BatchAction}
    (h : Requeued queue action queue') (hqueue : ∀ a ∈ queue, Fabricated E gameTypes a) :
    ∀ a ∈ queue', Fabricated E gameTypes a := by
  cases h with
  | superseded wire => exact fun a ha => hqueue a (List.mem_filter.mp ha).1
  | finished gameId gameMove =>
    intro a ha
    rcases List.mem_append.mp ha with ha | ha
    · exact hqueue a ha
    · rw [List.mem_singleton] at ha
      exact ha ▸ fabricated_of_not rfl
  | same _ h => exact hqueue

theorem ApplyRun.fabricated {gameTypes' : List (Bytes × Option Clvm)} {queue queue' : List GameAction}
    {actions : List BatchAction} (h : ApplyRun E gameTypes' ch queue actions ch' queue')
    (hqueue : ∀ a ∈ queue, Fabricated E gameTypes a) : ∀ a ∈ queue', Fabricated E gameTypes a := by
  induction h with
  | nil ch queue => exact hqueue
  | cons happlied hrequeued _ ih => exact ih (hrequeued.fabricated hqueue)

theorem Turn.fabricated {t t' : Desk} {events : List Event} (h : Turn E gameTypes t events t')
    (hqueue : ∀ a ∈ t.queue, Fabricated E gameTypes a) :
    ∀ a ∈ t'.queue, Fabricated E gameTypes a := by
  have happend : ∀ {more : List GameAction}, (∀ a ∈ more, Fabricated E gameTypes a) →
      ∀ a ∈ t.queue ++ more, Fabricated E gameTypes a := by
    intro more hmore a ha
    rcases List.mem_append.mp ha with ha | ha
    · exact hqueue a ha
    · exact hmore a ha
  cases h with
  | push action hplain =>
    refine happend fun a ha => ?_
    rw [List.mem_singleton] at ha
    subst ha
    refine fabricated_of_not ?_
    cases a <;> first | rfl | cases hplain
  | strip => exact fun a ha => hqueue a (List.mem_filter.mp ha).1
  | answer gameId ids action h haction =>
    refine happend fun a ha => ?_
    obtain ⟨id, -, rfl⟩ := List.mem_map.mp ha
    refine fabricated_of_not ?_
    rcases haction with rfl | rfl | rfl <;> rfl
  | allocate => exact hqueue
  | propose start games hgames h =>
    refine happend fun a ha => ?_
    rw [List.mem_singleton] at ha
    exact fun _ => ⟨start, games, _, hgames, h, ha⟩
  | idle ch' deferred hpotato hrun hshutdown hdeferred =>
    exact fun a ha => fabricated_of_isPlay (hdeferred a ha)
  | send outs ch' deferred shutdown hpotato hrun hshutdown hdeferred =>
    exact fun a ha => fabricated_of_isPlay (hdeferred a ha)
  | fail done action rest outs ch₁ ch' hpotato hsplit hrun hfailed =>
    intro a ha
    refine hqueue a ?_
    rw [hsplit]
    exact List.mem_append_right _ (List.mem_cons_of_mem _ ha)
  | pass hpotato => exact hqueue
  | receive b ch₁ queue₁ hpotato hlast haccept hcancel hrun hverifies => exact hrun.fabricated hqueue

/-- The games of a waiting proposal go out under their numbers. -/
theorem Fabricated.wire {myGames : List GameStartInfo} {theirWire : WireProposalGroup}
    (h : Fabricated E gameTypes (.queuedProposalGroup myGames theirWire)) :
    theirWire.members.map WireGameSpec.gameId = myGames.map GameStartInfo.gameId := by
  obtain ⟨start, games, nonce, -, -, heq⟩ := h rfl
  rw [proposalGroup] at heq
  cases heq
  rw [List.map_map, List.map_map]
  rfl

theorem DrainRun.proposedIds {queue : List GameAction} {outs : List BatchAction}
    (h : DrainRun E ch queue outs ch') (hqueue : ∀ a ∈ queue, Fabricated E gameTypes a) :
    proposedIds outs = queuedIds queue := by
  induction h with
  | nil ch => rfl
  | @cons ch ch₁ ch' action rest out outs hdrained _ ih =>
    have hrest := ih fun a ha => hqueue a (List.mem_cons_of_mem _ ha)
    have hfirst : ChiaGaming.proposedIds out.toList = action.proposes := by
      cases hdrained with
      | propose myGames theirWire h =>
        have hwire := (hqueue _ List.mem_cons_self).wire
        show theirWire.members.map WireGameSpec.gameId ++ [] = _
        rw [List.append_nil, hwire]
        rfl
      | deferred _ hplay => rw [proposes_of_isPlay hplay]; rfl
      | cancel _ gameId haction h => rcases haction with rfl | rfl <;> rfl
      | _ => rfl
    rw [proposedIds_append, hrest, hfirst]
    rfl

/-! Which turns count. -/

theorem nonces_of_op (E : ChannelEnv) (op : GameOp) (hop : op ≠ .allocateMyNonce)
    (hreceived : ∀ startInfo groupId, op ≠ .applyReceivedProposal startInfo groupId)
    (h : GameOp.step E ch op = ch') :
    ch'.myNextNonce = ch.myNextNonce ∧ ch'.theirNextNonce = ch.theirNextNonce := by
  have hbooked := GameOp.booked_step (E := E) ch op
  rw [h] at hbooked
  cases hbooked with
  | received startInfo groupId proposal hcheck hnew => exact absurd rfl (hreceived startInfo groupId)
  | allocated => exact absurd rfl hop
  | _ => exact ⟨rfl, rfl⟩

theorem Drained.nonces {action : GameAction} {out : Option BatchAction}
    (h : Drained E ch action out ch') :
    ch'.myNextNonce = ch.myNextNonce ∧ ch'.theirNextNonce = ch.theirNextNonce := by
  cases h with
  | move gameId readableMove newEntropy h =>
    exact nonces_of_op E (.sendMoveNoFinalize gameId readableMove newEntropy) (fun heq => by cases heq)
      (fun _ _ heq => by cases heq) (Act.after_of_ok h)
  | cheat gameId moverShare entropy hcheat h =>
    obtain ⟨hmine, htheirs⟩ := nonces_of_op E (.enableCheatingForGame gameId [0x80] moverShare)
      (fun heq => by cases heq) (fun _ _ heq => by cases heq) (Act.after_of_ok hcheat)
    obtain ⟨hmine', htheirs'⟩ := nonces_of_op E (.sendMoveNoFinalize gameId .nil entropy)
      (fun heq => by cases heq) (fun _ _ heq => by cases heq) (Act.after_of_ok h)
    exact ⟨hmine'.trans hmine, htheirs'.trans htheirs⟩
  | settle gameId h =>
    exact nonces_of_op E (.sendAcceptSettlementNoFinalize gameId) (fun heq => by cases heq)
      (fun _ _ heq => by cases heq) (Act.after_of_ok h)
  | propose myGames theirWire h =>
    obtain ⟨proposals, rfl, -⟩ := each_sendProposeGame_eq_ok h
    exact ⟨rfl, rfl⟩
  | accept gameId proposal hfind hparity hmine htheirs h =>
    exact nonces_of_op E (.sendAcceptProposal gameId) (fun heq => by cases heq)
      (fun _ _ heq => by cases heq) (Act.after_of_ok h)
  | _ => exact ⟨rfl, rfl⟩

theorem DrainRun.nonces {queue : List GameAction} {outs : List BatchAction}
    (h : DrainRun E ch queue outs ch') :
    ch'.myNextNonce = ch.myNextNonce ∧ ch'.theirNextNonce = ch.theirNextNonce := by
  induction h with
  | nil ch => exact ⟨rfl, rfl⟩
  | cons hdrained _ ih =>
    exact ⟨ih.1.trans hdrained.nonces.1, ih.2.trans hdrained.nonces.2⟩

theorem Failed.nonces (E : ChannelEnv) {action : GameAction} (h : Failed ch action ch') :
    ch'.myNextNonce = ch.myNextNonce ∧ ch'.theirNextNonce = ch.theirNextNonce := by
  cases h with
  | settle gameId =>
    exact nonces_of_op E (.sendAcceptSettlementNoFinalize gameId) (fun heq => by cases heq)
      (fun _ _ heq => by cases heq) rfl
  | cheat gameId moverShare entropy =>
    exact nonces_of_op E (.enableCheatingForGame gameId [0x80] moverShare) (fun heq => by cases heq)
      (fun _ _ heq => by cases heq) rfl
  | _ => exact ⟨rfl, rfl⟩

/-- The games that are made of a received group have the numbers of the group. -/
theorem Hydrated.ids {wire : WireProposalGroup} {games : List GameStartInfo}
    (h : Hydrated wire games) :
    games.map GameStartInfo.gameId = wire.members.map WireGameSpec.gameId := by
  obtain ⟨factory, hlength, -, rfl⟩ := h.games
  rw [List.map_map]
  have hsnd : (GameStartInfo.gameId ∘ fun pair : FactoryGame × GameID =>
      pair.1.gameStart pair.2 wire.start.timeout false) = Prod.snd := rfl
  rw [hsnd, List.map_snd_zip (by simp [hlength])]

/-- A game that is taken under its number. -/
theorem applyReceivedProposal_eq_ok {game : GameStartInfo} {groupId : GameID} {u : Unit}
    (h : ChannelState.applyReceivedProposal E game groupId ch = .ok u ch') :
    ch.checkReceivedProposal game = .ok () ∧ ∃ proposal,
      ch.newProposedGame E game groupId = .ok proposal ∧ ch' = { ch with
        theirNextNonce := game.gameId + 2
        proposedGames := ch.proposedGames ++ [proposal] } := by
  rw [ChannelState.applyReceivedProposal, Act.bind_of_ok (Act.get_apply ch)] at h
  obtain ⟨u', ch₁, hcheck, h₁⟩ := Act.bind_eq_ok.mp h
  obtain ⟨hchecked, rfl⟩ := Act.lift_eq_ok.mp hcheck
  obtain ⟨proposal, ch₂, hlift, hmodify⟩ := Act.bind_eq_ok.mp h₁
  obtain ⟨hnew, rfl⟩ := Act.lift_eq_ok.mp hlift
  cases hmodify
  exact ⟨hchecked, proposal, hnew, rfl⟩

/-- The receipt of games in order. -/
theorem each_applyReceivedProposal_cons {game : GameStartInfo} {games : List GameStartInfo}
    {groupId : GameID} {units : List Unit}
    (h : Act.each (fun game => do
      ChannelState.applyReceivedProposal E game groupId
      pure ([] : List Unit)) (game :: games) ch = .ok units ch') :
    ∃ ch₁ units', ChannelState.applyReceivedProposal E game groupId ch = .ok () ch₁ ∧
      Act.each (fun game => do
        ChannelState.applyReceivedProposal E game groupId
        pure ([] : List Unit)) games ch₁ = .ok units' ch' := by
  obtain ⟨us, ch₁, hfirst, h₁⟩ := Act.bind_eq_ok.mp h
  obtain ⟨us', ch₂, hrest, h₂⟩ := Act.bind_eq_ok.mp h₁
  cases h₂
  obtain ⟨u, ch₃, happly, hpure⟩ := Act.bind_eq_ok.mp hfirst
  cases hpure
  exact ⟨ch₁, us', happly, hrest⟩

theorem each_applyReceivedProposal_nonces {games : List GameStartInfo} {groupId : GameID}
    {units : List Unit}
    (h : Act.each (fun game => do
      ChannelState.applyReceivedProposal E game groupId
      pure ([] : List Unit)) games ch = .ok units ch') :
    ch'.myNextNonce = ch.myNextNonce ∧ ch.theirNextNonce ≤ ch'.theirNextNonce := by
  induction games generalizing ch units with
  | nil =>
    cases h
    exact ⟨rfl, le_rfl⟩
  | cons game games ih =>
    obtain ⟨ch₁, units', happly, hrest⟩ := each_applyReceivedProposal_cons h
    obtain ⟨hcheck, proposal, -, rfl⟩ := applyReceivedProposal_eq_ok happly
    obtain ⟨-, hle, -⟩ := ChannelState.checkReceivedProposal_eq_ok_iff.mp hcheck
    obtain ⟨hmine, htheirs⟩ := ih hrest
    exact ⟨hmine, by simp only at htheirs; omega⟩

/-- Each is the next that is expected. -/
theorem each_applyReceivedProposal_line {games : List GameStartInfo} {groupId : GameID}
    {units : List Unit} {mine : ℕ} {flight queued : List GameID}
    (h : Act.each (fun game => do
      ChannelState.applyReceivedProposal E game groupId
      pure ([] : List Unit)) games ch = .ok units ch')
    (hline : Naming.Line mine ch.theirNextNonce (games.map GameStartInfo.gameId ++ flight) queued) :
    Naming.Line mine ch'.theirNextNonce flight queued := by
  induction games generalizing ch units with
  | nil =>
    cases h
    exact hline
  | cons game games ih =>
    obtain ⟨ch₁, units', happly, hrest⟩ := each_applyReceivedProposal_cons h
    obtain ⟨-, proposal, -, rfl⟩ := applyReceivedProposal_eq_ok happly
    exact ih hrest hline.take

theorem Applied.nonces {action : BatchAction} (h : Applied E gameTypes ch action ch') :
    ch'.myNextNonce = ch.myNextNonce ∧ ch.theirNextNonce ≤ ch'.theirNextNonce := by
  have hsame : ch'.myNextNonce = ch.myNextNonce ∧ ch'.theirNextNonce = ch.theirNextNonce →
      ch'.myNextNonce = ch.myNextNonce ∧ ch.theirNextNonce ≤ ch'.theirNextNonce :=
    fun h => ⟨h.1, h.2.ge⟩
  cases h with
  | proposed wire games hgames h => exact each_applyReceivedProposal_nonces h
  | move gameId gameMove h =>
    exact hsame (nonces_of_op E (.applyReceivedMove gameId gameMove) (fun heq => by cases heq)
      (fun _ _ heq => by cases heq) (Act.after_of_ok h))
  | settled gameId amount h =>
    exact hsame (nonces_of_op E (.applyReceivedAcceptSettlement gameId) (fun heq => by cases heq)
      (fun _ _ heq => by cases heq) (Act.after_of_ok h))
  | _ => exact ⟨rfl, le_rfl⟩

theorem Applied.line {action : BatchAction} (h : Applied E gameTypes ch action ch') {mine : ℕ}
    {flight queued : List GameID}
    (hline : Naming.Line mine ch.theirNextNonce (action.proposes ++ flight) queued) :
    Naming.Line mine ch'.theirNextNonce flight queued := by
  cases h with
  | declined wire h =>
    generalize BatchAction.proposes (.proposeGroup wire) = ids at hline
    induction ids with
    | nil => exact hline
    | cons id ids ih => exact ih hline.skip
  | proposed wire games hgames h =>
    refine each_applyReceivedProposal_line h ?_
    rw [hgames.ids]
    exact hline
  | accepted gameId proposal hfind hparity hmine htheirs => exact hline
  | cancelled gameId h => exact hline
  | move gameId gameMove h =>
    have htheirs := (nonces_of_op E (.applyReceivedMove gameId gameMove) (fun heq => by cases heq)
      (fun _ _ heq => by cases heq) (Act.after_of_ok h)).2
    exact htheirs ▸ hline
  | settled gameId amount h =>
    have htheirs := (nonces_of_op E (.applyReceivedAcceptSettlement gameId) (fun heq => by cases heq)
      (fun _ _ heq => by cases heq) (Act.after_of_ok h)).2
    exact htheirs ▸ hline

theorem ApplyRun.nonces {queue queue' : List GameAction} {actions : List BatchAction}
    (h : ApplyRun E gameTypes ch queue actions ch' queue') :
    ch'.myNextNonce = ch.myNextNonce ∧ ch.theirNextNonce ≤ ch'.theirNextNonce := by
  induction h with
  | nil ch queue => exact ⟨rfl, le_rfl⟩
  | cons happlied _ _ ih =>
    exact ⟨ih.1.trans happlied.nonces.1, happlied.nonces.2.trans ih.2⟩

theorem ApplyRun.line {queue queue' : List GameAction} {actions : List BatchAction}
    (h : ApplyRun E gameTypes ch queue actions ch' queue') {mine : ℕ} {flight queued : List GameID}
    (hline : Naming.Line mine ch.theirNextNonce (proposedIds actions ++ flight) queued) :
    Naming.Line mine ch'.theirNextNonce flight queued := by
  induction h with
  | nil ch queue => exact hline
  | @cons ch ch₁ ch' queue queue₁ queue' action rest happlied hqueue _ ih =>
    have hcons : proposedIds (action :: rest) ++ flight =
        action.proposes ++ (proposedIds rest ++ flight) := List.append_assoc ..
    rw [hcons] at hline
    exact ih (happlied.line hline)

theorem ApplyRun.sublist {queue queue' : List GameAction} {actions : List BatchAction}
    (h : ApplyRun E gameTypes ch queue actions ch' queue') :
    (queuedIds queue').Sublist (queuedIds queue) := by
  induction h with
  | nil ch queue => exact List.Sublist.refl _
  | cons _ hrequeued _ ih => exact ih.trans hrequeued.sublist

/-- A turn of the player whose names they are. -/
theorem Turn.line_send {t t' : Desk} {events : List Event} (h : Turn E gameTypes t events t')
    (hqueue : ∀ a ∈ t.queue, Fabricated E gameTypes a) {theirs : ℕ} {flight : List GameID}
    (hline : Naming.Line t.channel.myNextNonce theirs flight (queuedIds t.queue)) :
    Naming.Line t'.channel.myNextNonce theirs (flight ++ flightIds (sentBy events))
      (queuedIds t'.queue) := by
  have hquiet : ∀ {mine : ℕ} {queue : List GameAction}, mine = t.channel.myNextNonce →
      (queuedIds queue).Sublist (queuedIds t.queue) →
      Naming.Line mine theirs (flight ++ []) (queuedIds queue) := by
    rintro mine queue rfl hsub
    rw [List.append_nil]
    exact hline.drop hsub
  have hplays : ∀ {queue : List GameAction}, (∀ a ∈ queue, a.isPlay = true) → queuedIds queue = [] :=
    fun hdeferred => queuedIds_eq_nil fun a ha => proposes_of_isPlay (hdeferred a ha)
  cases h with
  | push action hplain =>
    refine hquiet rfl ?_
    have hnil : queuedIds [action] = [] := by cases action <;> first | rfl | cases hplain
    rw [queuedIds_append, hnil, List.append_nil]
  | strip => exact hquiet rfl (queuedIds_filter _ _)
  | answer gameId ids action h haction =>
    refine hquiet rfl ?_
    have hnil : queuedIds (ids.map action) = [] := by
      refine queuedIds_eq_nil fun a ha => ?_
      obtain ⟨id, -, rfl⟩ := List.mem_map.mp ha
      rcases haction with rfl | rfl | rfl <;> rfl
    rw [queuedIds_append, hnil, List.append_nil]
  | allocate =>
    show Naming.Line _ _ (flight ++ []) _
    rw [List.append_nil]
    exact hline.allocate
  | propose start games hgames h =>
    show Naming.Line _ _ (flight ++ []) _
    have hqueued : queuedIds (t.queue ++ [proposalGroup start games t.channel.myNextNonce]) =
        queuedIds t.queue ++ nextNonces t.channel.myNextNonce games.length := by
      rw [queuedIds_append]
      congr 1
      rw [queuedIds, List.flatMap_cons, proposes_proposalGroup, List.flatMap_nil, List.append_nil]
    rw [List.append_nil, hqueued]
    exact hline.propose games.length
  | idle ch' deferred hpotato hrun hshutdown hdeferred =>
    refine hquiet hrun.nonces.1 ?_
    rw [hplays hdeferred]
    exact List.nil_sublist _
  | send outs ch' deferred shutdown hpotato hrun hshutdown hdeferred =>
    have hids : flightIds (sentBy
        [.sends ⟨outs, ch'.signaturesAt E (ch'.stateNumber + 1), shutdown⟩]) = queuedIds t.queue := by
      rw [← hrun.proposedIds hqueue]
      exact List.append_nil _
    have hmine : (ch'.sent E).myNextNonce = t.channel.myNextNonce := hrun.nonces.1
    rw [hids, hplays hdeferred, hmine]
    rw [← List.append_nil (queuedIds t.queue)] at hline
    exact hline.send
  | fail done action rest outs ch₁ ch' hpotato hsplit hrun hfailed =>
    refine hquiet ((hfailed.nonces E).1.trans hrun.nonces.1) ?_
    rw [hsplit, queuedIds_append]
    exact (List.sublist_append_right action.proposes _).trans (List.sublist_append_right _ _)
  | pass hpotato => exact hquiet rfl (List.Sublist.refl _)
  | receive b ch₁ queue₁ hpotato hlast haccept hcancel hrun hverifies =>
    exact hquiet hrun.nonces.1 hrun.sublist

/-- A turn of the player who is told of them. -/
theorem Turn.line_receive {u u' : Desk} {events : List Event} (h : Turn E gameTypes u events u')
    {mine : ℕ} {flight queued : List GameID}
    (hline : Naming.Line mine u.channel.theirNextNonce (flightIds (takenBy events) ++ flight) queued) :
    Naming.Line mine u'.channel.theirNextNonce flight queued := by
  cases h with
  | idle ch' deferred hpotato hrun hshutdown hdeferred => exact hrun.nonces.2 ▸ hline
  | send outs ch' deferred shutdown hpotato hrun hshutdown hdeferred =>
    have htheirs : (ch'.sent E).theirNextNonce = u.channel.theirNextNonce := hrun.nonces.2
    rw [htheirs]
    exact hline
  | fail done action rest outs ch₁ ch' hpotato hsplit hrun hfailed =>
    have htheirs : ch'.theirNextNonce = u.channel.theirNextNonce :=
      (hfailed.nonces E).2.trans hrun.nonces.2
    rw [htheirs]
    exact hline
  | receive b ch₁ queue₁ hpotato hlast haccept hcancel hrun hverifies =>
    have hids : flightIds (takenBy [.receives b]) = proposedIds b.actions := List.append_nil _
    rw [hids] at hline
    exact hrun.line hline
  | _ => exact hline

end OffChainPhase

namespace Table

variable {E : ChannelEnv} {gameTypes : Bool → List (Bytes × Option Clvm)} {T T' : Table}

/-- The names of each player on their way to the other. -/
structure Numbered (E : ChannelEnv) (gameTypes : Bool → List (Bytes × Option Clvm)) (T : Table) :
    Prop where
  queue : ∀ s, ∀ a ∈ (T.desk s).queue, Fabricated E (gameTypes s) a
  line : ∀ s, Naming.Line (T.desk s).channel.myNextNonce (T.desk (!s)).channel.theirNextNonce
    (flightIds (T.flight (!s))) (queuedIds (T.desk s).queue)

theorem Step.numbered {events : List Event} (h : Step E gameTypes T events T')
    (hT : T.Numbered E gameTypes) : T'.Numbered E gameTypes := by
  obtain ⟨s, rest, hturn, hflight⟩ := h
  rename_i t'
  refine ⟨both_players s ?_ ?_, both_players s ?_ ?_⟩
  · rw [put_desk_self]
    exact hturn.fabricated (hT.queue s)
  · rw [put_desk_not]
    exact hT.queue (!s)
  · have hline := hturn.line_send (hT.queue s) (hT.line s)
    simpa using hline
  · have hline := hT.line (!s)
    rw [Bool.not_not, hflight, flightIds_append] at hline
    simpa using hturn.line_receive hline

theorem Steps.numbered {events : List Event} (h : Steps E gameTypes T events T')
    (hT : T.Numbered E gameTypes) : T'.Numbered E gameTypes := by
  induction h with
  | refl => exact hT
  | step _ hstep ih => exact hstep.numbered ih

theorem Step.books {events : List Event} (h : Step E gameTypes T events T') (r : Bool) :
    Naming.Steps (T.desk r).book (T'.desk r).book := by
  obtain ⟨s, rest, hturn, hflight⟩ := h
  revert r
  refine both_players s ?_ ?_
  · rw [put_desk_self]
    exact hturn.book
  · rw [put_desk_not]
    exact .refl

theorem Steps.books {events : List Event} (h : Steps E gameTypes T events T') (r : Bool) :
    Naming.Steps (T.desk r).book (T'.desk r).book := by
  induction h with
  | refl => exact .refl
  | step _ hstep ih => exact ih.trans (hstep.books r)

end Table

namespace OffChainPhase

variable {E : ChannelEnv} {gameTypes : List (Bytes × Option Clvm)}

/-! The numbers that a player is given. -/

def grantedBy (events : List Event) : List GameID :=
  events.flatMap fun event =>
    match event with
    | .grants ids => ids
    | _ => []

@[simp] theorem grantedBy_append (xs ys : List Event) :
    grantedBy (xs ++ ys) = grantedBy xs ++ grantedBy ys := List.flatMap_append ..

theorem grantedBy_sentEvents (effects : List Effect) : grantedBy (sentEvents effects) = [] := by
  rw [sentEvents, grantedBy, List.flatMap_map]
  exact List.flatMap_eq_nil_iff.mpr fun _ _ => rfl

theorem grantedBy_receives (batches : List PeerBatch) : grantedBy (batches.map .receives) = [] := by
  rw [grantedBy, List.flatMap_map]
  exact List.flatMap_eq_nil_iff.mpr fun _ _ => rfl

theorem Lapses.grantedBy {lapses : List Event} (h : Lapses lapses) :
    OffChainPhase.grantedBy lapses = [] :=
  List.flatMap_eq_nil_iff.mpr fun event hevent => by rw [h event hevent]

theorem Grants.grantedBy {grants : List Event} {ids : List GameID} (h : Grants grants ids) :
    OffChainPhase.grantedBy grants = ids := by
  rcases h with ⟨rfl, rfl⟩ | rfl
  · rfl
  · exact List.append_nil ids

theorem length_nextNonces (nonce k : ℕ) : (nextNonces nonce k).length = k := by simp [nextNonces]

theorem nextNonces_add (nonce k l : ℕ) :
    nextNonces nonce (k + l) = nextNonces nonce k ++ nextNonces (nonce + 2 * k) l := by
  rw [nextNonces, List.range_add, List.map_append, List.map_map]
  refine congrArg _ (List.map_congr_left fun i _ => ?_)
  show nonce + 2 * (k + i) = nonce + 2 * k + 2 * i
  omega

theorem mem_nextNonces {nonce k n : ℕ} :
    n ∈ nextNonces nonce k ↔ n % 2 = nonce % 2 ∧ nonce ≤ n ∧ n < nonce + 2 * k :=
  Naming.Book.mem_next (b := ⟨nonce, 0, [], []⟩)

theorem Turn.granted {t t' : Desk} {events : List Event} (h : Turn E gameTypes t events t') :
    t'.channel.myNextNonce = t.channel.myNextNonce + 2 * (grantedBy events).length ∧
      grantedBy events = nextNonces t.channel.myNextNonce (grantedBy events).length := by
  have hnothing : ∀ ch : ChannelState, ch.myNextNonce = t.channel.myNextNonce →
      ch.myNextNonce = t.channel.myNextNonce + 2 * ([] : List GameID).length ∧
        [] = nextNonces t.channel.myNextNonce ([] : List GameID).length := fun _ h => ⟨h, rfl⟩
  cases h with
  | allocate => exact ⟨rfl, rfl⟩
  | propose start games hgames h =>
    have hids : grantedBy [.grants (nextNonces t.channel.myNextNonce games.length)] =
        nextNonces t.channel.myNextNonce games.length := List.append_nil _
    rw [hids, length_nextNonces]
    exact ⟨rfl, rfl⟩
  | idle ch' deferred hpotato hrun hshutdown hdeferred => exact hnothing _ hrun.nonces.1
  | send outs ch' deferred shutdown hpotato hrun hshutdown hdeferred =>
    exact hnothing (ch'.sent E) hrun.nonces.1
  | fail done action rest outs ch₁ ch' hpotato hsplit hrun hfailed =>
    exact hnothing _ ((hfailed.nonces E).1.trans hrun.nonces.1)
  | receive b ch₁ queue₁ hpotato hlast haccept hcancel hrun hverifies =>
    exact hnothing (settledState (ch₁.received E b.signatures)) hrun.nonces.1
  | _ => exact hnothing _ rfl

theorem Turns.granted {t t' : Desk} {events : List Event} (h : Turns E gameTypes t events t') :
    t'.channel.myNextNonce = t.channel.myNextNonce + 2 * (grantedBy events).length ∧
      grantedBy events = nextNonces t.channel.myNextNonce (grantedBy events).length := by
  induction h with
  | refl => exact ⟨rfl, rfl⟩
  | step _ hturn ih =>
    obtain ⟨hnonce, hids⟩ := ih
    obtain ⟨hnonce', hids'⟩ := hturn.granted
    rw [grantedBy_append, List.length_append, nextNonces_add, ← hids, ← hnonce, ← hids', hnonce']
    exact ⟨by omega, rfl⟩

end OffChainPhase

end ChiaGaming
