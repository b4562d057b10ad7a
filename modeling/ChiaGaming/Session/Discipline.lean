import ChiaGaming.Session.Nonces

namespace ChiaGaming

open OffChainPhase

/-! The names of games over whole runs of two players. -/

namespace OffChainPhase

variable {E : ChannelEnv}

/-- The receipt of a batch comes to a game: the actions before its group and the games before it in
the group are taken. -/
def Called (E : ChannelEnv) (p : OffChainPhase) (actions : List BatchAction) (game : GameStartInfo)
    (ch : ChannelState) : Prop :=
  ∃ pre wire post effects p₁ p₂ ch₁ earlier later units,
    actions = pre ++ .proposeGroup wire :: post ∧
    Act.each (applyBatchAction E) pre p = .ok effects p₁ ∧
    hydrateWireProposalGroup E wire { p₁ with
      gameActionQueue := p₁.gameActionQueue.filter fun action => !isProposalGroup action } =
        .ok (earlier ++ game :: later) p₂ ∧
    p₂.channelState = some ch₁ ∧
    Act.each (fun game => do
      ChannelState.applyReceivedProposal E game wire.groupId
      pure ([] : List Unit)) earlier ch₁ = .ok units ch

theorem Called.passes {p : OffChainPhase} {t : Desk} (ht : p.At t) {actions : List BatchAction}
    {game : GameStartInfo} {ch : ChannelState} (h : Called E p actions game ch) {mine : ℕ}
    {flight queued : List GameID}
    (hline : Naming.Line mine t.channel.theirNextNonce (proposedIds actions ++ flight) queued) :
    game.gameId % 2 = ch.theirNextNonce % 2 ∧ ch.theirNextNonce ≤ game.gameId ∧
      game.gameId < mine ∧ mine % 2 = game.gameId % 2 ∧
      t.channel.theirNextNonce ≤ ch.theirNextNonce := by
  obtain ⟨pre, wire, post, effects, p₁, p₂, ch₁, earlier, later, units, rfl, hpre, hhydrate, hch₁,
    hearlier⟩ := h
  obtain ⟨ch₀, queue, hrun, rfl⟩ := each_applyBatchAction_eq_ok ht.channel hpre
  obtain ⟨rfl, hgames⟩ := hydrateWireProposalGroup_eq_ok hhydrate
  obtain rfl : ch₀ = ch₁ := Option.some.inj hch₁
  have hids : proposedIds (pre ++ .proposeGroup wire :: post) ++ flight = proposedIds pre ++
      (earlier.map GameStartInfo.gameId ++ game.gameId ::
        (later.map GameStartInfo.gameId ++ (proposedIds post ++ flight))) := by
    have hgroup : BatchAction.proposes (.proposeGroup wire) = earlier.map GameStartInfo.gameId ++
        game.gameId :: later.map GameStartInfo.gameId := by
      rw [BatchAction.proposes, ← hgames.ids, List.map_append, List.map_cons]
    rw [proposedIds_append]
    show _ ++ (BatchAction.proposes (.proposeGroup wire) ++ proposedIds post) ++ flight = _
    rw [hgroup]
    simp [List.append_assoc]
  rw [hids] at hline
  have hline₁ := each_applyReceivedProposal_line hearlier (hrun.line hline)
  obtain ⟨hparity, hle, hlt⟩ := hline₁.passes
  exact ⟨hparity, hle, hlt, (hline₁.parity.symm.trans hparity.symm),
    hrun.nonces.2.trans (each_applyReceivedProposal_nonces hearlier).2⟩

end OffChainPhase

/-- The checks on the number of a received proposal. -/
def ChannelState.Expects (ch : ChannelState) (n : GameID) : Prop :=
  n % 2 = ch.theirNextNonce % 2 ∧ ch.theirNextNonce ≤ n ∧
    n ≤ ch.theirNextNonce + ChannelState.maxNonceGap

namespace Joint

variable {E : ChannelEnv} {j j' : Joint} {log : Bool → List GameID}

/-- The runs of two players with the numbers that each was given for its proposals. -/
inductive Logged (E : ChannelEnv) : (Bool → List GameID) → Joint → Prop where
  | start (o : Bool → Opening E) (gameTypes : Bool → List (Bytes × Option Clvm))
      (incoming wire : Bool → List PeerMessage) (hrole : ∀ s, (o s).initiator = s)
      (hincoming : ∀ s, potatoMessages (incoming s) = [])
      (hwire : ∀ s, potatoMessages (wire s) = []) : Logged E (fun _ => [])
        ⟨fun s => .fromCompletedHandshake (o s) (gameTypes s) (incoming s), wire⟩
  | act {log : Bool → List GameID} {j : Joint} (h : Logged E log j) (s : Bool) (input : LocalInput)
      {effects : List Effect} {p' : OffChainPhase}
      (hr : runLocal E input (j.peer s) = .ok effects p') :
      Logged E (Function.update log s (log s ++ grantedIds E input (j.peer s)))
        (j.put s p' (messagesOf effects))
  | fail {log : Bool → List GameID} {j : Joint} (h : Logged E log j) (s : Bool) (input : LocalInput)
      {e : Error} {p' : OffChainPhase} (hr : runLocal E input (j.peer s) = .error e p') :
      Logged E log (j.put s p' [])
  | arrive {log : Bool → List GameID} {j : Joint} (h : Logged E log j) (s : Bool)
      (msg : PeerMessage) (rest : List PeerMessage) (hwire : j.wire s = msg :: rest) :
      Logged E log (j.arrive s msg rest)
  | read {log : Bool → List GameID} {j : Joint} (h : Logged E log j) (s : Bool)
      {effects : List Effect} {p' : OffChainPhase}
      (hr : processQueuedMessage E (j.peer s) = .ok effects p')
      (hnext : p'.channelSpendNextPhase = none) : Logged E log (j.put s p' (messagesOf effects))

inductive Later (E : ChannelEnv) (j : Joint) : Joint → Prop where
  | refl : Later E j j
  | step {j₁ j₂ : Joint} (h : Later E j j₁) (hstep : Step E j₁ j₂) : Later E j j₂

/-- The initiator counts from one and its peer from zero. -/
def firstNonce (s : Bool) : ℕ := if s then 1 else 0

/-- The games in play have names of their own, by parity those of their proposers, which are given
once and gone for good when they are gone, and the peer takes them. -/
structure Named (E : ChannelEnv) (log : Bool → List GameID) (j : Joint) : Prop where
  distinct : ∀ s ch, (j.peer s).channelState = some ch → ch.heldIds.Nodup
  proposer : ∀ s ch, (j.peer s).channelState = some ch → ∀ n ∈ ch.heldIds,
    ∃ r, n ∈ log r ∧ n % 2 = firstNonce r
  once : (log true ++ log false).Nodup
  retired : ∀ j' j'', Later E j j' → Later E j' j'' → ∀ s ch ch' ch'',
    (j.peer s).channelState = some ch → (j'.peer s).channelState = some ch' →
    (j''.peer s).channelState = some ch'' → ∀ n ∈ ch.heldIds, n ∉ ch'.heldIds → n ∉ ch''.heldIds
  taken : ∀ s b rest, (j.peer s).incomingMessages = .batch b :: rest → ∀ game ch,
    Called E { j.peer s with incomingMessages := rest } b.actions game ch → ch.Expects game.gameId

/-- The player has used up no more numbers since the last proposal that its peer took than the peer
puts up with. -/
def InStep (j : Joint) (s : Bool) : Prop :=
  ∀ ch ch', (j.peer s).channelState = some ch → (j.peer (!s)).channelState = some ch' →
    ch.myNextNonce ≤ ch'.theirNextNonce + ChannelState.maxNonceGap + 2

/-- What the runs keep. -/
structure Tracked (E : ChannelEnv) (log : Bool → List GameID) (j : Joint) : Prop where
  table : ∃ gameTypes T, j.Laid gameTypes T ∧ T.Numbered E gameTypes ∧
    ∀ s, Naming.Fresh (T.desk s).book
  log : ∀ s ch, (j.peer s).channelState = some ch → ∃ k,
    log s = nextNonces (firstNonce s) k ∧ ch.myNextNonce = firstNonce s + 2 * k

theorem Tracked.table_step {gameTypes : Bool → List (Bytes × Option Clvm)} {T T' : Table}
    {events : List Event} (hnumbered : T.Numbered E gameTypes)
    (hfresh : ∀ s, Naming.Fresh (T.desk s).book) (hsteps : Table.Steps E gameTypes T events T')
    (hlaid : j'.Laid gameTypes T') : ∃ gameTypes T, j'.Laid gameTypes T ∧ T.Numbered E gameTypes ∧
      ∀ s, Naming.Fresh (T.desk s).book :=
  ⟨gameTypes, T', hlaid, hsteps.numbered hnumbered, fun s => (hsteps.books s).fresh (hfresh s)⟩

/-- A step of one player, with the numbers that it is given in it. -/
theorem Tracked.put {s : Bool} {p : OffChainPhase} {events : List Event}
    (h : Tracked E log j) (out : List PeerMessage) (hworks : Works E (j.peer s) p events)
    (hsent : sentBy events = batchesOf out)
    (htaken : batchesOf (j.peer s).incomingMessages =
      takenBy events ++ batchesOf p.incomingMessages) :
    Tracked E (Function.update log s (log s ++ grantedBy events)) (j.put s p out) := by
  obtain ⟨gameTypes, T, hlaid, hnumbered, hfresh⟩ := h.table
  obtain ⟨T', hsteps, hlaid'⟩ := hlaid.works out hworks hsent htaken
  refine ⟨Tracked.table_step hnumbered hfresh hsteps hlaid', both_players s ?_ ?_⟩
  · intro ch hch
    replace hch : p.channelState = some ch := by simpa [Joint.put] using hch
    obtain ⟨-, t', ht', hturns⟩ := hworks (T.desk s) (hlaid.desk s)
    obtain rfl : t'.channel = ch := Option.some.inj (ht'.channel.symm.trans hch)
    obtain ⟨k, hlog, hnonce⟩ := h.log s _ (hlaid.desk s).channel
    obtain ⟨hgranted, hids⟩ := hturns.granted
    refine ⟨k + (grantedBy events).length, ?_, by omega⟩
    rw [Function.update_self, nextNonces_add, ← hlog, ← hnonce, ← hids]
  · intro ch hch
    rw [Function.update_of_ne (Bool.not_ne_self s)]
    exact h.log (!s) ch (by simpa [Joint.put, Function.update] using hch)

theorem tracked_same {s : Bool} (h : Tracked E (Function.update log s (log s ++ [])) j) :
    Tracked E log j := by
  rw [List.append_nil, Function.update_eq_self] at h
  exact h

theorem Logged.tracked (h : Logged E log j) : Tracked E log j := by
  induction h with
  | start o gameTypes incoming wire hrole hincoming hwire =>
    have hchannel : ∀ s, (o s).channel.myNextNonce = firstNonce s ∧
        (o s).channel.theirNextNonce = firstNonce (!s) := by
      intro s
      show (if (o s).setup.weStartWithPotato then 0 else 1) = _ ∧
        (if (o s).setup.weStartWithPotato then 1 else 0) = _
      rw [(o s).startPotato, hrole]
      cases s <;> exact ⟨rfl, rfl⟩
    refine ⟨⟨gameTypes, opened o, laid_start o incoming wire hincoming hwire, ?_,
      fun s => fresh_opening (o s)⟩, fun s ch hch => ⟨0, rfl, ?_⟩⟩
    · refine ⟨fun s a ha => (by cases ha), fun s => ?_⟩
      show Naming.Line (o s).channel.myNextNonce (o (!s)).channel.theirNextNonce [] []
      rw [(hchannel s).1, (hchannel (!s)).2, Bool.not_not]
      exact ⟨rfl, le_rfl, fun n hn => (by cases hn), .nil⟩
    · cases hch
      exact (hchannel s).1
  | @act log j _ s input effects p' hr ih =>
    obtain ⟨grants, hgrants, hworks⟩ := runLocal_works hr
    obtain ⟨hunsent, huntaken⟩ := nothing_of_grants hgrants
    have hput := ih.put (messagesOf effects) hworks
      (by rw [sentBy_append, hunsent, sentBy_sentEvents]; rfl)
      (by rw [takenBy_append, huntaken, takenBy_sentEvents, List.nil_append, List.nil_append,
        ← Act.after_of_ok hr, incomingMessages_runLocal])
    rwa [grantedBy_append, hgrants.grantedBy, grantedBy_sentEvents, List.append_nil] at hput
  | @fail log j _ s input e p' hr ih =>
    obtain ⟨lapses, hlapses, hworks⟩ := runLocal_works_error hr
    obtain ⟨hunsent, huntaken⟩ := hlapses.nothing
    have hput := ih.put [] hworks hunsent
      (by rw [huntaken, List.nil_append, ← Act.after_of_error hr, incomingMessages_runLocal])
    rw [hlapses.grantedBy] at hput
    exact tracked_same hput
  | @arrive log j _ s msg rest hwire ih =>
    obtain ⟨gameTypes, T, hlaid, hnumbered, hfresh⟩ := ih.table
    refine ⟨⟨gameTypes, T, hlaid.arrive hwire, hnumbered, hfresh⟩, fun r ch hch => ?_⟩
    have hsame : ch = (T.desk r).channel :=
      Option.some.inj (hch.symm.trans ((hlaid.arrive hwire).desk r).channel)
    exact ih.log r ch (hsame ▸ (hlaid.desk r).channel)
  | @read log j _ s effects p' hr hnext ih =>
    obtain ⟨batches, htaken, lapses, hlapses, -, hworks⟩ := processQueuedMessage_works hr hnext
    obtain ⟨hunsent, huntaken⟩ := hlapses.nothing
    have hput := ih.put (messagesOf effects) hworks
      (by rw [sentBy_append, sentBy_append, sentBy_receives, hunsent, sentBy_sentEvents]; rfl)
      (by rw [takenBy_append, takenBy_append, takenBy_receives, huntaken, takenBy_sentEvents,
        List.append_nil, List.append_nil, htaken])
    rw [grantedBy_append, grantedBy_append, grantedBy_receives, hlapses.grantedBy,
      grantedBy_sentEvents] at hput
    exact tracked_same hput

theorem Later.table {gameTypes : Bool → List (Bytes × Option Clvm)} {T : Table}
    (hlaid : j.Laid gameTypes T) (h : Later E j j') :
    ∃ T', j'.Laid gameTypes T' ∧ ∀ s, Naming.Steps (T.desk s).book (T'.desk s).book := by
  induction h with
  | refl => exact ⟨T, hlaid, fun _ => .refl⟩
  | step _ hstep ih =>
    obtain ⟨T₁, hlaid₁, hbooks⟩ := ih
    obtain ⟨events, T₂, hsteps, hlaid₂⟩ := hstep.table hlaid₁
    exact ⟨T₂, hlaid₂, fun s => (hbooks s).trans (hsteps.books s)⟩

theorem Tracked.proposer (h : Tracked E log j) {s : Bool} {ch : ChannelState}
    (hch : (j.peer s).channelState = some ch) {n : GameID} (hn : n ∈ ch.heldIds) :
    ∃ r, n ∈ log r ∧ n % 2 = firstNonce r := by
  obtain ⟨gameTypes, T, hlaid, hnumbered, hfresh⟩ := h.table
  obtain rfl : (T.desk s).channel = ch := Option.some.inj ((hlaid.desk s).channel.symm.trans hch)
  have hsmall : ∀ r : Bool, firstNonce r < 2 := by
    intro r
    cases r <;> decide
  have hlogged : ∀ r m, m % 2 = (T.desk r).channel.myNextNonce % 2 →
      m < (T.desk r).channel.myNextNonce → m ∈ log r ∧ m % 2 = firstNonce r := by
    intro r m hparity hlt
    obtain ⟨k, hlog, hnonce⟩ := h.log r _ (hlaid.desk r).channel
    have hfirst := hsmall r
    rw [hlog, mem_nextNonces]
    refine ⟨⟨by omega, ?_, by omega⟩, by omega⟩
    omega
  rcases (hfresh s).used n (List.mem_append_left _ hn) with ⟨hparity, hlt⟩ | ⟨hparity, hlt⟩
  · exact ⟨s, hlogged s n hparity hlt⟩
  · have hline := hnumbered.line (!s)
    rw [Bool.not_not] at hline
    exact ⟨!s, hlogged (!s) n (hparity.trans hline.parity) (lt_of_lt_of_le hlt hline.bound)⟩

theorem Tracked.once (h : Tracked E log j) : (log true ++ log false).Nodup := by
  obtain ⟨gameTypes, T, hlaid, -, -⟩ := h.table
  obtain ⟨k, hk, -⟩ := h.log true _ (hlaid.desk true).channel
  obtain ⟨l, hl, -⟩ := h.log false _ (hlaid.desk false).channel
  have hnodup : ∀ nonce k, (nextNonces nonce k).Nodup := fun nonce k =>
    (Naming.Book.next_pairwise ⟨nonce, 0, [], []⟩ k).imp fun hlt => Nat.ne_of_lt hlt
  rw [hk, hl]
  refine List.nodup_append.mpr ⟨hnodup _ _, hnodup _ _, fun n hn m hm heq => ?_⟩
  rw [mem_nextNonces] at hn hm
  have hodd : n % 2 = 1 := hn.1
  have heven : m % 2 = 0 := hm.1
  rw [heq, heven] at hodd
  cases hodd

theorem Tracked.retired (h : Tracked E log j) {j' j'' : Joint} (hlater : Later E j j')
    (hlater' : Later E j' j'') {s : Bool} {ch ch' ch'' : ChannelState}
    (hch : (j.peer s).channelState = some ch) (hch' : (j'.peer s).channelState = some ch')
    (hch'' : (j''.peer s).channelState = some ch'') {n : GameID} (hn : n ∈ ch.heldIds)
    (hgone : n ∉ ch'.heldIds) : n ∉ ch''.heldIds := by
  obtain ⟨gameTypes, T, hlaid, -, hfresh⟩ := h.table
  obtain ⟨T', hlaid', hbooks⟩ := hlater.table hlaid
  obtain ⟨T'', hlaid'', hbooks'⟩ := hlater'.table hlaid'
  obtain rfl : (T.desk s).channel = ch := Option.some.inj ((hlaid.desk s).channel.symm.trans hch)
  obtain rfl : (T'.desk s).channel = ch' := Option.some.inj ((hlaid'.desk s).channel.symm.trans hch')
  obtain rfl : (T''.desk s).channel = ch'' :=
    Option.some.inj ((hlaid''.desk s).channel.symm.trans hch'')
  have hretired := ((hbooks s).held (hfresh s) hn).resolve_left hgone
  exact fun hmem => ((hbooks' s).retired ((hbooks s).fresh (hfresh s)) hretired).2
    (List.mem_append_left _ hmem)

/-- In every run, the games have names of their own, and the peer takes them unless too many numbers
have been used up in between. -/
theorem game_ids_disciplined (h : Logged E log j) (hstep : ∀ s, j.InStep s) : Named E log j := by
  have htracked := h.tracked
  obtain ⟨gameTypes, T, hlaid, hnumbered, hfresh⟩ := htracked.table
  refine ⟨fun s ch hch => ?_, fun s ch hch n hn => htracked.proposer hch hn, htracked.once,
    fun j' j'' hlater hlater' s ch ch' ch'' hch hch' hch'' n hn hgone =>
      htracked.retired hlater hlater' hch hch' hch'' hn hgone, fun s b rest hb game ch hcalled => ?_⟩
  · obtain rfl : (T.desk s).channel = ch := Option.some.inj ((hlaid.desk s).channel.symm.trans hch)
    exact (List.nodup_append.mp (hfresh s).nodup).1
  · have hline := hnumbered.line (!s)
    have hflight : flightIds (T.flight s) =
        proposedIds b.actions ++ flightIds (batchesOf (rest ++ j.wire s)) := by
      rw [hlaid.flight, inbox, hb]
      rfl
    rw [Bool.not_not, hflight] at hline
    have ht : ({ j.peer s with incomingMessages := rest } : OffChainPhase).At (T.desk s) :=
      ⟨(hlaid.desk s).channel, (hlaid.desk s).queue, (hlaid.desk s).potato⟩
    obtain ⟨hparity, hle, hlt, hmine, htheirs⟩ := hcalled.passes ht hline
    have hgap := hstep (!s) _ _ (hlaid.desk (!s)).channel
      (by rw [Bool.not_not]; exact (hlaid.desk s).channel)
    have hgap' : (T.desk !s).channel.myNextNonce ≤
        (T.desk s).channel.theirNextNonce + ChannelState.maxNonceGap + 2 := hgap
    refine ⟨hparity, hle, ?_⟩
    show game.gameId ≤ ch.theirNextNonce + ChannelState.maxNonceGap
    omega

end Joint

namespace OffChainPhase

variable {E : ChannelEnv}

/-- A proposal of a player that has the potato and owes no answer. -/
theorem proposeGame_of_factory {p : OffChainPhase} {ch : ChannelState} (start : GameProposal)
    {games : List FactoryGame} (hch : p.channelState = some ch) (hp : p.havePotato = .present)
    (hpending : ch.pendingPeerProposalIds = []) (hgames : games ≠ [])
    (hanswer : FactoryAnswer E p.gameTypes start games) :
    proposeGame E start p = .ok (nextNonces ch.myNextNonce games.length, []) { p.stripped with
      channelState := some { ch with myNextNonce := ch.myNextNonce + 2 * games.length }
      gameActionQueue := p.stripped.gameActionQueue ++
        [proposalGroup start games ch.myNextNonce] } := by
  obtain ⟨program, hlookup, hrun⟩ := hanswer
  have hfactory : factoryGames E start p.stripped = .ok games p.stripped := by
    have hlookup' : p.stripped.gameTypes.lookup start.gameType = some (some program) := hlookup
    rw [factoryGames, Act.bind_of_ok (Act.get_apply _), hlookup']
    exact congrArg (fun r => Act.lift r p.stripped) hrun
  have hallocate : onChannel (Act.each (fun _ => do
      let n ← ChannelState.allocateMyNonce
      pure [n]) games) p.stripped = .ok (nextNonces ch.myNextNonce games.length) { p.stripped with
        channelState := some { ch with myNextNonce := ch.myNextNonce + 2 * games.length } } := by
    have hch' : p.stripped.channelState = some ch := hch
    rw [onChannel]
    simp only [hch', each_allocateMyNonce]
  have hpresent : p.stripped.havePotato = .present := hp
  rw [proposeGame_eq start hch, if_neg (by simp [hpending]), Act.bind_of_ok hfactory, if_neg hgames,
    Act.bind_of_ok hallocate, pushAction, Act.bind_of_ok (Act.modify_apply _ _),
    sendPotatoRequestIfNeeded, Act.bind_apply, Act.bind_of_ok (Act.get_apply _)]
  simp only [hpresent]
  rfl

theorem newProposedGame_ok (ch : ChannelState) (game : GameStartInfo) (groupId : GameID) :
    ∃ proposal, ch.newProposedGame E game groupId = .ok proposal := by
  rw [ChannelState.newProposedGame, Referee.new]
  split
  · rw [MyTurnReferee.new, refereeInitialSetup_eq_ok]
    exact ⟨_, rfl⟩
  · rw [TheirTurnReferee.new, refereeInitialSetup_eq_ok]
    exact ⟨_, rfl⟩

theorem drainAction_group {p : OffChainPhase} {ch : ChannelState} (hch : p.channelState = some ch)
    (d : Drain) (myGames : List GameStartInfo) (theirWire : WireProposalGroup) :
    ∃ proposals, drainAction E d (.queuedProposalGroup myGames theirWire) p =
      .ok (d.batch (.proposeGroup theirWire)) { p with
        channelState := some { ch with proposedGames := ch.proposedGames ++ proposals } } := by
  have heach : ∃ proposals, Act.each (fun game => do
      ChannelState.sendProposeGame E game theirWire.groupId
      pure ([] : List Unit)) myGames ch =
        .ok [] { ch with proposedGames := ch.proposedGames ++ proposals } := by
    induction myGames generalizing ch p with
    | nil => exact ⟨[], by simp [Act.each]⟩
    | cons game games ih =>
      obtain ⟨proposal, hnew⟩ := newProposedGame_ok (E := E) ch game theirWire.groupId
      have hsend : (do
          ChannelState.sendProposeGame E game theirWire.groupId
          pure ([] : List Unit) : Act Error ChannelState (List Unit)) ch =
            .ok [] { ch with proposedGames := ch.proposedGames ++ [proposal] } := by
        rw [ChannelState.sendProposeGame, Act.bind_apply, Act.bind_of_ok (Act.get_apply ch), hnew]
        rfl
      obtain ⟨proposals, hrest⟩ := ih (p := { p with channelState := some { ch with
        proposedGames := ch.proposedGames ++ [proposal] } }) rfl
      refine ⟨proposal :: proposals, ?_⟩
      rw [Act.each, Act.bind_of_ok hsend, Act.bind_of_ok hrest]
      simp
  obtain ⟨proposals, heach⟩ := heach
  refine ⟨proposals, ?_⟩
  simp only [drainAction, drainProposalGroup, onChannel, hch, heach]

/-- Two proposals leave in one batch. -/
theorem flush_groups {p : OffChainPhase} {ch : ChannelState} (hch : p.channelState = some ch)
    (hp : p.havePotato = .present) {gamesA gamesB : List GameStartInfo}
    {wireA wireB : WireProposalGroup}
    (hqueue : p.gameActionQueue =
      [.queuedProposalGroup gamesA wireA, .queuedProposalGroup gamesB wireB]) :
    ∃ signatures p', runLocal E .flush p =
      .ok [.peerBatch ⟨[.proposeGroup wireA, .proposeGroup wireB], signatures, none⟩] p' := by
  have hdrain : ∃ ch' p₁, p₁.channelState = some ch' ∧ drainActions E .empty
      [.queuedProposalGroup gamesA wireA, .queuedProposalGroup gamesB wireB]
        { p with lastFailedQueuedAction := none } =
      .ok ((Drain.empty.batch (.proposeGroup wireA)).batch (.proposeGroup wireB)) p₁ := by
    rw [drainActions_cons]
    obtain ⟨proposals, hA⟩ := drainAction_group (E := E)
      (p := popped (.queuedProposalGroup gamesA wireA) [.queuedProposalGroup gamesB wireB]
        { p with lastFailedQueuedAction := none }) hch .empty gamesA wireA
    rw [Act.bind_of_ok hA, drainActions_cons]
    obtain ⟨proposals', hB⟩ := drainAction_group (E := E)
      (p := popped (.queuedProposalGroup gamesB wireB) []
        { popped (.queuedProposalGroup gamesA wireA) [.queuedProposalGroup gamesB wireB]
          { p with lastFailedQueuedAction := none } with
          channelState := some { ch with proposedGames := ch.proposedGames ++ proposals } }) rfl
      (Drain.empty.batch (.proposeGroup wireA)) gamesB wireB
    rw [Act.bind_of_ok hB]
    exact ⟨_, _, rfl, rfl⟩
  obtain ⟨ch', p₁, hch', hdrain⟩ := hdrain
  have hpackage := packageBatch_sent (E := E)
    (d := (Drain.empty.batch (.proposeGroup wireA)).batch (.proposeGroup wireB))
    (by rintro ⟨h, -⟩; cases h) hch'
  have hflush : runLocal E .flush p = (packageBatch E
      ((Drain.empty.batch (.proposeGroup wireA)).batch (.proposeGroup wireB)) >>=
        fun result => (pure result.2 : Act Error OffChainPhase (List Effect))) p₁ := by
    rw [runLocal, flushPendingActions, Act.bind_of_ok (Act.modify_apply _ p),
      Act.bind_of_ok (Act.get_apply _), if_neg (by simp [hasPotato, hp, hqueue]), Act.bind_apply,
      drainQueueIntoBatch_eq (p := { p with lastFailedQueuedAction := none }) hp]
    simp only [hqueue] at hdrain ⊢
    rw [Act.bind_of_ok hdrain, Act.bind_apply]
  rw [Act.bind_of_ok hpackage] at hflush
  exact ⟨_, _, hflush⟩

end OffChainPhase

namespace Steady

/-- A game of the steady kind as a factory answers it. -/
def record : Clvm :=
  .list [.nat 1, .nat 1, .nat 2, .nil, .atom (shatree frame validator), .nil, .nat 5, .nat 3, .nil,
    handler, handler, validator]

/-- One game, and as many as nobody wants. -/
def single : Clvm := .nat 8

def bulk : Clvm := .nat 9

def market : Run := fun program parameters =>
  if program = single then some (.list [record])
  else if program = bulk then some (.list (List.replicate 502 record))
  else run program parameters

def marketEnv : ChannelEnv := { channelEnv with run := market }

def marketGame : FactoryGame where
  senderContribution := 1
  receiverContribution := 1
  amount := 2
  senderGoesFirst := false
  initialValidationProgramHash := shatree frame validator
  initialMove := []
  initialMaxMoveSize := 5
  initialState := .nat 3
  initialMoverShare := 0
  myTurnHandler := handler
  theirTurnHandler := handler
  initialValidationProgram := validator

theorem factoryGame_record (index : ℕ) : factoryGame marketEnv index record = .ok marketGame := by
  rw [factoryGame, record, Clvm.properList_list]
  rfl

theorem factoryRecords_replicate (index k : ℕ) :
    factoryRecords marketEnv index (List.replicate k record) = .ok (List.replicate k marketGame) := by
  induction k generalizing index with
  | zero => rfl
  | succ k ih =>
    rw [List.replicate_succ, factoryRecords, factoryGame_record, ih]
    rfl

theorem runFactory_market {program parameters : Clvm} (k : ℕ)
    (h : market program parameters = some (.list (List.replicate (k + 1) record))) :
    runFactory marketEnv program parameters = .ok (List.replicate (k + 1) marketGame) := by
  have hrun : marketEnv.run program parameters = some (.list (List.replicate (k + 1) record)) := h
  have hgames := factoryRecords_replicate 0 (k + 1)
  rw [List.replicate_succ] at hrun hgames
  rw [runFactory, hrun, orError, ok_bind, Clvm.properList_list]
  exact hgames

theorem runFactory_single (parameters : Clvm) :
    runFactory marketEnv single parameters = .ok [marketGame] := runFactory_market 0 rfl

theorem runFactory_bulk (parameters : Clvm) :
    runFactory marketEnv bulk parameters = .ok (List.replicate 502 marketGame) := by
  refine runFactory_market 501 ?_
  rw [market, if_neg (by decide), if_pos rfl]

/-- Only the initiator knows the bulk. -/
def marketTypes (s : Bool) : List (Bytes × Option Clvm) :=
  if s then [([1], some single), ([2], some bulk)] else [([1], some single)]

def marketOpening (initiator : Bool) : Opening marketEnv where
  initiator
  setup := { setup with weStartWithPotato := !initiator }
  signatures := (ChannelState.opened marketEnv
    { setup with weStartWithPotato := !initiator }).peerSignaturesAt marketEnv 21 22 0
  startPotato := setup_startPotato initiator
  valid := setup_valid initiator
  channelKey := setup_channelKey
  unrollKey := setup_unrollKey
  verified := (ChannelState.verifies_iff _ _ rfl rfl).mpr rfl

def marketJoint : Joint where
  peer s := .fromCompletedHandshake (marketOpening s) (marketTypes s) []
  wire _ := []

theorem marketJoint_logged : Joint.Logged marketEnv (fun _ => []) marketJoint :=
  .start marketOpening marketTypes (fun _ => []) (fun _ => []) (fun _ => rfl) (fun _ => rfl)
    fun _ => rfl

def bulkOffer : GameProposal := ⟨[2], 15, .nil⟩

def singleOffer : GameProposal := ⟨[1], 15, .nil⟩

theorem bulk_answer : FactoryAnswer marketEnv (marketTypes true) bulkOffer
    (List.replicate 502 marketGame) := ⟨bulk, rfl, runFactory_bulk .nil⟩

theorem single_answer (s : Bool) : FactoryAnswer marketEnv (marketTypes s) singleOffer [marketGame] :=
  ⟨single, by cases s <;> rfl, runFactory_single .nil⟩

end Steady

/-- The initiator has made one proposal. -/
theorem game_ids_disciplined_offer :
    ∃ log j, log true = [1] ∧ Joint.Named Steady.marketEnv log j := by
  have hpropose := proposeGame_of_factory (E := Steady.marketEnv) (p := Steady.marketJoint.peer true)
    Steady.singleOffer rfl rfl rfl (List.cons_ne_nil _ _) (Steady.single_answer true)
  have hrun : runLocal Steady.marketEnv (.propose Steady.singleOffer) (Steady.marketJoint.peer true) =
      .ok [] { Steady.marketJoint.peer true with
        channelState := some { (Steady.marketOpening true).channel with myNextNonce := 3 }
        gameActionQueue := [proposalGroup Steady.singleOffer [Steady.marketGame] 1] } := by
    rw [runLocal, Act.bind_of_ok hpropose]
    rfl
  have hids : grantedIds Steady.marketEnv (.propose Steady.singleOffer)
      (Steady.marketJoint.peer true) = [1] := by
    rw [grantedIds]
    simp only [hpropose]
    rfl
  have hlogged := Steady.marketJoint_logged.act true (.propose Steady.singleOffer) hrun
  refine ⟨_, _, ?_, Joint.game_ids_disciplined hlogged fun s ch ch' hch hch' => ?_⟩
  · rw [Function.update_self, hids]
    rfl
  · cases s with
    | true =>
      cases hch
      cases hch'
      decide
    | false =>
      cases hch
      cases hch'
      decide

namespace Steady

/-- The initiator after its two proposals. -/
def bidder : OffChainPhase :=
  { OffChainPhase.fromCompletedHandshake (marketOpening true) (marketTypes true) [] with
    channelState := some { (marketOpening true).channel with myNextNonce := 1007 }
    gameActionQueue := [proposalGroup bulkOffer (List.replicate 502 marketGame) 1,
      proposalGroup singleOffer [marketGame] 1005] }

theorem bidder_logged : ∃ log j, Joint.Logged marketEnv log j ∧ j.peer true = bidder ∧
    j.peer false = marketJoint.peer false ∧ j.wire false = [] := by
  have hfirst := proposeGame_of_factory (E := marketEnv) (p := marketJoint.peer true)
    bulkOffer rfl rfl rfl
    (List.ne_nil_of_length_pos (by rw [List.length_replicate]; decide)) bulk_answer
  rw [List.length_replicate] at hfirst
  have hrun : runLocal marketEnv (.propose bulkOffer) (marketJoint.peer true) =
      .ok [] { marketJoint.peer true with
        channelState := some { (marketOpening true).channel with myNextNonce := 1005 }
        gameActionQueue := [proposalGroup bulkOffer (List.replicate 502 marketGame) 1] } := by
    rw [runLocal, Act.bind_of_ok hfirst]
    rfl
  have hsecond := proposeGame_of_factory (E := marketEnv)
    (p := { marketJoint.peer true with
      channelState := some { (marketOpening true).channel with myNextNonce := 1005 }
      gameActionQueue := [proposalGroup bulkOffer (List.replicate 502 marketGame) 1] })
    singleOffer rfl rfl rfl (List.cons_ne_nil _ _) (single_answer true)
  have hrun' : runLocal marketEnv (.propose singleOffer) { marketJoint.peer true with
      channelState := some { (marketOpening true).channel with myNextNonce := 1005 }
      gameActionQueue := [proposalGroup bulkOffer (List.replicate 502 marketGame) 1] } =
      .ok [] bidder := by
    rw [runLocal, Act.bind_of_ok hsecond]
    rfl
  have hlogged := marketJoint_logged.act true (.propose bulkOffer) hrun
  exact ⟨_, _, hlogged.act true (.propose singleOffer) hrun', rfl, rfl, rfl⟩

/-- The receiver declines the first group, for which it has no factory. -/
theorem bulk_declined {p : OffChainPhase} (htypes : p.gameTypes = marketTypes false)
    {wire : WireProposalGroup} (hwire : wire.start = bulkOffer) :
    Act.each (applyBatchAction marketEnv) [.proposeGroup wire] p =
      .ok ((supersededIds p.gameActionQueue).map fun id =>
          .notify (.proposalCancelled id .supersededByIncoming)) { p with
        gameActionQueue := p.gameActionQueue.filter fun action => !isProposalGroup action } := by
  have happly : applyProposeGroup marketEnv wire p =
      .ok ((supersededIds p.gameActionQueue).map fun id =>
          .notify (.proposalCancelled id .supersededByIncoming)) { p with
        gameActionQueue := p.gameActionQueue.filter fun action => !isProposalGroup action } := by
    rw [applyProposeGroup, Act.bind_of_ok (Act.get_apply p), Act.bind_of_ok (Act.modify_apply _ _),
      Act.bind_of_ok (Act.get_apply _), if_pos]
    · rfl
    · simp only [htypes, hwire]
      rfl
  rw [Act.each, applyBatchAction, Act.bind_of_ok happly]
  simp [Act.each]

theorem single_hydrated {p : OffChainPhase} (htypes : p.gameTypes = marketTypes false) (n : GameID) :
    hydrateWireProposalGroup marketEnv
      ⟨singleOffer, [marketGame.wireSpec n], n⟩ p =
        .ok [marketGame.gameStart n 15 false] p := by
  obtain ⟨program, hlookup, hrun⟩ := single_answer false
  have hfactory : factoryGames marketEnv singleOffer p = .ok [marketGame] p := by
    rw [factoryGames, Act.bind_of_ok (Act.get_apply _), htypes, hlookup]
    exact congrArg (fun r => Act.lift r p) hrun
  have hvalid : validateWireGroupStructure ⟨singleOffer, [marketGame.wireSpec n], n⟩ 1 =
      .ok [n] := by
    simp [validateWireGroupStructure, FactoryGame.wireSpec]
  rw [hydrateWireProposalGroup, Act.bind_of_ok hfactory]
  show (Act.lift (validateWireGroupStructure ⟨singleOffer, [marketGame.wireSpec n], n⟩ 1) >>= _) p = _
  rw [hvalid, Act.bind_of_ok (Act.lift_ok _ _), if_neg (by simp [membersMatch, FactoryGame.wireSpec])]
  rfl

theorem single_called {p : OffChainPhase} {ch : ChannelState}
    (htypes : p.gameTypes = marketTypes false) (hch : p.channelState = some ch)
    {wire : WireProposalGroup} (hwire : wire.start = bulkOffer) (n : GameID) :
    Called marketEnv p [.proposeGroup wire, .proposeGroup ⟨singleOffer, [marketGame.wireSpec n], n⟩]
      (marketGame.gameStart n 15 false) ch :=
  ⟨[.proposeGroup wire], ⟨singleOffer, [marketGame.wireSpec n], n⟩, [], _, _, _, ch, [], [], [], rfl,
    bulk_declined htypes hwire, single_hydrated (p := { p with
      gameActionQueue := (p.gameActionQueue.filter fun action => !isProposalGroup action).filter
        fun action => !isProposalGroup action }) htypes n, hch, rfl⟩

end Steady

/-- The first proposal uses up 502 numbers and is declined; the number of the second is then too far
ahead. -/
theorem declined_bulk_not_named :
    ∃ log j, Joint.Logged Steady.marketEnv log j ∧ ¬ Joint.Named Steady.marketEnv log j := by
  obtain ⟨log, j, hlogged, hbidder, hpeer, hwire⟩ := Steady.bidder_logged
  obtain ⟨signatures, p', hflush⟩ := flush_groups (E := Steady.marketEnv) (p := j.peer true)
    (by rw [hbidder]; rfl) (by rw [hbidder]; rfl) (by rw [hbidder]; rfl)
  have hsent := hlogged.act true .flush hflush
  have harrives := hsent.arrive false _ [] (by
    show j.wire false ++ _ = _
    rw [hwire]
    rfl)
  refine ⟨_, _, harrives, fun h => ?_⟩
  have htaken := h.taken false _ [] (by
    show (j.peer false).incomingMessages ++ [_] = _
    rw [hpeer]
    rfl) (Steady.marketGame.gameStart 1005 15 false) (Steady.marketOpening false).channel
  have htypes : (j.peer false).gameTypes = Steady.marketTypes false := by
    rw [hpeer]
    rfl
  have hchannel : (j.peer false).channelState = some (Steady.marketOpening false).channel := by
    rw [hpeer]
    rfl
  obtain ⟨-, -, hgap⟩ := htaken (Steady.single_called (by exact htypes) (by exact hchannel) rfl 1005)
  exact absurd hgap (by decide)

end ChiaGaming
