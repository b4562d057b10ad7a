import ChiaGaming.Lib.Token
import ChiaGaming.Session.Reach

namespace ChiaGaming

/-! Two players and the messages between them. -/

/-- The players by whether they initiated the handshake, each with the messages on the way to it. -/
structure Joint where
  peer : Bool → OffChainPhase
  wire : Bool → List PeerMessage

namespace Joint

/-- A player has moved on and sent messages. -/
def put (j : Joint) (s : Bool) (p : OffChainPhase) (out : List PeerMessage) : Joint where
  peer := Function.update j.peer s p
  wire := Function.update j.wire (!s) (j.wire (!s) ++ out)

/-- The first message on the way gets there. -/
def arrive (j : Joint) (s : Bool) (msg : PeerMessage) (rest : List PeerMessage) : Joint where
  peer := Function.update j.peer s
    { j.peer s with incomingMessages := (j.peer s).incomingMessages ++ [msg] }
  wire := Function.update j.wire s rest

/-- Everything that a player has not yet read. -/
def inbox (j : Joint) (s : Bool) : List PeerMessage := (j.peer s).incomingMessages ++ j.wire s

/-- A local action succeeds or fails, a message arrives, or the oldest message is read.  A message
that is refused sends the channel on chain. -/
inductive Step (E : ChannelEnv) (j : Joint) : Joint → Prop where
  | act (s : Bool) (input : LocalInput) {effects : List Effect} {p' : OffChainPhase}
      (h : OffChainPhase.runLocal E input (j.peer s) = .ok effects p') :
      Step E j (j.put s p' (messagesOf effects))
  | fail (s : Bool) (input : LocalInput) {e : Error} {p' : OffChainPhase}
      (h : OffChainPhase.runLocal E input (j.peer s) = .error e p') : Step E j (j.put s p' [])
  | arrive (s : Bool) (msg : PeerMessage) (rest : List PeerMessage) (h : j.wire s = msg :: rest) :
      Step E j (j.arrive s msg rest)
  | read (s : Bool) {effects : List Effect} {p' : OffChainPhase}
      (h : OffChainPhase.processQueuedMessage E (j.peer s) = .ok effects p')
      (hnext : p'.channelSpendNextPhase = none) : Step E j (j.put s p' (messagesOf effects))

/-- The runs of two players from the end of their handshake, of which messages may be left over. -/
inductive Reach (E : ChannelEnv) : Joint → Prop where
  | start (o : Bool → Opening E) (gameTypes : Bool → List (Bytes × Option Clvm))
      (incoming wire : Bool → List PeerMessage) (hrole : ∀ s, (o s).initiator = s)
      (hincoming : ∀ s, OffChainPhase.potatoMessages (incoming s) = [])
      (hwire : ∀ s, OffChainPhase.potatoMessages (wire s) = []) :
      Reach E ⟨fun s => .fromCompletedHandshake (o s) (gameTypes s) (incoming s), wire⟩
  | step {j j' : Joint} (h : Reach E j) (hstep : Step E j j') : Reach E j'

end Joint

/-! The potato is a token. -/

def PeerMessage.token? : PeerMessage → Option Token.Message
  | .batch b => some (.token b.cleanShutdown.isSome)
  | .requestPotato => some .request
  | _ => none

def tokensOf (messages : List PeerMessage) : List Token.Message :=
  messages.filterMap PeerMessage.token?

@[simp] theorem tokensOf_append (xs ys : List PeerMessage) :
    tokensOf (xs ++ ys) = tokensOf xs ++ tokensOf ys := List.filterMap_append

theorem tokensOf_potatoMessages (messages : List PeerMessage) :
    tokensOf (OffChainPhase.potatoMessages messages) = tokensOf messages := by
  rw [tokensOf, OffChainPhase.potatoMessages, List.filterMap_filter, tokensOf]
  congr 1
  funext msg
  cases msg <;> rfl

theorem tokensOf_of_potatoMessages {xs ys : List PeerMessage}
    (h : OffChainPhase.potatoMessages xs = OffChainPhase.potatoMessages ys) :
    tokensOf xs = tokensOf ys := by
  rw [← tokensOf_potatoMessages, h, tokensOf_potatoMessages]

def PotatoState.custody : PotatoState → Token.Custody
  | .absent => .idle
  | .requested => .asking
  | .present => .holding

theorem PotatoState.custody_injective : Function.Injective PotatoState.custody := by
  intro x y h
  cases x <;> cases y <;> first | rfl | cases h

namespace OffChainPhase

open Act

/-- A player as a party to the passing of the token. -/
def party (p : OffChainPhase) (inbox : List PeerMessage) : Token.Party where
  custody := p.havePotato.custody
  owes := p.peerWantsPotato
  closed := p.pendingCleanShutdown.isSome
  inbox := tokensOf inbox

variable {E : ChannelEnv} {p p' : OffChainPhase}

theorem party_receive (p : OffChainPhase) (inbox : List PeerMessage) (msg : PeerMessage)
    {token : Token.Message} (h : msg.token? = some token) :
    p.party (inbox ++ [msg]) = (p.party inbox).receive token := by
  simp [party, Token.Party.receive, tokensOf, h]

theorem Asks.party {messages inbox : List PeerMessage} (h : Asks E p p' messages)
    (q : OffChainPhase) (wire : List PeerMessage) :
    Token.Steps (p.party inbox) (q.party wire) (p'.party inbox) (q.party (wire ++ messages)) := by
  have hcustody := h.custody
  simp only [OffChainPhase.custody, Prod.mk.injEq] at hcustody
  obtain ⟨hwants, hpending, -, -⟩ := hcustody
  rcases h.potato with ⟨hpotato, rfl⟩ | ⟨hp, hp', rfl⟩
  · have hsame : p'.party inbox = p.party inbox := by
      rw [OffChainPhase.party, hpotato, hwants, hpending, OffChainPhase.party]
    rw [hsame, List.append_nil]
    exact .refl
  · have hasked : p'.party inbox = { p.party inbox with custody := .asking } := by
      rw [OffChainPhase.party, hp', hwants, hpending, OffChainPhase.party]
      rfl
    rw [hasked, party_receive q wire .requestPotato rfl]
    refine (Token.Step.ask ?_).steps
    rw [OffChainPhase.party, hp]
    rfl

theorem Sends.party {b : PeerBatch} {inbox : List PeerMessage} (h : Sends E p p' b)
    (q : OffChainPhase) (wire : List PeerMessage) :
    Token.Step (p.party inbox) (q.party wire) (p'.party inbox) (q.party (wire ++ [.batch b])) := by
  have hsent : p'.party inbox = { p.party inbox with
      custody := .idle
      owes := p'.peerWantsPotato
      closed := b.cleanShutdown.isSome || (p.party inbox).closed } := by
    rw [OffChainPhase.party, h.absent, h.shutdown]
    rfl
  rw [hsent, party_receive q wire (.batch b) rfl]
  refine Token.Step.send _ _ ?_
  rw [OffChainPhase.party, h.present]
  rfl

theorem Receives.party {b : PeerBatch} {rest : List PeerMessage} (h : Receives E p p' b)
    (hb : b.cleanShutdown = none) (y : Token.Party) :
    Token.Step (p.party (.batch b :: rest)) y (p'.party rest) y := by
  have hcustody := h.custody
  simp only [OffChainPhase.custody, Prod.mk.injEq] at hcustody
  obtain ⟨hwants, hpending, -, -⟩ := hcustody
  have htaken : p'.party rest = { p.party (.batch b :: rest) with
      custody := .holding
      inbox := tokensOf rest } := by
    rw [OffChainPhase.party, h.present, hwants, hpending]
    rfl
  rw [htaken]
  refine Token.Step.take _ ?_ ?_
  · simp [OffChainPhase.party, tokensOf, PeerMessage.token?, hb]
  · intro hholding
    exact h.missing (PotatoState.custody_injective hholding)

/-- A message that is read is a step of the token, unless it does not concern it. -/
theorem Reception.party {messages rest : List PeerMessage} {msg : PeerMessage}
    (h : Reception E p p' messages msg)
    (hshutdown : ∀ b, msg = .batch b → b.cleanShutdown = none) (q : OffChainPhase)
    (wire : List PeerMessage) :
    Token.Steps (p.party (msg :: rest)) (q.party wire) (p'.party rest)
      (q.party (wire ++ messages)) := by
  have hwire : ∀ messages', potatoMessages messages = potatoMessages messages' →
      q.party (wire ++ messages) = q.party (wire ++ messages') := by
    intro messages' hpotato
    rw [OffChainPhase.party, tokensOf_append, tokensOf_of_potatoMessages hpotato,
      ← tokensOf_append]
    rfl
  cases h with
  | quiet _ hbatch hrequest hasks hmessages =>
    have hskip : p.party (msg :: rest) = p.party rest := by
      cases msg with
      | batch b => exact absurd rfl (hbatch b)
      | requestPotato => exact absurd rfl hrequest
      | handshakeF => rfl
      | handshake => rfl
      | cleanShutdownComplete coinSpend => rfl
      | message gameId data => rfl
    rw [hskip, hwire [] hmessages]
    exact hasks.party q wire
  | ignored hpending hp hmessages =>
    subst hp hmessages
    rw [List.append_nil]
    exact (Token.Step.ignore (tokensOf rest) rfl hpending).steps
  | noted hmissing hp hmessages =>
    subst hp hmessages
    rw [List.append_nil]
    refine (Token.Step.note (tokensOf rest) rfl fun hholding => ?_).steps
    exact hmissing (PotatoState.custody_injective hholding)
  | passed b hsends hwants hmessages =>
    subst hmessages
    have hpassed : p'.party rest = { p.party (.requestPotato :: rest) with
        custody := .idle
        owes := false
        closed := b.cleanShutdown.isSome || (p.party (.requestPotato :: rest)).closed
        inbox := tokensOf rest } := by
      rw [OffChainPhase.party, hsends.absent, hwants, hsends.shutdown]
      rfl
    rw [hpassed, party_receive q wire (.batch b) rfl]
    refine (Token.Step.pass _ (tokensOf rest) rfl ?_).steps
    rw [OffChainPhase.party, hsends.present]
    rfl
  | kept b hreceives hmessages =>
    rw [hwire [] hmessages, List.append_nil]
    exact (hreceives.party (hshutdown b rfl) _).steps
  | returned b b' p₁ hreceives hsends hmessages =>
    rw [hwire [.batch b'] hmessages]
    exact (hreceives.party (hshutdown b rfl) _).steps.step (hsends.party q wire)

/-! The drains that a player runs. -/

/-- The states in which a player starts to drain its queue: as it flushes, and with the potato of a
batch that it has just verified. -/
inductive Drains (E : ChannelEnv) (p : OffChainPhase) : OffChainPhase → Prop where
  | flush (hp : p.havePotato = .present) : Drains E p { p with lastFailedQueuedAction := none }
  | receive (b : PeerBatch) {effects : List Effect} {p₁ : OffChainPhase} {ch : ChannelState}
      (happlied : applyActions E b.actions p = .ok effects p₁) (hch : p₁.channelState = some ch)
      (hverifies : ch.Verifies E (ch.stateNumber + 1) b.signatures) :
      Drains E p (aboutToDrain (ch.publishAt E (ch.stateNumber + 1) b.signatures)
        (b.actions.any isAcceptSettlement) (ch.received E b.signatures) p₁)

/-- The actions that a drain gets to, with the states it runs them in. -/
inductive Visits (E : ChannelEnv) (action : GameAction) (p' : OffChainPhase) :
    Drain → List GameAction → OffChainPhase → Prop where
  | here {d : Drain} {rest : List GameAction} {p : OffChainPhase} (h : p' = popped action rest p) :
      Visits E action p' d (action :: rest) p
  | later {d d₁ : Drain} {first : GameAction} {rest : List GameAction} {p p₁ : OffChainPhase}
      (hfirst : drainAction E d first (popped first rest p) = .ok d₁ p₁)
      (h : Visits E action p' d₁ rest p₁) : Visits E action p' d (first :: rest) p

/-- The assertion at the head of a settlement: the channel state has the potato. -/
def SettlesWithPotato (E : ChannelEnv) (p : OffChainPhase) : Prop :=
  ∀ gameId p', Visits E (.acceptSettlement gameId) p' .empty p.gameActionQueue p →
    ∃ ch, p'.channelState = some ch ∧ ch.havePotato = true

theorem Visits.mem {action : GameAction} {p p' : OffChainPhase} {d : Drain}
    {queue : List GameAction} (h : Visits E action p' d queue p) : action ∈ queue := by
  induction h with
  | here => exact List.mem_cons_self
  | later _ _ ih => exact List.mem_cons_of_mem _ ih

/-- The potato of the channel state does not move while the queue is drained. -/
theorem Visits.havePotato {action : GameAction} {p p' : OffChainPhase} {d : Drain}
    {queue : List GameAction} (h : Visits E action p' d queue p) {ch : ChannelState}
    (hch : p.channelState = some ch) :
    ∃ ch', p'.channelState = some ch' ∧ ch'.havePotato = ch.havePotato := by
  induction h generalizing ch with
  | @here d rest p h =>
    subst h
    exact ⟨ch, hch, rfl⟩
  | @later d d₁ first rest p p₁ hfirst _ ih =>
    have hevolves := moves_drainAction (E := E) d first (popped first rest p)
    rw [after_of_ok hfirst] at hevolves
    rcases hevolves with heq | ⟨ch₀, ch₁, hch₀, hch₁, hsteps⟩
    · exact ih (heq.trans hch)
    · obtain rfl : ch = ch₀ := Option.some.inj (hch.symm.trans hch₀)
      obtain ⟨ch', hch', hpotato⟩ := ih hch₁
      exact ⟨ch', hch', hpotato.trans (congrArg ChannelState.havePotato hsteps.core :)⟩

/-- From the first batch on, the phase and the channel state agree on who has the potato. -/
def Matched (p : OffChainPhase) : Prop :=
  ∃ ch, p.channelState = some ch ∧
    (0 < ch.stateNumber → (p.havePotato = .present ↔ ch.havePotato = true))

theorem Matched.asks (h : p.Matched) {messages : List PeerMessage} (hasks : Asks E p p' messages) :
    p'.Matched := by
  obtain ⟨ch, hch, hmatch⟩ := h
  have hpresent : p'.havePotato = .present ↔ p.havePotato = .present := by
    rcases hasks.potato with ⟨heq, -⟩ | ⟨hp, hp', -⟩
    · rw [heq]
    · rw [hp, hp']
      simp
  rcases hasks.evolves with heq | ⟨ch₁, ch₂, hch₁, hch₂, hsteps⟩
  · exact ⟨ch, heq.trans hch, fun hpos => hpresent.trans (hmatch hpos)⟩
  · obtain rfl : ch = ch₁ := Option.some.inj (hch.symm.trans hch₁)
    have hcore := hsteps.core
    have hnumber : ch₂.stateNumber = ch.stateNumber := (congrArg ChannelState.stateNumber hcore :)
    have hpotato : ch₂.havePotato = ch.havePotato := (congrArg ChannelState.havePotato hcore :)
    refine ⟨ch₂, hch₂, fun hpos => ?_⟩
    rw [hnumber] at hpos
    rw [hpotato]
    exact hpresent.trans (hmatch hpos)

theorem Sends.matched {b : PeerBatch} (h : Sends E p p' b) : p'.Matched := by
  obtain ⟨ch, ch₁, -, -, hch₁, -⟩ := h.channel
  refine ⟨_, hch₁, fun _ => ?_⟩
  rw [h.absent]
  simp [ChannelState.sent]

theorem Receives.matched {b : PeerBatch} (h : Receives E p p' b) : p'.Matched := by
  obtain ⟨ch, ch₁, ch₂, -, -, -, hsteps, hch₂⟩ := h.channel
  have hpotato : ch₂.havePotato = true := (congrArg ChannelState.havePotato hsteps.core :)
  refine ⟨_, hch₂, fun _ => ?_⟩
  rw [h.present, hpotato]
  simp

theorem Matched.reception (h : p.Matched) {messages : List PeerMessage} {msg : PeerMessage}
    (hreception : Reception E p p' messages msg) : p'.Matched := by
  cases hreception with
  | quiet _ _ _ hasks _ => exact h.asks hasks
  | ignored _ hp _ => exact hp ▸ h
  | noted _ hp _ => exact hp ▸ h
  | passed b hsends _ _ => exact hsends.matched
  | kept b hreceives _ => exact hreceives.matched
  | returned b b' p₁ _ hsends _ => exact hsends.matched

/-- A settlement of a player that has neither sent nor received a batch. -/
def EarlySettlement (p : OffChainPhase) : Prop :=
  (∃ ch, p.channelState = some ch ∧ ch.stateNumber = 0) ∧
    ∃ gameId, .acceptSettlement gameId ∈ p.gameActionQueue

theorem Matched.settlesWithPotato (h : p.Matched) (hearly : ¬ p.EarlySettlement)
    (hdrains : Drains E p p') : SettlesWithPotato E p' := by
  intro gameId p₁ hvisits
  cases hdrains with
  | flush hp =>
    obtain ⟨ch, hch, hmatch⟩ := h
    obtain ⟨ch', hch', hpotato⟩ := hvisits.havePotato hch
    have hpos : 0 < ch.stateNumber :=
      Nat.pos_of_ne_zero fun hzero => hearly ⟨⟨ch, hch, hzero⟩, gameId, hvisits.mem⟩
    exact ⟨ch', hch', hpotato.trans ((hmatch hpos).mp hp)⟩
  | receive b happlied hch hverifies =>
    -- the batch has brought the potato
    obtain ⟨ch', hch', hpotato⟩ := hvisits.havePotato rfl
    exact ⟨ch', hch', hpotato⟩

end OffChainPhase

namespace Joint

variable {E : ChannelEnv} {j j' : Joint}

def party (j : Joint) (s : Bool) : Token.Party := (j.peer s).party (j.inbox s)

theorem put_party (s : Bool) (p : OffChainPhase) (out : List PeerMessage) :
    (j.put s p out).party s = p.party (p.incomingMessages ++ j.wire s) ∧
      (j.put s p out).party (!s) = (j.peer (!s)).party (j.inbox (!s) ++ out) := by
  simp [party, inbox, put, Function.update]

theorem put_peer {P : OffChainPhase → Prop} (h : ∀ s, P (j.peer s)) {s : Bool} {p : OffChainPhase}
    (hp : P p) (out : List PeerMessage) (t : Bool) : P ((j.put s p out).peer t) := by
  by_cases hts : t = s
  · subst hts
    simpa [put] using hp
  · simpa [put, Function.update, hts] using h t

/-- What a run keeps: one token, and channel states that know it. -/
structure Sound (j : Joint) : Prop where
  safe : ∀ s, Token.Safe (j.party s) (j.party (!s))
  matched : ∀ s, (j.peer s).Matched

theorem safe_of_steps (h : j.Sound) {s : Bool}
    (hsteps : Token.Steps (j.party s) (j.party (!s)) (j'.party s) (j'.party (!s))) (t : Bool) :
    Token.Safe (j'.party t) (j'.party (!t)) := by
  have hsafe := hsteps.safe (h.safe s)
  by_cases hts : t = s
  · exact hts ▸ hsafe
  · obtain rfl : t = !s := by
      cases t <;> cases s <;> simp_all
    simpa using hsafe.symm

theorem Sound.put_asks (h : j.Sound) {s : Bool} {p : OffChainPhase} {messages : List PeerMessage}
    (hasks : OffChainPhase.Asks E (j.peer s) p messages) : (j.put s p messages).Sound := by
  have hincoming : p.incomingMessages = (j.peer s).incomingMessages :=
    (congrArg (fun c => c.2.2.1) hasks.custody :)
  obtain ⟨hmine, htheirs⟩ := j.put_party s p messages
  refine ⟨safe_of_steps h (s := s) ?_, put_peer h.matched ((h.matched s).asks hasks) _⟩
  rw [hmine, htheirs, hincoming]
  exact hasks.party _ _

theorem Sound.step (h : j.Sound) (hstep : Step E j j') : j'.Sound := by
  cases hstep with
  | act s input hr =>
    cases OffChainPhase.runLocal_ok hr with
    | asks hasks => exact h.put_asks hasks
    | sends b hsends hwants hmessages =>
      obtain ⟨hmine, htheirs⟩ := j.put_party s _ (messagesOf _)
      refine ⟨safe_of_steps h (s := s) ?_, put_peer h.matched hsends.matched _⟩
      rw [hmine, htheirs, hsends.messages, hmessages]
      exact (hsends.party _ _).steps
  | fail s input hr => exact h.put_asks (OffChainPhase.runLocal_error hr)
  | arrive s msg rest hwire =>
    have hparty : (j.arrive s msg rest).party = j.party := by
      funext t
      by_cases hts : t = s
      · subst hts
        simp [party, inbox, Joint.arrive, hwire, OffChainPhase.party]
      · simp [party, inbox, Joint.arrive, Function.update, hts]
    refine ⟨fun t => hparty ▸ h.safe t, fun t => ?_⟩
    by_cases hts : t = s
    · subst hts
      simp only [Joint.arrive, Function.update_self]
      exact h.matched t
    · simpa [Joint.arrive, Function.update, hts] using h.matched t
  | @read s effects p' hr hnext =>
    rcases OffChainPhase.processQueuedMessage_ok hr with ⟨-, rfl, rfl⟩ | ⟨msg, rest, hincoming, hread⟩
    · exact h.put_asks (OffChainPhase.Asks.refl (E := E) _)
    · have hreception := OffChainPhase.processMessage_ok hread hnext
      have hrest : p'.incomingMessages = rest := hreception.incoming
      have hinbox : j.inbox s = msg :: (rest ++ j.wire s) := by
        rw [inbox, hincoming]
        rfl
      obtain ⟨hmine, htheirs⟩ := j.put_party s p' (messagesOf effects)
      refine ⟨safe_of_steps h (s := s) ?_, put_peer h.matched ?_ _⟩
      · rw [hmine, htheirs, hrest, party, hinbox]
        refine hreception.party ?_ _ _
        rintro b rfl
        exact (OffChainPhase.processMessage_batch_ok hread hnext).1
      · have hmatched : ({ j.peer s with incomingMessages := rest } : OffChainPhase).Matched :=
          h.matched s
        exact hmatched.reception hreception

theorem Reach.sound (h : Reach E j) : j.Sound := by
  induction h with
  | start o gameTypes incoming wire hrole hincoming hwire =>
    have hinbox : ∀ s, tokensOf (incoming s ++ wire s) = [] := by
      intro s
      rw [← tokensOf_potatoMessages, OffChainPhase.potatoMessages_append, hincoming, hwire]
      rfl
    have hparty : ∀ s, party ⟨fun s => .fromCompletedHandshake (o s) (gameTypes s) (incoming s),
        wire⟩ s = ⟨if s then .holding else .idle, false, false, []⟩ := by
      intro s
      simp only [party, inbox, OffChainPhase.party, OffChainPhase.fromCompletedHandshake, hrole,
        hinbox]
      cases s <;> rfl
    have hsafe : Token.Safe (party ⟨fun s => .fromCompletedHandshake (o s) (gameTypes s) (incoming s),
        wire⟩ true) (party ⟨fun s => .fromCompletedHandshake (o s) (gameTypes s) (incoming s),
        wire⟩ false) := by
      rw [hparty, hparty]
      exact ⟨rfl, Token.heard_of_ne (by simp), Token.heard_of_ne (by simp),
        fun hclosed => (by cases hclosed), fun hclosed => (by cases hclosed)⟩
    refine ⟨fun s => ?_, fun s => ⟨_, rfl, fun hpos => absurd hpos (by exact Nat.lt_irrefl 0)⟩⟩
    cases s with
    | true => exact hsafe
    | false => exact hsafe.symm
  | step _ hstep ih => exact ih.step hstep

/-! The potato in the words of the session. -/

def present (j : Joint) (s : Bool) : ℕ := if (j.peer s).havePotato = .present then 1 else 0

def isBatch : PeerMessage → Bool
  | .batch _ => true
  | _ => false

/-- The batches that are not yet read. -/
def inFlight (j : Joint) : ℕ := (j.inbox true).countP isBatch + (j.inbox false).countP isBatch

/-- The potato is in one place, no request for it is lost, and the settlements find it. -/
structure Disciplined (E : ChannelEnv) (j : Joint) : Prop where
  exclusive : j.present true + j.present false + j.inFlight = 1
  -- the state number counts the batches that the player has sent and received
  coincides : ∀ s, ∃ ch, (j.peer s).channelState = some ch ∧
    (0 < ch.stateNumber → ((j.peer s).havePotato = .present ↔ ch.havePotato = true))
  requested : ∀ s, (j.peer s).havePotato = .requested → .requestPotato ∈ j.inbox (!s) ∨
    (j.peer (!s)).peerWantsPotato = true ∨ ∃ b, .batch b ∈ j.inbox s
  noDouble : ∀ s b, .batch b ∈ j.inbox s → (j.peer s).havePotato ≠ .present
  asserted : ∀ s p, OffChainPhase.Drains E (j.peer s) p → OffChainPhase.SettlesWithPotato E p

theorem tokens_party (s : Bool) : (j.party s).tokens = j.present s + (j.inbox s).countP isBatch := by
  have hcount : (tokensOf (j.inbox s)).countP Token.Message.isToken = (j.inbox s).countP isBatch := by
    rw [tokensOf, List.countP_filterMap]
    congr 1
    funext msg
    cases msg <;> rfl
  rw [Token.Party.tokens, party, OffChainPhase.party, hcount, present]
  cases (j.peer s).havePotato <;> rfl

theorem mem_inbox_request {s : Bool} (h : .request ∈ (j.party s).inbox) :
    .requestPotato ∈ j.inbox s := by
  obtain ⟨msg, hmem, htoken⟩ := List.mem_filterMap.mp h
  cases msg with
  | requestPotato => exact hmem
  | batch b => cases htoken
  | handshakeF => cases htoken
  | handshake => cases htoken
  | cleanShutdownComplete coinSpend => cases htoken
  | message gameId data => cases htoken

theorem mem_inbox_token {s last : Bool} (h : .token last ∈ (j.party s).inbox) :
    ∃ b, .batch b ∈ j.inbox s := by
  obtain ⟨msg, hmem, htoken⟩ := List.mem_filterMap.mp h
  cases msg with
  | batch b => exact ⟨b, hmem⟩
  | requestPotato => cases htoken
  | handshakeF => cases htoken
  | handshake => cases htoken
  | cleanShutdownComplete coinSpend => cases htoken
  | message gameId data => cases htoken

/-- In every run, the potato is in one place.  The initiator's channel state does not know that it
has it before its first batch, so that a settlement must not come earlier. -/
theorem potato_disciplined (h : Reach E j) (hearly : ∀ s, ¬ (j.peer s).EarlySettlement) :
    Disciplined E j := by
  have hsound := h.sound
  refine ⟨?_, hsound.matched, ?_, ?_, ?_⟩
  · have hone := (hsound.safe true).one
    rw [Bool.not_true, tokens_party, tokens_party] at hone
    rw [inFlight]
    omega
  · intro s hrequested
    have hasking : (j.party s).custody = .asking := by
      rw [party, OffChainPhase.party, hrequested]
      rfl
    rcases (hsound.safe s).heard hasking with hmem | howes | ⟨last, hmem⟩
    · exact .inl (mem_inbox_request hmem)
    · exact .inr (.inl howes)
    · exact .inr (.inr (mem_inbox_token hmem))
  · intro s b hmem hpresent
    have htoken : .token b.cleanShutdown.isSome ∈ (j.party s).inbox :=
      List.mem_filterMap.mpr ⟨_, hmem, rfl⟩
    refine (hsound.safe s).not_holding htoken ?_
    rw [party, OffChainPhase.party, hpresent]
    rfl
  · intro s p hdrains
    exact (hsound.matched s).settlesWithPotato (hearly s) hdrains

end Joint

namespace Steady

/-- The players of the steady game after their handshake. -/
def joint : Joint where
  peer s := .fromCompletedHandshake (opening s) [] []
  wire _ := []

theorem joint_reach : Joint.Reach channelEnv joint :=
  .start opening (fun _ => []) (fun _ => []) (fun _ => []) (fun _ => rfl) (fun _ => rfl) fun _ => rfl

end Steady

/-- The receiver has asked for the potato. -/
theorem potato_disciplined_asked :
    ∃ j, Joint.Reach Steady.channelEnv j ∧ (j.peer false).havePotato = .requested ∧
      Joint.Disciplined Steady.channelEnv j := by
  have hstep : Joint.Step Steady.channelEnv Steady.joint
      (Steady.joint.put false { Steady.joint.peer false with
        gameActionQueue := [.move 1 .nil []]
        havePotato := .requested } (messagesOf [.peerRequestPotato])) :=
    .act false (.move 1 .nil []) rfl
  refine ⟨_, Steady.joint_reach.step hstep, rfl,
    Joint.potato_disciplined (Steady.joint_reach.step hstep) ?_⟩
  rintro (_ | _) ⟨-, gameId, hmem⟩
  · simp [Joint.put, Steady.joint] at hmem
  · simp [Joint.put, Steady.joint, OffChainPhase.fromCompletedHandshake] at hmem

/-- The initiator settles before its first batch: it has the potato, and its channel state has it
not. -/
theorem early_settlement_not_disciplined :
    ∃ j, Joint.Reach Steady.channelEnv j ∧ ¬ Joint.Disciplined Steady.channelEnv j := by
  have hstep : Joint.Step Steady.channelEnv Steady.joint
      (Steady.joint.put true { Steady.joint.peer true with
        gameActionQueue := [.acceptSettlement 1] } (messagesOf [])) :=
    .act true (.settle 1) rfl
  refine ⟨_, Steady.joint_reach.step hstep, fun h => ?_⟩
  obtain ⟨ch, hch, hpotato⟩ := h.asserted true _ (.flush rfl) 1 _ (.here rfl)
  obtain rfl := Option.some.inj hch
  cases hpotato

end ChiaGaming
