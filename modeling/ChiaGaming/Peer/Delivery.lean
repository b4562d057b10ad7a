import ChiaGaming.Peer.Transport

namespace ChiaGaming

namespace Peer

variable {G A : Type} {Γ : Traffic} {host : Host} {k : ℕ}

/-! Nothing is let go of before the other player has stored it. -/

/-- Every message above `k` is still there to be sent. -/
def Keeps (k : ℕ) (numbered : List Bytes) (unacked : List Outbound) : Prop :=
  ∀ n, k < n → n ≤ numbered.length → ∃ e ∈ unacked, e.msgno = n

theorem Keeps.mono {numbered : List Bytes} {unacked : List Outbound} {k' : ℕ} (h : Keeps k numbered unacked)
    (hk : k ≤ k') : Keeps k' numbered unacked := fun n hn => h n (hk.trans_lt hn)

/-- No acknowledgement above `k` has left. -/
def Honest (k : ℕ) (sent : List Bytes) : Prop :=
  ∀ frame ∈ sent, ∀ n, deliverRawPeerMessage frame = some (.ack n) → n ≤ k

theorem Honest.mono {sent : List Bytes} {k' : ℕ} (h : Honest k sent) (hk : k ≤ k') : Honest k' sent :=
  fun frame hframe n hn => (h frame hframe n hn).trans hk

theorem Honest.append {sent frames : List Bytes} (h : Honest k sent) (h' : Honest k frames) :
    Honest k (sent ++ frames) := by
  intro frame hframe
  rcases List.mem_append.mp hframe with hframe | hframe
  · exact h frame hframe
  · exact h' frame hframe

theorem honest_message (e : Outbound) : Honest k [buildFrame 1 e.msgno e.msg] := by
  intro frame hframe n hn
  rw [List.mem_singleton.mp hframe, deliver_message] at hn
  cases hn

theorem honest_ack {m : ℕ} (hm : m ≤ k) : Honest k [buildFrame 2 m []] := by
  intro frame hframe n hn
  rw [List.mem_singleton.mp hframe, deliver_ack] at hn
  injection Option.some.inj hn with hn
  rw [← hn]
  exact (Nat.mod_le _ _).trans hm

section Move

variable {s s' : SessionController G}

theorem numberMessage_numbered (msg : Bytes) : (s.numberMessage msg).history.numbered = s.history.numbered ++ [msg] := by
  unfold SessionController.numberMessage SessionController.markNeedsImmediateDurability
  split_ifs <;> rfl

theorem numberMessage_unackedMessages (msg : Bytes) :
    (s.numberMessage msg).unackedMessages = s.unackedMessages ++ [⟨s.messageNumber, msg⟩] := by
  unfold SessionController.numberMessage SessionController.markNeedsImmediateDurability
  split_ifs <;> rfl

theorem Keeps.number (hs : Keeps k s.history.numbered s.unackedMessages)
    (hmessage : s.messageNumber = s.history.numbered.length + 1) (msg : Bytes) :
    Keeps k (s.numberMessage msg).history.numbered (s.numberMessage msg).unackedMessages := by
  rw [numberMessage_numbered, numberMessage_unackedMessages]
  intro n hlt hle
  rw [List.length_append, List.length_singleton] at hle
  rcases Nat.lt_or_ge s.history.numbered.length n with hnew | hold
  · exact ⟨_, List.mem_append_right _ List.mem_cons_self, by dsimp only; omega⟩
  · obtain ⟨e, he, rfl⟩ := hs n hlt hold
    exact ⟨e, List.mem_append_left _ he, rfl⟩

/-- An acknowledgement takes away only what it covers. -/
theorem Keeps.prune {numbered : List Bytes} {unacked : List Outbound} (hs : Keeps k numbered unacked)
    {q : Outbound → Bool} {m : ℕ} (hq : ∀ e, q e = false → e.msgno ≤ m) (hm : m ≤ k) :
    Keeps k numbered (unacked.filter q) := by
  intro n hlt hle
  obtain ⟨e, he, rfl⟩ := hs n hlt hle
  refine ⟨e, List.mem_filter.mpr ⟨he, ?_⟩, rfl⟩
  by_contra hnot
  exact absurd ((hq e (Bool.not_eq_true _ ▸ hnot)).trans hm) (Nat.not_le_of_lt hlt)

theorem Move.keeps (h : Move Γ s s') (hΓ : ∀ n, Γ.acked n → n ≤ k)
    (hmessage : s.cradle.isSome → s.messageNumber = s.history.numbered.length + 1)
    (hrunning : s'.protocolStopped = false) (hs : Keeps k s.history.numbered s.unackedMessages) :
    Keeps k s'.history.numbered s'.unackedMessages := by
  cases h with
  | quiet h =>
    rw [h.history, h.unackedMessages]
    exact hs
  | number msg hsome => exact hs.number (hmessage hsome) msg
  | consume g msg _ _ =>
    rw [SessionController.owe_history]
    unfold SessionController.owe SessionController.markNeedsImmediateDurability
    split_ifs <;> exact hs
  | prune q n hacked hq => exact hs.prune hq (hΓ n hacked)
  | stop => cases hrunning
  | _ => exact hs

theorem Moves.keeps (h : Moves Γ s s') (hΓ : ∀ n, Γ.acked n → n ≤ k) (hsound : Sound Γ s)
    (hfits : s'.history.numbered.length < 2 ^ 32) (hrunning : s'.protocolStopped = false)
    (hs : Keeps k s.history.numbered s.unackedMessages) : Keeps k s'.history.numbered s'.unackedMessages := by
  induction h with
  | refl => exact hs
  | tail hbefore h ih =>
    have hshort := lt_of_le_of_lt h.history.1.length_le hfits
    exact h.keeps hΓ (Moves.sound hbefore hsound hshort).messageNumber hrunning
      (ih hshort (Moves.running (.single h) hrunning))

theorem Move.honest (h : Move Γ s s') (hΓ : ∀ n, Γ.acknowledges n → n ≤ k) (hs : Honest k s.sent) :
    Honest k s'.sent := by
  cases h with
  | quiet h =>
    rw [h.sent]
    exact hs
  | number msg _ =>
    unfold SessionController.numberMessage SessionController.markNeedsImmediateDurability
    split_ifs <;> exact hs
  | consume g msg _ _ =>
    unfold SessionController.owe SessionController.markNeedsImmediateDurability
    split_ifs <;> exact hs
  | sendMessage e _ _ => exact hs.append (honest_message e)
  | sendAck n hn => exact hs.append (honest_ack (hΓ n hn))
  | _ => exact hs

theorem Moves.honest (h : Moves Γ s s') (hΓ : ∀ n, Γ.acknowledges n → n ≤ k) (hs : Honest k s.sent) :
    Honest k s'.sent := by
  induction h with
  | refl => exact hs
  | tail _ h ih => exact h.honest hΓ ih

theorem SessionController.Flushed.honest {outboundCount ackCount : ℕ}
    (h : SessionController.Flushed outboundCount ackCount s s') (hacks : ∀ n ∈ s.pendingAcks.take ackCount, n ≤ k)
    (hs : Honest k s.sent) : Honest k s'.sent := by
  obtain ⟨outbound, acks, needs, frames, handoff, rfl, -, -, -, hframes⟩ := h
  refine hs.append fun frame hframe n hn => ?_
  rcases hframes frame hframe with ⟨e, -, rfl⟩ | ⟨m, hm, rfl⟩
  · exact honest_message (k := k) e _ List.mem_cons_self n hn
  · exact honest_ack (hacks m hm) _ List.mem_cons_self n hn

end Move

/-! A page that has not ended. -/

namespace Party

/-- The other player has stored the messages up to `k`. -/
structure Kept (k : ℕ) (p : Party G) : Prop where
  live : p.Live
  honest : Honest p.storedHistory.consumed.length p.ctl.sent
  unacked : p.ctl.cradle.isSome → Keeps k p.ctl.history.numbered p.ctl.unackedMessages
  saves : ∀ c ∈ p.saves, Keeps k c.history.numbered c.unackedMessages

variable {p : Party G}

theorem Kept.mono {k' : ℕ} (h : Kept k p) (hk : k ≤ k') : Kept k' p :=
  ⟨h.live, h.honest, fun hsome => (h.unacked hsome).mono hk, fun c hc => (h.saves c hc).mono hk⟩

theorem Kept.initial : Kept k (Party.initial : Party G) where
  live := ⟨rfl, rfl⟩
  honest := fun _ hframe => absurd hframe List.not_mem_nil
  unacked h := by cases h
  saves c hc := absurd hc List.not_mem_nil

/-- The storage has moved on, and has no save that was not there. -/
theorem Kept.storage {p' : Party G} (hk : Kept k p) (hctl : p'.ctl = p.ctl)
    (hle : p.storedHistory.Le p'.storedHistory) (hsaves : ∀ c ∈ p'.saves, c ∈ p.saves) : Kept k p' where
  live := by
    unfold Live
    rw [hctl]
    exact hk.live
  honest := by
    rw [hctl]
    exact hk.honest.mono hle.2.length_le
  unacked := by
    rw [hctl]
    exact hk.unacked
  saves c hc := hk.saves c (hsaves c hc)

/-- The controller has moved on from a state that keeps as much. -/
theorem Kept.moves {s s' : SessionController G} (hk : Kept k p) (hs : Peer.Sound Γ s) (h : Moves Γ s s')
    (hsent : s.sent = p.ctl.sent) (hkeeps : s.cradle.isSome → Keeps k s.history.numbered s.unackedMessages)
    (hΓ : ∀ n, Γ.acked n → n ≤ k) (hacknowledges : ∀ n, Γ.acknowledges n → n ≤ p.storedHistory.consumed.length)
    (hfits : s'.history.numbered.length < 2 ^ 32) (hlive : { p with ctl := s' }.Live) : Kept k { p with ctl := s' } where
  live := hlive
  honest := Moves.honest h hacknowledges (by rw [hsent]; exact hk.honest)
  unacked hsome := Moves.keeps h hΓ hs hfits hlive.1 (hkeeps (Moves.cradle h ▸ hsome))
  saves := hk.saves

theorem Kept.flushed {s : SessionController G} {outboundCount ackCount : ℕ} (hk : Kept k p)
    (h : SessionController.Flushed outboundCount ackCount p.ctl s)
    (hacks : ∀ n ∈ p.ctl.pendingAcks.take ackCount, n ≤ p.storedHistory.consumed.length) (flush : Option Flush) :
    Kept k { p with ctl := s, flush } where
  live := by
    obtain ⟨outbound, acks, needs, frames, handoff, rfl, -⟩ := h
    exact hk.live
  honest := h.honest hacks hk.honest
  unacked := by
    obtain ⟨outbound, acks, needs, frames, handoff, rfl, -⟩ := h
    exact hk.unacked
  saves := hk.saves

theorem Kept.save (hk : Kept k p) : Kept k p.save := by
  unfold Party.save
  cases hsnapshot : p.ctl.snapshot with
  | none => exact hk
  | some snapshot =>
    refine ⟨hk.live, hk.honest, hk.unacked, fun c hc => ?_⟩
    rcases mem_saves.mp hc with h | h | h
    · exact hk.saves c (mem_saves.mpr (.inl h))
    · exact hk.saves c (mem_saves.mpr (.inr (.inl h)))
    · obtain ⟨g, hcradle, rfl⟩ := Option.map_eq_some_iff.mp hsnapshot
      rw [← Option.some.inj h]
      exact hk.unacked (by rw [hcradle]; rfl)

/-- The traffic of a page: it may be acknowledged what the other has stored, and may acknowledge what it has stored
itself. -/
def keptTraffic (k : ℕ) (p : Party G) : Traffic :=
  ⟨fun _ _ => True, (· ≤ k), (· ≤ p.storedHistory.numbered.length), (· ≤ p.storedHistory.consumed.length)⟩

section Steps

variable [ChiaGame G A] {input : Input G A} {Γ₀ : Traffic}

theorem Durable.stored_next (hp : p.Durable) (host : Host) (input : Input G A) :
    p.storedHistory.Le (p.next host input).storedHistory := by
  have hsame (p' : Party G) (hdisk : p'.disk = p.disk) : p.storedHistory.Le p'.storedHistory := by
    unfold storedHistory
    rw [hdisk]
    exact .refl _
  cases input with
  | save =>
    refine hsame p.save ?_
    unfold Party.save
    split <;> rfl
  | beginFlush =>
    refine hsame (p.beginFlush host) ?_
    unfold Party.beginFlush Party.save
    split_ifs
    · rfl
    · split <;> rfl
    · rfl
  | queueWrite awaited =>
    refine hsame (p.queueWrite awaited) ?_
    unfold Party.queueWrite
    split <;> rfl
  | write =>
    change p.storedHistory.Le p.write.storedHistory
    unfold Party.write
    cases hwrites : p.writes with
    | nil => exact .refl _
    | cons w rest => exact (hp.timeline_written hwrites p.flush).1
  | failWrite =>
    refine hsame p.failWrite ?_
    unfold Party.failWrite
    split <;> rfl
  | finishFlush =>
    refine hsame (p.finishFlush host) ?_
    unfold Party.finishFlush
    split
    · split_ifs <;> rfl
    · rfl
  | restore observations =>
    refine hsame (p.restore host observations) ?_
    unfold Party.restore
    split <;> rfl
  | newSession g =>
    refine hsame (p.newSession host g) ?_
    unfold Party.newSession
    split <;> rfl
  | _ => exact hsame _ rfl

theorem Kept.beginFlush (hk : Kept k p) (hp : p.Durable) : Kept k (p.beginFlush host) := by
  unfold Party.beginFlush
  split_ifs with hbusy hneeds
  · exact hk
  · exact hk.save.storage rfl (.refl _) fun _ h => h
  · obtain ⟨-, hacks, -⟩ := hp.stored.needs hk.live.1 (Bool.not_eq_true _ ▸ hneeds)
    refine hk.flushed (SessionController.sendPending_flushed _ _ _) (fun n hn => ?_) p.flush
    rw [hacks] at hn
    exact absurd hn List.not_mem_nil

theorem Kept.finishFlush (hk : Kept k p) (hp : p.Durable) : Kept k (p.finishFlush host) := by
  unfold Party.finishFlush
  split
  · next outboundCount ackCount hf =>
    rw [if_neg (by rw [hk.live.1]; decide)]
    exact hk.flushed (SessionController.sendPending_flushed _ _ _) (hp.flush hk.live.1 _ hf).acks none
  · exact hk

theorem Kept.reload (hk : Kept k p) : Kept k (p.reload host) := by
  unfold Party.reload
  rw [new_kickSystem]
  refine ⟨⟨rfl, rfl⟩, hk.honest, fun hsome => (by cases hsome), fun c hc => hk.saves c (mem_saves.mpr (.inl ?_))⟩
  rcases mem_saves.mp hc with h | ⟨w, hw, -⟩ | h
  · exact h
  · exact absurd hw List.not_mem_nil
  · exact h

theorem Kept.next (hk : Kept k p) (hp : p.Durable) (hs : p.Sound Γ₀) (hcareful : p.Careful host input)
    (hacked : ∀ payload, input = .receive payload → ∀ n, deliverRawPeerMessage payload = some (.ack n) → n ≤ k)
    (hfits : (p.next host input).ctl.history.numbered.length < 2 ^ 32) (hlive : (p.next host input).Live) :
    Kept k (p.next host input) := by
  have hallows : Allows (keptTraffic k p) p host input := by
    refine ⟨fun _ => Iff.rfl, fun n hn => ?_⟩
    rcases hn with hn | hn | hn
    · exact hn
    · exact absurd hk.live hn
    · exact absurd hlive hn
  have hsound : p.Sound (keptTraffic k p) := hs.mono fun _ _ _ => trivial
  have hacknowledges (n : ℕ) (hn : (keptTraffic k p).acknowledges n) : n ≤ p.storedHistory.consumed.length := hn
  have hon {s : SessionController G} (h : Moves (keptTraffic k p) p.ctl s)
      (hfits : s.history.numbered.length < 2 ^ 32) (hlive : { p with ctl := s }.Live) : Kept k { p with ctl := s } :=
    hk.moves hsound.ctl h rfl hk.unacked (fun _ hn => hn) hacknowledges hfits hlive
  cases input with
  | receive payload =>
    have hadmits (frame : PeerFrame) (hframe : deliverRawPeerMessage payload = some frame) :
        (keptTraffic k p).admits frame := by
      cases frame with
      | ack n => exact hacked payload rfl n hframe
      | _ => trivial
    exact hon (hp.receive_moves hs hallows hsound.ctl.held hadmits hcareful) hfits hlive
  | call a => exact hon (SessionController.callSession_moves a) hfits hlive
  | goOnChain => exact hon SessionController.goOnChain_moves hfits hlive
  | drain => exact hon (SessionController.drainOneEvent_moves hs.ctl.idle) hfits hlive
  | reconnect =>
    exact hon (SessionController.resendUnacked_moves
      fun hresend => hp.retransmits hallows hresend (hcareful hresend)) hfits hlive
  | save => exact hk.save
  | beginFlush => exact hk.beginFlush hp
  | queueWrite awaited =>
    exact hk.storage (queueWrite_ctl p awaited) (hp.stored_next host (.queueWrite awaited : Input G A))
      fun c hc => queueWrite_saves p awaited hc
  | write => exact hk.storage (write_ctl p) (hp.stored_next host (.write : Input G A)) fun c hc => write_saves p hc
  | failWrite =>
    exact hk.storage (failWrite_ctl p) (hp.stored_next host (.failWrite : Input G A)) fun c hc => failWrite_saves p hc
  | finishFlush => exact hk.finishFlush hp
  | cleanup => exact hon SessionController.cleanup_moves hfits hlive
  | reload => exact hk.reload
  | restore observations =>
    change Kept k (p.restore host observations)
    rcases restore_cases p host observations with h | ⟨c, hnone, hdisk, h⟩
    · rw [h]
      exact hk
    · have hquiet : Quiet p.ctl (p.ctl.kickSystem host 1) := SessionController.quiet_kickSystem 1 hnone
      have hmoves := hp.restore_moves hs hallows hsound.ctl.held hcareful hnone hdisk h
      have hloaded := hsound.loaded hnone c.cradle hquiet hdisk
      change (p.restore host observations).ctl.history.numbered.length < 2 ^ 32 at hfits
      change (p.restore host observations).Live at hlive
      rw [h] at hfits hlive ⊢
      exact hk.moves hloaded hmoves hquiet.sent (fun _ => hk.saves c (mem_saves.mpr (.inl hdisk))) (fun _ hn => hn)
        hacknowledges hfits hlive
  | newSession g =>
    change Kept k (p.newSession host g)
    rcases newSession_cases (A := A) p host g with h | ⟨hnone, hdisk, h⟩
    · rw [h]
      exact hk
    · have hquiet : Quiet p.ctl (p.ctl.kickSystem host 1) := SessionController.quiet_kickSystem 1 hnone
      have hmoves := hp.newSession_moves hs hallows hsound.ctl.held hcareful hnone hdisk h
      have hempty : p.storedHistory = ⟨[], []⟩ := by
        rw [storedHistory, hdisk]
        rfl
      have hinstalled := hsound.install hnone g hquiet hempty
      change (p.newSession host g).ctl.history.numbered.length < 2 ^ 32 at hfits
      change (p.newSession host g).Live at hlive
      rw [h] at hfits hlive ⊢
      refine hk.moves hinstalled hmoves hquiet.sent (fun _ n hlt hle => ?_) (fun _ hn => hn) hacknowledges hfits hlive
      have hnumbered : (p.ctl.kickSystem host 1).history.numbered = [] := by
        rw [hquiet.history, (hs.fresh hnone).history, hempty]
      dsimp only at hle
      rw [hnumbered, List.length_nil] at hle
      omega

end Steps

end Party

/-! Both pages. -/

namespace Link

open Journal (At)

variable [ChiaGame G A] {T : Link G}

/-- Careful pages that have neither ended their session nor gone on chain. -/
def Steady (p : Party G) (host : Host) (input : Party.Input G A) : Prop :=
  p.Careful host input ∧ (p.next host input).Live

theorem Run.steady (h : Run (Steady (A := A)) T) :
    ∀ b, (T.party b).Sound (T.openTraffic b) ∧ (T.party b).Durable := h.durable fun _ _ _ hcond => hcond.1

theorem Run.kept (h : Run (Steady (A := A)) T) :
    ∀ b, (T.party b).Kept (T.party !b).storedHistory.consumed.length := by
  induction h with
  | start => exact fun _ => Party.Kept.initial
  | @step T b host input hrun hreceived hcond hfits ih =>
    have hstate := hrun.steady
    refine both_pages b ?_ ?_
    · rw [put_self, put_not]
      refine (ih b).next (hstate b).2 (hstate b).1 hcond.1 (fun payload hpayload n hn => ?_) hfits hcond.2
      exact (ih (!b)).honest payload (hreceived payload hpayload) n hn
    · rw [put_not, Bool.not_not, put_self]
      have hk := ih (!b)
      rw [Bool.not_not] at hk
      exact hk.mono ((hstate b).2.stored_next host input).2.length_le

/-- What has been taken is a beginning of what the other player has stored. -/
theorem consumed_prefix_stored {b : Bool} (hb : (T.party b).Sound (T.openTraffic b))
    (hother : (T.party !b).Sound (T.openTraffic !b)) (hcovered : (T.party !b).Covered) :
    (T.party b).ctl.history.consumed <+: (T.party !b).storedHistory.numbered := by
  refine Journal.prefix_of_at fun n msg hn => ?_
  obtain ⟨frame, hframe, hmessage⟩ := hb.ctl.consumed n msg hn
  exact (hother.ctl.sent frame hframe n msg hmessage).within (Party.storedHistory_within hother)
    (hcovered frame hframe n msg hmessage)

theorem Run.mono {cond cond' : Party G → Host → Party.Input G A → Prop} (h : Run cond T)
    (hcond : ∀ p host input, cond p host input → cond' p host input) : Run cond' T := by
  induction h with
  | start => exact .start
  | step b host input _ hreceived hstep hfits ih => exact .step b host input ih hreceived (hcond _ _ _ hstep) hfits

theorem Run.fits {cond : Party G → Host → Party.Input G A → Prop} (h : Run cond T) :
    ∀ b, (T.party b).ctl.history.numbered.length < 2 ^ 32 := by
  induction h with
  | start => exact fun _ => Nat.two_pow_pos 32
  | @step T b host input _ _ _ hfits ih =>
    refine both_pages b ?_ ?_
    · rwa [put_self]
    · rw [put_not]
      exact ih (!b)

theorem resendAll_sent (haccepts : ∀ frame, host.accepts frame) (es : List Outbound) (s : SessionController G) :
    (SessionController.resendAll host es s).2.sent = s.sent ++ es.map fun e => buildFrame 1 e.msgno e.msg := by
  induction es generalizing s with
  | nil => exact (List.append_nil _).symm
  | cons e es ih =>
    unfold SessionController.resendAll SessionController.sendMessage SessionController.send
    rw [if_pos (haccepts _)]
    dsimp only
    rw [ih, List.map_cons]
    change (s.sent ++ [_]) ++ _ = _
    rw [List.append_assoc, List.cons_append, List.nil_append]

theorem resendUnacked_sent (haccepts : ∀ frame, host.accepts frame) {s : SessionController G}
    (hresend : s.Retransmits host) :
    (s.resendUnacked host).2.sent = s.sent ++ s.unackedMessages.map fun e => buildFrame 1 e.msgno e.msg := by
  obtain ⟨hstop, hunacked, hlate⟩ := hresend
  unfold SessionController.resendUnacked
  rw [if_neg (by rw [hstop]; decide), if_neg (by rwa [List.isEmpty_iff]), if_neg (Nat.not_lt_of_le hlate)]
  exact resendAll_sent haccepts _ _

/-! One word, from one player to the other. -/

inductive Word where
  | word

/-- A session that says what it is told to say, and takes whatever comes. -/
instance : ChiaGame Word Bytes where
  deliverMessage _ := fun g => .ok ⟨[], .active, true⟩ g
  goOnChain := fun g => .ok ⟨[], .active, true⟩ g
  completeOutboundTerminalHandoff := fun g => .ok ⟨[], .active, true⟩ g
  call msg := fun g => .ok ⟨[.outboundMessage msg], .active, true⟩ g
  pendingTerminalHandoff _ := none

/-- The socket takes everything. -/
def openHost : Host := ⟨5000, fun _ => true⟩

def after (inputs : List (Bool × Party.Input Word Bytes)) : Link Word :=
  inputs.foldl (fun T i => T.put i.1 ((T.party i.1).next openHost i.2)) ⟨fun _ => Party.initial⟩

def oneWord : List (Bool × Party.Input Word Bytes) :=
  [(true, .newSession .word), (false, .newSession .word), (true, .call [7]), (true, .drain), (true, .beginFlush),
    (true, .queueWrite true), (true, .write), (true, .finishFlush), (false, .receive (buildFrame 1 1 [7]))]

def answered : List (Bool × Party.Input Word Bytes) :=
  oneWord ++ [(false, .beginFlush), (false, .queueWrite true), (false, .write), (false, .finishFlush),
    (true, .receive (buildFrame 2 1 []))]

example : ((after oneWord).party false).ctl.history.consumed = [[7]] := by decide

example : ((after answered).party true).ctl.unackedMessages = [] := by decide

theorem Run.snoc {cond : Party Word → Host → Party.Input Word Bytes → Prop}
    {inputs : List (Bool × Party.Input Word Bytes)} (h : Run cond (after inputs)) (b : Bool)
    (input : Party.Input Word Bytes)
    (hreceived : ∀ payload, input = .receive payload → payload ∈ ((after inputs).party !b).ctl.sent)
    (hcond : cond ((after inputs).party b) openHost input)
    (hfits : (((after inputs).party b).next openHost input).ctl.history.numbered.length < 2 ^ 32) :
    Run cond (after (inputs ++ [(b, input)])) := by
  have hstep := Run.step b openHost input h hreceived hcond hfits
  rwa [after, List.foldl_append]

/-- As strict as may be. -/
def Plain (p : Party Word) (host : Host) (input : Party.Input Word Bytes) : Prop :=
  Steady p host input ∧ input ≠ .reload

theorem oneWord_run : Run Plain (after oneWord) := by
  have hsent : buildFrame 1 1 [7] ∈ ((after (oneWord.take 8)).party true).ctl.sent := by decide
  have h₀ : Run Plain (after []) := .start
  have h₁ := h₀.snoc true (.newSession .word) (fun _ h => by cases h) ⟨⟨rfl, rfl, rfl⟩, fun h => by cases h⟩ (by decide)
  have h₂ := h₁.snoc false (.newSession .word) (fun _ h => by cases h) ⟨⟨rfl, rfl, rfl⟩, fun h => by cases h⟩ (by decide)
  have h₃ := h₂.snoc true (.call [7]) (fun _ h => by cases h) ⟨⟨trivial, rfl, rfl⟩, fun h => by cases h⟩ (by decide)
  have h₄ := h₃.snoc true .drain (fun _ h => by cases h) ⟨⟨trivial, rfl, rfl⟩, fun h => by cases h⟩ (by decide)
  have h₅ := h₄.snoc true .beginFlush (fun _ h => by cases h) ⟨⟨trivial, rfl, rfl⟩, fun h => by cases h⟩ (by decide)
  have h₆ := h₅.snoc true (.queueWrite true) (fun _ h => by cases h) ⟨⟨trivial, rfl, rfl⟩, fun h => by cases h⟩ (by decide)
  have h₇ := h₆.snoc true .write (fun _ h => by cases h) ⟨⟨trivial, rfl, rfl⟩, fun h => by cases h⟩ (by decide)
  have h₈ := h₇.snoc true .finishFlush (fun _ h => by cases h) ⟨⟨trivial, rfl, rfl⟩, fun h => by cases h⟩ (by decide)
  refine h₈.snoc false (.receive (buildFrame 1 1 [7])) (fun payload h => ?_) ⟨⟨fun _ _ _ _ => rfl, rfl, rfl⟩, fun h => by cases h⟩
    (by decide)
  injection h with h
  rw [← h]
  exact hsent

theorem answered_run : Run Plain (after answered) := by
  have hsent : buildFrame 2 1 [] ∈ ((after (answered.take 13)).party false).ctl.sent := by decide
  have h₁ := oneWord_run.snoc false .beginFlush (fun _ h => by cases h) ⟨⟨trivial, rfl, rfl⟩, fun h => by cases h⟩ (by decide)
  have h₂ := h₁.snoc false (.queueWrite true) (fun _ h => by cases h) ⟨⟨trivial, rfl, rfl⟩, fun h => by cases h⟩ (by decide)
  have h₃ := h₂.snoc false .write (fun _ h => by cases h) ⟨⟨trivial, rfl, rfl⟩, fun h => by cases h⟩ (by decide)
  have h₄ := h₃.snoc false .finishFlush (fun _ h => by cases h) ⟨⟨trivial, rfl, rfl⟩, fun h => by cases h⟩ (by decide)
  refine h₄.snoc true (.receive (buildFrame 2 1 [])) (fun payload h => ?_) ⟨⟨fun _ _ _ _ => rfl, rfl, rfl⟩, fun h => by cases h⟩
    (by decide)
  injection h with h
  rw [← h]
  exact hsent

/-- Whatever the relay does with the frames, each player takes the messages of the other in order, each of them once,
as long as no page is loaded again before its storage has every message that has left it. -/
theorem messages_in_order (h : Run (ReloadsCovered (A := A)) T) (b : Bool) :
    (T.party b).ctl.history.consumed <+: (T.party !b).ctl.history.numbered := by
  have hsound := h.sound fun p host hcond => hcond rfl
  exact consumed_within (hsound b) (hsound !b)

theorem messages_in_order_oneWord :
    ((after oneWord).party false).ctl.history.consumed <+: ((after oneWord).party true).ctl.history.numbered :=
  messages_in_order (oneWord_run.mono fun _ _ _ hplain hreload => absurd hreload hplain.2) false

/-- Careful pages may be loaded again whenever they like. -/
theorem careful_in_order (h : Run (Party.Careful (A := A)) T) (b : Bool) :
    (T.party b).Covered ∧ (T.party b).ctl.history.consumed <+: (T.party !b).storedHistory.numbered := by
  have hstate := h.durable fun _ _ _ hcond => hcond
  exact ⟨(hstate b).2.covered, consumed_prefix_stored (hstate b).1 (hstate !b).1 (hstate !b).2.covered⟩

theorem careful_in_order_oneWord : ((after oneWord).party false).Covered ∧
    ((after oneWord).party false).ctl.history.consumed <+: ((after oneWord).party true).storedHistory.numbered :=
  careful_in_order (oneWord_run.mono fun _ _ _ hplain => hplain.1.1) false

/-- A player acknowledges what it has stored, and has every message yet to send that the other has not stored: in
memory, and in the storage for the next page. -/
theorem nothing_lost (h : Run (Steady (A := A)) T) (b : Bool) :
    (∀ frame ∈ (T.party b).ctl.sent, ∀ n, deliverRawPeerMessage frame = some (.ack n) →
      n ≤ (T.party b).storedHistory.consumed.length) ∧
    ((T.party b).ctl.cradle.isSome → ∀ n msg, (T.party !b).storedHistory.consumed.length < n →
      At (T.party b).ctl.history.numbered n msg → ⟨n, msg⟩ ∈ (T.party b).ctl.unackedMessages) ∧
    ∀ c, (T.party b).disk = some c → ∀ n msg, (T.party !b).storedHistory.consumed.length < n →
      At c.history.numbered n msg → ⟨n, msg⟩ ∈ c.unackedMessages := by
  have hkept := h.kept b
  have hsound := (h.steady b).1
  have hentry {numbered : List Bytes} {unacked : List Outbound} {k : ℕ} (hkeeps : Keeps k numbered unacked)
      (hat : ∀ e ∈ unacked, At numbered e.msgno e.msg) (n : ℕ) (msg : Bytes) (hlt : k < n) (hn : At numbered n msg) :
      ⟨n, msg⟩ ∈ unacked := by
    obtain ⟨e, he, rfl⟩ := hkeeps n hlt hn.le_length
    rwa [← (hat e he).unique hn]
  refine ⟨hkept.honest, fun hsome => hentry (hkept.unacked hsome) hsound.ctl.unacked, fun c hdisk => ?_⟩
  have hmem := Party.mem_saves.mpr (.inl hdisk)
  exact hentry (hkept.saves c hmem) (hsound.saves c hmem).unacked

theorem nothing_lost_oneWord : ⟨1, [7]⟩ ∈ ((after oneWord).party true).ctl.unackedMessages :=
  (nothing_lost (oneWord_run.mono fun _ _ _ hplain => hplain.1) true).2.1 rfl 1 [7] (by decide) ⟨by decide, rfl⟩

/-- With nothing left to be acknowledged the other player has stored everything, message for message. -/
theorem all_acknowledged (h : Run (Steady (A := A)) T) {b : Bool} (hsome : (T.party b).ctl.cradle.isSome)
    (hempty : (T.party b).ctl.unackedMessages = []) :
    (T.party !b).storedHistory.consumed = (T.party b).ctl.history.numbered := by
  have hstate := h.steady
  have hprefix := consumed_within (hstate (!b)).1 (by rw [Bool.not_not]; exact (hstate b).1)
  rw [Bool.not_not] at hprefix
  refine ((hstate (!b)).2.stored_le.2.trans hprefix).eq_of_length_le ?_
  by_contra hlt
  obtain ⟨e, he, -⟩ := (h.kept b).unacked hsome _ (Nat.lt_of_not_le hlt) le_rfl
  rw [hempty] at he
  cases he

theorem all_acknowledged_answered :
    ((after answered).party false).storedHistory.consumed = ((after answered).party true).ctl.history.numbered :=
  all_acknowledged (answered_run.mono fun _ _ _ hplain => hplain.1) (b := true) rfl (by decide)

/-- A page that sends all over again is ahead of its storage if and only if it was so before, or has a message that
is not stored. -/
theorem resend_covered_iff (h : Run (ReloadsCovered (A := A)) T) (b : Bool) (haccepts : ∀ frame, host.accepts frame)
    (hresend : (T.party b).ctl.Retransmits host) :
    ((T.party b).next host (.reconnect : Party.Input G A)).Covered ↔
      (T.party b).Covered ∧ ∀ e ∈ (T.party b).ctl.unackedMessages, e.msgno ≤ (T.party b).storedHistory.numbered.length := by
  have hsound := h.sound (fun p host hcond => hcond rfl) b
  have hentry (e : Outbound) (he : e ∈ (T.party b).ctl.unackedMessages) :
      deliverRawPeerMessage (buildFrame 1 e.msgno e.msg) = some (.message e.msgno e.msg) := by
    rw [deliver_message, Nat.mod_eq_of_lt ((hsound.ctl.unacked e he).le_length.trans_lt (h.fits b))]
  unfold Party.Covered
  change (∀ frame ∈ ((T.party b).ctl.resendUnacked host).2.sent, _) ↔ _
  rw [resendUnacked_sent haccepts hresend]
  change (∀ frame ∈ _, ∀ n msg, _ → n ≤ (T.party b).storedHistory.numbered.length) ↔ _
  constructor
  · intro hcovered
    refine ⟨fun frame hframe => hcovered frame (List.mem_append_left _ hframe), fun e he => ?_⟩
    exact hcovered _ (List.mem_append_right _ (List.mem_map_of_mem he)) e.msgno e.msg (hentry e he)
  · rintro ⟨hbefore, hstored⟩ frame hframe n msg hmessage
    rcases List.mem_append.mp hframe with hframe | hframe
    · exact hbefore frame hframe n msg hmessage
    · obtain ⟨e, he, rfl⟩ := List.mem_map.mp hframe
      rw [hentry e he] at hmessage
      injection Option.some.inj hmessage with hn _
      rw [← hn]
      exact hstored e he

theorem resend_covered_iff_oneWord :
    (((after oneWord).party true).next openHost (.reconnect : Party.Input Word Bytes)).Covered ↔
      ((after oneWord).party true).Covered ∧ ∀ e ∈ ((after oneWord).party true).ctl.unackedMessages,
        e.msgno ≤ ((after oneWord).party true).storedHistory.numbered.length :=
  resend_covered_iff (oneWord_run.mono fun _ _ _ hplain hreload => absurd hreload hplain.2) true (fun _ => rfl)
    ⟨rfl, by decide, by decide⟩

end Link

end Peer

end ChiaGaming
