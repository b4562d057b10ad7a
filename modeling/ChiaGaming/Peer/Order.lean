import ChiaGaming.Lib.Journal
import ChiaGaming.Peer.Moves

namespace ChiaGaming

namespace Peer

open Relation (ReflTransGen)

open Journal (At at_snoc_iff)

variable {G A : Type} {Γ Γ' : Traffic} {host : Host}

/-! Every number stands for one message. -/

/-- The messages of a controller are those of its history, and what it has taken has arrived. -/
structure Sound (Γ : Traffic) (s : SessionController G) : Prop where
  held : Held Γ s
  idle : s.cradle = none → s.eventQueue = []
  blank : s.cradle = none → s.messageNumber = 1 ∧ s.remoteNumber = 0
  messageNumber : s.cradle.isSome → s.messageNumber = s.history.numbered.length + 1
  remoteNumber : s.cradle.isSome → s.remoteNumber = s.history.consumed.length
  unacked : ∀ e ∈ s.unackedMessages, At s.history.numbered e.msgno e.msg
  pending : ∀ e ∈ s.pendingOutboundSends, At s.history.numbered e.msgno e.msg
  consumed : ∀ n msg, At s.history.consumed n msg → Γ.arrives n msg
  sent : ∀ frame ∈ s.sent, ∀ n msg, deliverRawPeerMessage frame = some (.message n msg) → At s.history.numbered n msg

theorem Held.mono {s : SessionController G} (h : Held Γ s) (hΓ : ∀ n msg, Γ.arrives n msg → Γ'.arrives n msg) :
    Held Γ' s :=
  ⟨fun e he => hΓ _ _ (h.stored e he), fun n msg hn => hΓ _ _ (h.reorder n msg hn)⟩

theorem Sound.mono {s : SessionController G} (h : Sound Γ s) (hΓ : ∀ n msg, Γ.arrives n msg → Γ'.arrives n msg) :
    Sound Γ' s :=
  { h with
    held := h.held.mono hΓ
    consumed := fun n msg hn => hΓ _ _ (h.consumed n msg hn) }

/-- A history goes on where another ends. -/
def History.Le (h h' : History) : Prop := h.numbered <+: h'.numbered ∧ h.consumed <+: h'.consumed

theorem History.Le.refl (h : History) : h.Le h := ⟨List.prefix_rfl, List.prefix_rfl⟩

theorem History.Le.trans {h₁ h₂ h₃ : History} (h : h₁.Le h₂) (h' : h₂.Le h₃) : h₁.Le h₃ :=
  ⟨h.1.trans h'.1, h.2.trans h'.2⟩

namespace SessionController

variable {s s' : SessionController G}

@[simp] theorem owe_history (n : ℕ) : (s.owe n).history = s.history := by
  unfold owe markNeedsImmediateDurability
  split_ifs <;> rfl

end SessionController

section Move

variable {s s' : SessionController G}

theorem Move.history (h : Move Γ s s') : s.history.Le s'.history := by
  cases h with
  | quiet h =>
    rw [h.history]
    exact .refl _
  | number msg _ =>
    unfold SessionController.numberMessage SessionController.markNeedsImmediateDurability
    split_ifs <;> exact ⟨List.prefix_append .., List.prefix_rfl⟩
  | consume g msg _ _ =>
    rw [SessionController.owe_history]
    exact ⟨List.prefix_rfl, List.prefix_append ..⟩
  | _ => exact .refl _

theorem Moves.history (h : Moves Γ s s') : s.history.Le s'.history := by
  induction h with
  | refl => exact .refl _
  | tail _ h ih => exact ih.trans h.history

theorem Move.sent (h : Move Γ s s') : s.sent <+: s'.sent := by
  cases h with
  | quiet h => rw [h.sent]
  | number msg _ =>
    unfold SessionController.numberMessage SessionController.markNeedsImmediateDurability
    split_ifs <;> exact List.prefix_rfl
  | consume g msg _ _ =>
    unfold SessionController.owe SessionController.markNeedsImmediateDurability
    split_ifs <;> exact List.prefix_rfl
  | sendMessage e _ _ => exact List.prefix_append ..
  | sendAck n _ => exact List.prefix_append ..
  | _ => exact List.prefix_rfl

theorem Moves.sent (h : Moves Γ s s') : s.sent <+: s'.sent := by
  induction h with
  | refl => exact List.prefix_rfl
  | tail _ h ih => exact ih.trans h.sent

/-- Nothing is numbered or taken before a session is in place. -/
theorem Move.history_none (h : Move Γ s s') (hnone : s.cradle = none) : s'.history = s.history := by
  cases h with
  | quiet h => exact h.history
  | number msg hsome =>
    rw [hnone] at hsome
    cases hsome
  | consume g msg hsome _ =>
    rw [hnone] at hsome
    cases hsome
  | _ => rfl

theorem Moves.none (h : Moves Γ s s') (hnone : s'.cradle = none) : s.cradle = none := by
  have hsame := h.cradle
  cases hcradle : s.cradle with
  | none => rfl
  | some g =>
    rw [hnone, hcradle] at hsame
    cases hsame

theorem Moves.history_none (h : Moves Γ s s') (hnone : s'.cradle = Option.none) : s'.history = s.history := by
  induction h with
  | refl => rfl
  | tail hmoves h ih =>
    have hmid := Moves.none (.single h) hnone
    rw [h.history_none hmid, ih hmid]

/-- A frame that a message leaves in is that message again. -/
theorem message_of_frame {e : Outbound} {n : ℕ} {msg : Bytes} (hfits : e.msgno < 2 ^ 32)
    (h : deliverRawPeerMessage (buildFrame 1 e.msgno e.msg) = some (.message n msg)) : e.msgno = n ∧ e.msg = msg := by
  rw [deliver_message, Nat.mod_eq_of_lt hfits] at h
  injection Option.some.inj h with hn hmsg
  exact ⟨hn, hmsg⟩

theorem not_message_of_ack {k n : ℕ} {msg : Bytes} :
    deliverRawPeerMessage (buildFrame 2 k []) ≠ some (.message n msg) := by
  rw [deliver_ack]
  intro h
  cases h

theorem Quiet.sound (h : Quiet s s') (hs : Sound Γ s) : Sound Γ s' where
  held := (Move.quiet h).held hs.held
  idle hnone := h.events hnone (hs.idle (Moves.none (Γ := Γ) h.moves hnone))
  blank hnone := by
    rw [h.messageNumber, h.remoteNumber]
    exact hs.blank (Moves.none (Γ := Γ) h.moves hnone)
  messageNumber hsome := by
    rw [h.messageNumber, h.history]
    exact hs.messageNumber (h.cradle ▸ hsome)
  remoteNumber hsome := by
    rw [h.remoteNumber, h.history]
    exact hs.remoteNumber (h.cradle ▸ hsome)
  unacked := by
    rw [h.unackedMessages, h.history]
    exact hs.unacked
  pending := by
    rw [h.pendingOutboundSends, h.history]
    exact hs.pending
  consumed := by
    rw [h.history]
    exact hs.consumed
  sent := by
    rw [h.sent, h.history]
    exact hs.sent

theorem Sound.number (hs : Sound Γ s) (msg : Bytes) (hsome : s.cradle.isSome) : Sound Γ (s.numberMessage msg) := by
  have hlog : s.history.numbered <+: s.history.numbered ++ [msg] := List.prefix_append ..
  have hnext := hs.messageNumber hsome
  have hadd {es : List Outbound} (hes : ∀ e ∈ es, At s.history.numbered e.msgno e.msg) :
      ∀ e ∈ es ++ [⟨s.messageNumber, msg⟩], At (s.history.numbered ++ [msg]) e.msgno e.msg := by
    intro e he
    rcases List.mem_append.mp he with he | he
    · exact (hes e he).mono hlog
    · rw [List.mem_singleton.mp he]
      exact at_snoc_iff.mpr (.inr ⟨hnext, rfl⟩)
  have hsound (needs : Bool) : Sound Γ { s with
      messageNumber := s.messageNumber + 1
      unackedMessages := s.unackedMessages ++ [⟨s.messageNumber, msg⟩]
      pendingOutboundSends := s.pendingOutboundSends ++ [⟨s.messageNumber, msg⟩]
      history := { s.history with numbered := s.history.numbered ++ [msg] }
      needsImmediateDurability := needs } :=
    { held := ⟨hs.held.stored, hs.held.reorder⟩
      idle := hs.idle
      blank := fun hnone => by
        rw [show s.cradle = Option.none from hnone] at hsome
        cases hsome
      messageNumber := fun _ => by
        dsimp only
        rw [hnext, List.length_append, List.length_singleton]
      remoteNumber := hs.remoteNumber
      unacked := hadd hs.unacked
      pending := hadd hs.pending
      consumed := hs.consumed
      sent := fun frame hframe n m h => (hs.sent frame hframe n m h).mono hlog }
  unfold SessionController.numberMessage SessionController.markNeedsImmediateDurability
  split_ifs
  · exact hsound s.needsImmediateDurability
  · exact hsound true

theorem Sound.consume (hs : Sound Γ s) (g : G) {msg : Bytes} (hsome : s.cradle.isSome)
    (harrives : Γ.arrives (s.remoteNumber + 1) msg) :
    Sound Γ (SessionController.owe (s.remoteNumber + 1) { s with
      cradle := some g
      remoteNumber := s.remoteNumber + 1
      history := { s.history with consumed := s.history.consumed ++ [msg] } }) := by
  have hnext := hs.remoteNumber hsome
  have hsound (needs : Bool) : Sound Γ { s with
      cradle := some g
      remoteNumber := s.remoteNumber + 1
      history := { s.history with consumed := s.history.consumed ++ [msg] }
      pendingAcks := s.pendingAcks ++ [s.remoteNumber + 1]
      needsImmediateDurability := needs } :=
    { held := ⟨hs.held.stored, hs.held.reorder⟩
      idle := fun hnone => by cases hnone
      blank := fun hnone => by cases hnone
      messageNumber := fun _ => hs.messageNumber hsome
      remoteNumber := fun _ => by
        dsimp only
        rw [hnext, List.length_append, List.length_singleton]
      unacked := hs.unacked
      pending := hs.pending
      consumed := fun n m hn => by
        rcases at_snoc_iff.mp hn with hn | ⟨rfl, rfl⟩
        · exact hs.consumed n m hn
        · rwa [← hnext]
      sent := hs.sent }
  unfold SessionController.owe SessionController.markNeedsImmediateDurability
  split_ifs
  · exact hsound s.needsImmediateDurability
  · exact hsound true

theorem Sound.stop (hs : Sound Γ s) : Sound Γ s.stopProtocolWork where
  held := held_stopProtocolWork
  idle _ := rfl
  blank := hs.blank
  messageNumber := hs.messageNumber
  remoteNumber := hs.remoteNumber
  unacked _ he := absurd he List.not_mem_nil
  pending _ he := absurd he List.not_mem_nil
  consumed := hs.consumed
  sent := hs.sent

theorem Sound.emit (hs : Sound Γ s) {frames : List Bytes}
    (h : ∀ frame ∈ frames, ∀ n msg, deliverRawPeerMessage frame = some (.message n msg) →
      At s.history.numbered n msg) : Sound Γ { s with sent := s.sent ++ frames } :=
  { hs with
    held := ⟨hs.held.stored, hs.held.reorder⟩
    sent := fun frame hframe => by
      rcases List.mem_append.mp hframe with hframe | hframe
      · exact hs.sent frame hframe
      · exact h frame hframe }

theorem Move.sound (h : Move Γ s s') (hs : Sound Γ s) (hfits : s.history.numbered.length < 2 ^ 32) : Sound Γ s' := by
  have hheld := h.held hs.held
  cases h with
  | quiet h => exact h.sound hs
  | number msg hsome => exact hs.number msg hsome
  | consume g msg hsome harrives => exact hs.consume g hsome harrives
  | sendMessage e he _ =>
    refine hs.emit fun frame hframe n msg hmessage => ?_
    rw [List.mem_singleton.mp hframe] at hmessage
    have hentry := hs.unacked e he
    obtain ⟨rfl, rfl⟩ := message_of_frame (hentry.le_length.trans_lt hfits) hmessage
    exact hentry
  | sendAck n _ =>
    refine hs.emit fun frame hframe k msg hmessage => ?_
    rw [List.mem_singleton.mp hframe] at hmessage
    exact absurd hmessage not_message_of_ack
  | prune q n _ _ => exact { hs with held := hheld, unacked := fun _ he => hs.unacked _ (List.mem_filter.mp he).1 }
  | stop => exact hs.stop
  | _ => exact { hs with held := hheld }

theorem Moves.sound (h : Moves Γ s s') (hs : Sound Γ s) (hfits : s'.history.numbered.length < 2 ^ 32) : Sound Γ s' := by
  induction h with
  | refl => exact hs
  | tail _ h ih =>
    have hshort := lt_of_le_of_lt h.history.1.length_le hfits
    exact h.sound (ih hshort) hshort

theorem SessionController.Flushed.sound {outboundCount ackCount : ℕ}
    (h : SessionController.Flushed outboundCount ackCount s s') (hs : Sound Γ s) (hfits : s.history.numbered.length < 2 ^ 32) : Sound Γ s' := by
  obtain ⟨outbound, acks, needs, frames, handoff, rfl, -, houtbound, -, hframes⟩ := h
  have hemit := hs.emit fun frame hframe n msg hmessage => by
    rcases hframes frame hframe with ⟨e, he, rfl⟩ | ⟨k, -, rfl⟩
    · have hentry := hs.pending e (List.mem_of_mem_take he)
      obtain ⟨rfl, rfl⟩ := message_of_frame (hentry.le_length.trans_lt hfits) hmessage
      exact hentry
    · exact absurd hmessage not_message_of_ack
  exact { hemit with
    held := ⟨hs.held.stored, hs.held.reorder⟩
    pending := fun e he => by
      rcases List.mem_append.mp he with he | he
      · exact hs.pending e (List.mem_of_mem_take (houtbound he))
      · exact hs.pending e (List.mem_of_mem_drop he) }

end Move

/-! What the storage has. -/

/-- A save is a state that the controller has been in. -/
structure SoundSave (Γ : Traffic) (numbered : List Bytes) (c : SessionSave G) : Prop where
  messageNumber : c.messageNumber = c.history.numbered.length + 1
  remoteNumber : c.remoteNumber = c.history.consumed.length
  unacked : ∀ e ∈ c.unackedMessages, At c.history.numbered e.msgno e.msg
  consumed : ∀ n msg, At c.history.consumed n msg → Γ.arrives n msg
  earlier : c.history.numbered <+: numbered

theorem SoundSave.later {c : SessionSave G} {numbered numbered' : List Bytes} (h : SoundSave Γ numbered c)
    (hlog : numbered <+: numbered') : SoundSave Γ numbered' c :=
  { h with earlier := h.earlier.trans hlog }

theorem SoundSave.mono {c : SessionSave G} {numbered : List Bytes} (h : SoundSave Γ numbered c)
    (hΓ : ∀ n msg, Γ.arrives n msg → Γ'.arrives n msg) : SoundSave Γ' numbered c :=
  { h with consumed := fun n msg hn => hΓ _ _ (h.consumed n msg hn) }

theorem Sound.snapshot {s : SessionController G} (hs : Sound Γ s) {c : SessionSave G} (h : s.snapshot = some c) :
    SoundSave Γ s.history.numbered c := by
  obtain ⟨g, hcradle, rfl⟩ := Option.map_eq_some_iff.mp h
  have hsome : s.cradle.isSome := by
    rw [hcradle]
    rfl
  exact ⟨hs.messageNumber hsome, hs.remoteNumber hsome, hs.unacked, hs.consumed, List.prefix_rfl⟩

namespace Party

/-- The history that a reload goes back to. -/
def storedHistory (p : Party G) : History := p.disk.elim ⟨[], []⟩ SessionSave.history

/-- A page that has just been loaded knows no more than its storage. -/
structure Fresh (p : Party G) : Prop where
  cached : p.cached = p.disk
  writes : ∀ w ∈ p.writes, some w.1 = p.disk
  history : p.ctl.history = p.storedHistory

structure Sound (Γ : Traffic) (p : Party G) : Prop where
  ctl : Peer.Sound Γ p.ctl
  saves : ∀ c ∈ p.saves, SoundSave Γ p.ctl.history.numbered c
  fresh : p.ctl.cradle = none → p.Fresh

/-- Of what has left the page, the storage has every message. -/
def Covered (p : Party G) : Prop :=
  ∀ frame ∈ p.ctl.sent, ∀ n msg, deliverRawPeerMessage frame = some (.message n msg) → n ≤ p.storedHistory.numbered.length

variable {p p' : Party G}

@[simp] theorem save_ctl (p : Party G) : p.save.ctl = p.ctl := by
  unfold Party.save
  split <;> rfl

@[simp] theorem queueWrite_ctl (p : Party G) (awaited : Bool) : (p.queueWrite awaited).ctl = p.ctl := by
  unfold Party.queueWrite
  split <;> rfl

@[simp] theorem write_ctl (p : Party G) : p.write.ctl = p.ctl := by
  unfold Party.write
  split <;> rfl

@[simp] theorem failWrite_ctl (p : Party G) : p.failWrite.ctl = p.ctl := by
  unfold Party.failWrite
  split <;> rfl

theorem mem_saves {c : SessionSave G} :
    c ∈ p.saves ↔ p.disk = some c ∨ (∃ w ∈ p.writes, w.1 = c) ∨ p.cached = some c := by
  rw [saves, List.mem_append, List.mem_append, List.mem_map, Option.mem_toList, Option.mem_toList, or_assoc]

theorem Sound.mono (h : p.Sound Γ) (hΓ : ∀ n msg, Γ.arrives n msg → Γ'.arrives n msg) : p.Sound Γ' :=
  ⟨h.ctl.mono hΓ, fun c hc => (h.saves c hc).mono hΓ, h.fresh⟩

theorem Sound.initial : (Party.initial : Party G).Sound Γ where
  ctl :=
    { held := ⟨fun _ he => absurd he List.not_mem_nil, fun _ _ h => by cases h⟩
      idle := fun _ => rfl
      blank := fun _ => ⟨rfl, rfl⟩
      messageNumber := fun h => by cases h
      remoteNumber := fun h => by cases h
      unacked := fun _ he => absurd he List.not_mem_nil
      pending := fun _ he => absurd he List.not_mem_nil
      consumed := fun _ _ h => absurd h Journal.not_at_nil
      sent := fun _ hframe => absurd hframe List.not_mem_nil }
  saves c hc := absurd hc List.not_mem_nil
  fresh _ := ⟨rfl, fun _ h => absurd h List.not_mem_nil, rfl⟩

/-- The controller has moved on, and the storage has not. -/
theorem Sound.moves {s : SessionController G} (hs : p.Sound Γ) (h : Moves Γ p.ctl s)
    (hfits : s.history.numbered.length < 2 ^ 32) : { p with ctl := s }.Sound Γ where
  ctl := h.sound hs.ctl hfits
  saves c hc := (hs.saves c hc).later (Moves.history h).1
  fresh hnone := by
    have hfresh := hs.fresh (Moves.none h hnone)
    exact ⟨hfresh.cached, hfresh.writes, (Moves.history_none h hnone).trans hfresh.history⟩

theorem Sound.flushed {s : SessionController G} {outboundCount ackCount : ℕ} (hs : p.Sound Γ)
    (h : SessionController.Flushed outboundCount ackCount p.ctl s) (hfits : p.ctl.history.numbered.length < 2 ^ 32)
    (flush : Option Flush) : { p with ctl := s, flush }.Sound Γ := by
  have hctl := h.sound hs.ctl hfits
  obtain ⟨outbound, acks, needs, frames, handoff, rfl, -⟩ := h
  refine ⟨hctl, hs.saves, fun hnone => ?_⟩
  have hfresh := hs.fresh hnone
  exact ⟨hfresh.cached, hfresh.writes, hfresh.history⟩

/-- The storage has moved on, and has no save that was not there. -/
theorem Sound.storage (hs : p.Sound Γ) (hctl : p'.ctl = p.ctl) (hsaves : ∀ c ∈ p'.saves, c ∈ p.saves)
    (hfresh : p.ctl.cradle = none → p.Fresh → p'.Fresh) : p'.Sound Γ where
  ctl := hctl ▸ hs.ctl
  saves c hc := by
    rw [hctl]
    exact hs.saves c (hsaves c hc)
  fresh hnone := by
    rw [hctl] at hnone
    exact hfresh hnone (hs.fresh hnone)

theorem Sound.save (hs : p.Sound Γ) : p.save.Sound Γ := by
  unfold Party.save
  cases hsnapshot : p.ctl.snapshot with
  | none => exact hs
  | some snapshot =>
    refine ⟨hs.ctl, fun c hc => ?_, fun hnone => ?_⟩
    · rcases mem_saves.mp hc with h | h | h
      · exact hs.saves c (mem_saves.mpr (.inl h))
      · exact hs.saves c (mem_saves.mpr (.inr (.inl h)))
      · exact hs.ctl.snapshot (hsnapshot.trans h)
    · rw [SessionController.snapshot, show p.ctl.cradle = none from hnone] at hsnapshot
      cases hsnapshot

theorem Sound.setFlush (hs : p.Sound Γ) (flush : Option Flush) : { p with flush }.Sound Γ :=
  hs.storage rfl (fun _ h => h) fun _ h => ⟨h.cached, h.writes, h.history⟩

theorem Sound.beginFlush (hs : p.Sound Γ) (hfits : p.ctl.history.numbered.length < 2 ^ 32) :
    (p.beginFlush host).Sound Γ := by
  unfold Party.beginFlush
  split_ifs with hbusy hneeds
  · exact hs
  · exact hs.save.setFlush _
  · exact hs.flushed (SessionController.sendPending_flushed _ _ _) hfits p.flush

theorem Sound.finishFlush (hs : p.Sound Γ) (hfits : p.ctl.history.numbered.length < 2 ^ 32) :
    (p.finishFlush host).Sound Γ := by
  unfold Party.finishFlush
  split
  · split_ifs
    · exact hs.setFlush none
    · exact hs.flushed (SessionController.sendPending_flushed _ _ _) hfits none
  · exact hs

theorem queueWrite_saves (p : Party G) (awaited : Bool) : (p.queueWrite awaited).saves ⊆ p.saves := by
  have hqueued {save : SessionSave G} (hcached : p.cached = some save) (awaited : Bool) (flush : Option Flush) :
      { p with writes := p.writes ++ [(save, awaited)], flush }.saves ⊆ p.saves := by
    intro c hc
    rcases mem_saves.mp hc with h | ⟨w, hw, rfl⟩ | h
    · exact mem_saves.mpr (.inl h)
    · rcases List.mem_append.mp hw with hw | hw
      · exact mem_saves.mpr (.inr (.inl ⟨w, hw, rfl⟩))
      · rw [List.mem_singleton.mp hw]
        exact mem_saves.mpr (.inr (.inr hcached))
    · exact mem_saves.mpr (.inr (.inr h))
  unfold Party.queueWrite
  split
  · exact hqueued ‹_› true _
  · exact hqueued ‹_› false p.flush
  · exact List.Subset.refl _

theorem write_saves (p : Party G) : p.write.saves ⊆ p.saves := by
  unfold Party.write
  cases hwrites : p.writes with
  | nil => exact List.Subset.refl _
  | cons w rest =>
    intro c hc
    rcases mem_saves.mp hc with h | ⟨w', hw', rfl⟩ | h
    · exact mem_saves.mpr (.inr (.inl ⟨w, hwrites ▸ List.mem_cons_self, Option.some.inj h⟩))
    · exact mem_saves.mpr (.inr (.inl ⟨w', hwrites ▸ List.mem_cons_of_mem _ hw', rfl⟩))
    · exact mem_saves.mpr (.inr (.inr h))

theorem failWrite_saves (p : Party G) : p.failWrite.saves ⊆ p.saves := by
  unfold Party.failWrite
  cases hwrites : p.writes with
  | nil => exact List.Subset.refl _
  | cons w rest =>
    intro c hc
    rcases mem_saves.mp hc with h | ⟨w', hw', rfl⟩ | h
    · exact mem_saves.mpr (.inl h)
    · exact mem_saves.mpr (.inr (.inl ⟨w', hwrites ▸ List.mem_cons_of_mem _ hw', rfl⟩))
    · exact mem_saves.mpr (.inr (.inr h))

theorem Fresh.queued (h : p.Fresh) {save : SessionSave G} (hcached : p.cached = some save) (awaited : Bool)
    (flush : Option Flush) : { p with writes := p.writes ++ [(save, awaited)], flush }.Fresh := by
  refine ⟨h.cached, fun w hw => ?_, h.history⟩
  rcases List.mem_append.mp hw with hw | hw
  · exact h.writes w hw
  · rw [List.mem_singleton.mp hw]
    exact hcached.symm.trans h.cached

theorem Sound.queueWrite (hs : p.Sound Γ) (awaited : Bool) : (p.queueWrite awaited).Sound Γ := by
  refine hs.storage (queueWrite_ctl p awaited) (fun c hc => queueWrite_saves p awaited hc) fun _ h => ?_
  unfold Party.queueWrite
  split
  · exact h.queued ‹_› true _
  · exact h.queued ‹_› false p.flush
  · exact h

theorem Sound.write (hs : p.Sound Γ) : p.write.Sound Γ := by
  refine hs.storage (write_ctl p) (fun c hc => write_saves p hc) fun _ h => ?_
  unfold Party.write
  cases hwrites : p.writes with
  | nil => exact h
  | cons w rest =>
    have hdisk := h.writes w (hwrites ▸ List.mem_cons_self)
    refine ⟨h.cached.trans hdisk.symm,
      fun w' hw' => (h.writes w' (hwrites ▸ List.mem_cons_of_mem _ hw')).trans hdisk.symm, ?_⟩
    rw [h.history, storedHistory, ← hdisk]
    rfl

theorem Sound.failWrite (hs : p.Sound Γ) : p.failWrite.Sound Γ := by
  refine hs.storage (failWrite_ctl p) (fun c hc => failWrite_saves p hc) fun _ h => ?_
  unfold Party.failWrite
  cases hwrites : p.writes with
  | nil => exact h
  | cons w rest => exact ⟨h.cached, fun w' hw' => h.writes w' (hwrites ▸ List.mem_cons_of_mem _ hw'), h.history⟩

section Reload

variable [ChiaGame G A]

theorem storedHistory_within (hs : p.Sound Γ) : p.storedHistory.numbered <+: p.ctl.history.numbered := by
  unfold storedHistory
  cases hdisk : p.disk with
  | none => exact List.nil_prefix
  | some c => exact (hs.saves c (mem_saves.mpr (.inl hdisk))).earlier

theorem new_kickSystem (sent : List Bytes) (history : History) :
    (SessionController.new (G := G) sent history).kickSystem host 2 =
      { SessionController.new sent history with qualifyingEvents := 2 } := by
  have hflags : ¬ (0 ||| 2 : ℕ) = 3 := by decide
  dsimp only [SessionController.kickSystem, SessionController.new]
  rw [if_neg hflags]
  rfl

/-- All that has left is in the storage: so the page finds every number again that it has used. -/
theorem Sound.reload (hs : p.Sound Γ) (hcovered : p.Covered) : (p.reload host).Sound Γ := by
  unfold Party.reload
  rw [new_kickSystem]
  refine ⟨?_, fun c hc => ?_, fun _ => ⟨rfl, fun _ h => absurd h List.not_mem_nil, rfl⟩⟩
  · refine
      { held := ⟨fun _ he => absurd he List.not_mem_nil, fun _ _ h => by cases h⟩
        idle := fun _ => rfl
        blank := fun _ => ⟨rfl, rfl⟩
        messageNumber := fun h => by cases h
        remoteNumber := fun h => by cases h
        unacked := fun _ he => absurd he List.not_mem_nil
        pending := fun _ he => absurd he List.not_mem_nil
        consumed := fun n msg hn => ?_
        sent := fun frame hframe n msg hmessage =>
          (hs.ctl.sent frame hframe n msg hmessage).within (storedHistory_within hs) (hcovered frame hframe n msg hmessage) }
    cases hdisk : p.disk with
    | none =>
      rw [hdisk] at hn
      exact absurd hn Journal.not_at_nil
    | some c =>
      rw [hdisk] at hn
      exact (hs.saves c (mem_saves.mpr (.inl hdisk))).consumed n msg hn
  · have hdisk : p.disk = some c := by
      rcases mem_saves.mp hc with h | ⟨w, hw, -⟩ | h
      · exact h
      · exact absurd hw List.not_mem_nil
      · exact h
    have hsave := hs.saves c (mem_saves.mpr (.inl hdisk))
    refine { hsave with earlier := ?_ }
    rw [hdisk]
    exact List.prefix_rfl

/-- A controller with the counters of a save, or with those of a page that has none, and a session. -/
theorem Sound.install (hs : p.Sound Γ) (hnone : p.ctl.cradle = none) {s : SessionController G} (g : G)
    (hquiet : Quiet p.ctl s) (hnumbers : p.storedHistory = ⟨[], []⟩) :
    Peer.Sound Γ { s with cradle := some g } := by
  have hctl := hquiet.sound hs.ctl
  have hfresh := hs.fresh hnone
  have hblank := hs.ctl.blank hnone
  have hhistory : s.history = ⟨[], []⟩ := by rw [hquiet.history, hfresh.history, hnumbers]
  exact
    { held := ⟨hctl.held.stored, hctl.held.reorder⟩
      idle := fun h => by cases h
      blank := fun h => by cases h
      messageNumber := fun _ => by
        dsimp only
        rw [hquiet.messageNumber, hblank.1, hhistory]
        rfl
      remoteNumber := fun _ => by
        dsimp only
        rw [hquiet.remoteNumber, hblank.2, hhistory]
        rfl
      unacked := hctl.unacked
      pending := hctl.pending
      consumed := hctl.consumed
      sent := hctl.sent }

theorem Sound.loaded (hs : p.Sound Γ) (hnone : p.ctl.cradle = none) {s : SessionController G} {c : SessionSave G} (g : G)
    (hquiet : Quiet p.ctl s) (hdisk : p.disk = some c) :
    Peer.Sound Γ { s.load c with cradle := some g } := by
  have hctl := hquiet.sound hs.ctl
  have hsave := hs.saves c (mem_saves.mpr (.inl hdisk))
  have hhistory : s.history = c.history := by
    rw [hquiet.history, (hs.fresh hnone).history, storedHistory, hdisk]
    rfl
  exact
    { held := ⟨hctl.held.stored, hctl.held.reorder⟩
      idle := fun h => by cases h
      blank := fun h => by cases h
      messageNumber := fun _ => hsave.messageNumber
      remoteNumber := fun _ => hsave.remoteNumber
      unacked := hsave.unacked
      pending := fun e he => by
        have hentry := hctl.pending e he
        rwa [hhistory] at hentry
      consumed := hsave.consumed
      sent := fun frame hframe n msg hmessage => by
        have hentry := hctl.sent frame hframe n msg hmessage
        rwa [hhistory] at hentry }

theorem setGameSession_open (hleaves : ∀ n, Γ.leaves n) (hacknowledges : ∀ n, Γ.acknowledges n)
    {s : SessionController G} (hs : Held Γ s) (g : G) (observations : List A) :
    Moves Γ { s with cradle := some g } (s.setGameSession host g observations) :=
  SessionController.setGameSession_moves hs g observations
    fun m _ _ frame => SessionController.ready_of_open hleaves hacknowledges m frame

/-- A session in place of none: the saves are those that it starts from. -/
theorem Sound.started (hs : p.Sound Γ) {s s' : SessionController G}
    (hctl : Peer.Sound Γ s) (hsome : s.cradle.isSome) (hhistory : s.history = p.ctl.history) (h : Moves Γ s s')
    (hfits : s'.history.numbered.length < 2 ^ 32) : { p with ctl := s' }.Sound Γ where
  ctl := h.sound hctl hfits
  saves c hc := (hs.saves c hc).later (hhistory ▸ (Moves.history h).1)
  fresh hnone' := by
    rw [Moves.none h hnone'] at hsome
    cases hsome

theorem Sound.restore (hs : p.Sound Γ) (hleaves : ∀ n, Γ.leaves n) (hacknowledges : ∀ n, Γ.acknowledges n)
    (observations : List A) (hfits : (p.restore host observations).ctl.history.numbered.length < 2 ^ 32) :
    (p.restore host observations).Sound Γ := by
  unfold Party.restore at hfits ⊢
  split at hfits
  · next save hnone hdisk =>
    have hquiet : Quiet p.ctl (p.ctl.kickSystem host 1) := SessionController.quiet_kickSystem 1 hnone
    have hloaded := hs.loaded hnone save.cradle hquiet hdisk
    refine hs.started hloaded rfl ?_ (setGameSession_open hleaves hacknowledges ?_ save.cradle observations) hfits
    · rw [(hs.fresh hnone).history, storedHistory, hdisk]
      rfl
    · exact ⟨hloaded.held.stored, hloaded.held.reorder⟩
  · exact hs

theorem Sound.newSession (hs : p.Sound Γ) (hleaves : ∀ n, Γ.leaves n) (hacknowledges : ∀ n, Γ.acknowledges n)
    (g : G) (hfits : (p.newSession host g).ctl.history.numbered.length < 2 ^ 32) : (p.newSession host g).Sound Γ := by
  unfold Party.newSession at hfits ⊢
  split at hfits
  · next hnone hdisk =>
    have hquiet : Quiet p.ctl (p.ctl.kickSystem host 1) := SessionController.quiet_kickSystem 1 hnone
    have hinstalled := hs.install hnone g hquiet (by rw [storedHistory, hdisk]; rfl)
    exact hs.started hinstalled rfl hquiet.history
      (setGameSession_open hleaves hacknowledges ⟨hinstalled.held.stored, hinstalled.held.reorder⟩ g []) hfits
  · exact hs

theorem sendPending_history (host : Host) (outboundCount ackCount : ℕ) (s : SessionController G) :
    (s.sendPending host outboundCount ackCount).history = s.history := by
  obtain ⟨outbound, acks, needs, frames, handoff, h, -⟩ :=
    SessionController.sendPending_flushed outboundCount ackCount s
  rw [h]

theorem beginFlush_history (host : Host) (p : Party G) : (p.beginFlush host).ctl.history = p.ctl.history := by
  unfold Party.beginFlush
  split_ifs
  · rfl
  · rw [save_ctl]
  · exact sendPending_history host _ _ p.ctl

theorem finishFlush_history (host : Host) (p : Party G) : (p.finishFlush host).ctl.history = p.ctl.history := by
  unfold Party.finishFlush
  split
  · split_ifs
    · rfl
    · exact sendPending_history host _ _ p.ctl
  · rfl

theorem Sound.next {input : Input G A} (hs : p.Sound Γ) (hleaves : ∀ n, Γ.leaves n)
    (hacknowledges : ∀ n, Γ.acknowledges n)
    (hadmits : ∀ payload, input = .receive payload →
      ∀ frame, deliverRawPeerMessage payload = some frame → Γ.admits frame)
    (hreload : input = .reload → p.Covered)
    (hfits : (p.next host input).ctl.history.numbered.length < 2 ^ 32) : (p.next host input).Sound Γ := by
  have hheld := hs.ctl.held
  cases input with
  | receive payload =>
    exact hs.moves (SessionController.receive_moves hheld (hadmits payload rfl)
      fun frame _ => SessionController.ready_of_open hleaves hacknowledges _ frame) hfits
  | call a => exact hs.moves (SessionController.callSession_moves a) hfits
  | goOnChain => exact hs.moves SessionController.goOnChain_moves hfits
  | drain => exact hs.moves (SessionController.drainOneEvent_moves hs.ctl.idle) hfits
  | reconnect => exact hs.moves (SessionController.resendUnacked_moves fun _ e _ => hleaves e.msgno) hfits
  | save => exact hs.save
  | beginFlush =>
    refine hs.beginFlush ?_
    rw [← beginFlush_history host p]
    exact hfits
  | queueWrite awaited => exact hs.queueWrite awaited
  | write => exact hs.write
  | failWrite => exact hs.failWrite
  | finishFlush =>
    refine hs.finishFlush ?_
    rw [← finishFlush_history host p]
    exact hfits
  | cleanup => exact hs.moves SessionController.cleanup_moves hfits
  | reload => exact hs.reload (hreload rfl)
  | restore observations => exact hs.restore hleaves hacknowledges observations hfits
  | newSession cradle => exact hs.newSession hleaves hacknowledges cradle hfits

end Reload

end Party

/-! Both pages. -/

namespace Link

/-- What may come to a player is what has left the other. -/
def traffic (T : Link G) (b : Bool) (leaves acknowledges : ℕ → Prop) : Traffic where
  arrives n msg := ∃ frame ∈ (T.party !b).ctl.sent, deliverRawPeerMessage frame = some (.message n msg)
  acked n := ∃ frame ∈ (T.party !b).ctl.sent, deliverRawPeerMessage frame = some (.ack n)
  leaves
  acknowledges

/-- Any message and any acknowledgement may leave. -/
abbrev openTraffic (T : Link G) (b : Bool) : Traffic := T.traffic b (fun _ => True) fun _ => True

theorem admits_of_sent {T : Link G} {b : Bool} {leaves acknowledges : ℕ → Prop} {payload : Bytes}
    (h : payload ∈ (T.party !b).ctl.sent) {frame : PeerFrame} (hframe : deliverRawPeerMessage payload = some frame) :
    (T.traffic b leaves acknowledges).admits frame := by
  cases frame with
  | message n msg => exact ⟨payload, h, hframe⟩
  | ack n => exact ⟨payload, h, hframe⟩
  | keepalive => trivial

section Steps

variable [ChiaGame G A] {p : Party G}

theorem sendPending_sent (host : Host) (outboundCount ackCount : ℕ) (s : SessionController G) :
    s.sent <+: (s.sendPending host outboundCount ackCount).sent := by
  obtain ⟨outbound, acks, needs, frames, handoff, h, -⟩ :=
    SessionController.sendPending_flushed outboundCount ackCount s
  rw [h]
  exact List.prefix_append ..

theorem both_pages {P : Bool → Prop} (b : Bool) (hb : P b) (hnb : P (!b)) : ∀ r, P r := by
  intro r
  cases b <;> cases r <;> assumption

/-- Nothing that has left comes back. -/
theorem next_sent (hs : p.Sound Γ) (host : Host) (input : Party.Input G A) :
    p.ctl.sent <+: (p.next host input).ctl.sent := by
  have hheld := SessionController.held_any p.ctl
  have hready (s : SessionController G) (frame : PeerFrame) : SessionController.Ready Traffic.any host s frame :=
    SessionController.ready_of_open (fun _ => trivial) (fun _ => trivial) s frame
  have hinstall (s : SessionController G) (g : G) (observations : List A) :
      Moves Traffic.any { s with cradle := some g } (s.setGameSession host g observations) :=
    Party.setGameSession_open (fun _ => trivial) (fun _ => trivial) (SessionController.held_any s) g observations
  cases input with
  | receive payload =>
    exact Moves.sent (SessionController.receive_moves hheld (fun frame _ => by cases frame <;> trivial)
      fun frame _ => hready p.ctl frame)
  | call a => exact Moves.sent (SessionController.callSession_moves (Γ := Γ) a)
  | goOnChain => exact Moves.sent (SessionController.goOnChain_moves (Γ := Γ))
  | drain => exact Moves.sent (SessionController.drainOneEvent_moves (Γ := Γ) hs.ctl.idle)
  | reconnect => exact Moves.sent (Γ := Traffic.any) (SessionController.resendUnacked_moves fun _ _ _ => trivial)
  | save => exact p.save_ctl ▸ List.prefix_rfl
  | beginFlush =>
    change p.ctl.sent <+: (p.beginFlush host).ctl.sent
    unfold Party.beginFlush
    split_ifs
    · exact List.prefix_rfl
    · exact p.save_ctl ▸ List.prefix_rfl
    · exact sendPending_sent host _ _ p.ctl
  | queueWrite awaited => exact p.queueWrite_ctl awaited ▸ List.prefix_rfl
  | write => exact p.write_ctl ▸ List.prefix_rfl
  | failWrite => exact p.failWrite_ctl ▸ List.prefix_rfl
  | finishFlush =>
    change p.ctl.sent <+: (p.finishFlush host).ctl.sent
    unfold Party.finishFlush
    split
    · split_ifs
      · exact List.prefix_rfl
      · exact sendPending_sent host _ _ p.ctl
    · exact List.prefix_rfl
  | cleanup => exact Moves.sent (SessionController.cleanup_moves (Γ := Γ))
  | reload =>
    change p.ctl.sent <+: (p.reload host).ctl.sent
    unfold Party.reload
    rw [Party.new_kickSystem]
    exact List.prefix_rfl
  | restore observations =>
    change p.ctl.sent <+: (p.restore host observations).ctl.sent
    unfold Party.restore
    split
    · next c hnone _ =>
      have hquiet : Quiet p.ctl (p.ctl.kickSystem host 1) := SessionController.quiet_kickSystem 1 hnone
      have hsent : p.ctl.sent <+: (p.ctl.kickSystem host 1).sent := by rw [hquiet.sent]
      have hmoves := Moves.sent (hinstall ((p.ctl.kickSystem host 1).load c) c.cradle observations)
      exact hsent.trans hmoves
    · exact List.prefix_rfl
  | newSession g =>
    change p.ctl.sent <+: (p.newSession host g).ctl.sent
    unfold Party.newSession
    split
    · next hnone _ =>
      have hquiet : Quiet p.ctl (p.ctl.kickSystem host 1) := SessionController.quiet_kickSystem 1 hnone
      have hsent : p.ctl.sent <+: (p.ctl.kickSystem host 1).sent := by rw [hquiet.sent]
      have hmoves := Moves.sent (hinstall (p.ctl.kickSystem host 1) g [])
      exact hsent.trans hmoves
    · exact List.prefix_rfl

variable {cond : Party G → Host → Party.Input G A → Prop} {T : Link G}

/-- Each page is sound in view of what has left the other, and goes on being so as more leaves. -/
theorem sound_step (hsound : ∀ b, (T.party b).Sound (T.openTraffic b)) {b : Bool} {host : Host}
    {input : Party.Input G A} (hreceived : ∀ payload, input = .receive payload → payload ∈ (T.party !b).ctl.sent)
    (hreload : input = .reload → (T.party b).Covered)
    (hfits : ((T.party b).next host input).ctl.history.numbered.length < 2 ^ 32) :
    ∀ r, ((T.put b ((T.party b).next host input)).party r).Sound
      ((T.put b ((T.party b).next host input)).openTraffic r) := by
  refine both_pages b ?_ ?_
  · rw [put_self]
    have hnext : ((T.party b).next host input).Sound (T.openTraffic b) :=
      (hsound b).next (fun _ => trivial) (fun _ => trivial)
        (fun payload hpayload frame hframe => admits_of_sent (hreceived payload hpayload) hframe) hreload hfits
    refine hnext.mono fun n msg harrives => ?_
    obtain ⟨frame, hframe, hmessage⟩ := harrives
    exact ⟨frame, by rwa [put_not], hmessage⟩
  · rw [put_not]
    refine (hsound (!b)).mono fun n msg harrives => ?_
    obtain ⟨frame, hframe, hmessage⟩ := harrives
    refine ⟨frame, ?_, hmessage⟩
    rw [Bool.not_not] at hframe ⊢
    rw [put_self]
    exact (next_sent (hsound b) host input).subset hframe

theorem Run.sound (h : Run cond T)
    (hreload : ∀ p host, cond p host .reload → p.Covered) : ∀ b, (T.party b).Sound (T.openTraffic b) := by
  induction h with
  | start => exact fun _ => Party.Sound.initial
  | @step T b host input _ hreceived hcond hfits ih =>
    exact sound_step ih hreceived (fun hinput => hreload (T.party b) host (hinput ▸ hcond)) hfits

/-- The runs in which no page is loaded again before its storage has every message that has left it. -/
def ReloadsCovered (p : Party G) (_ : Host) (input : Party.Input G A) : Prop := input = .reload → p.Covered

theorem consumed_within {b : Bool} (hb : (T.party b).Sound (T.openTraffic b))
    (hother : (T.party !b).Sound (T.openTraffic !b)) :
    (T.party b).ctl.history.consumed <+: (T.party !b).ctl.history.numbered := by
  refine Journal.prefix_of_at fun n msg hn => ?_
  obtain ⟨frame, hframe, hmessage⟩ := hb.ctl.consumed n msg hn
  exact hother.ctl.sent frame hframe n msg hmessage

end Steps

end Link

end Peer

end ChiaGaming
