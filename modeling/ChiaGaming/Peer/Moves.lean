import Mathlib.Logic.Relation
import ChiaGaming.Peer.Party

namespace ChiaGaming

namespace Peer

open Relation (ReflTransGen)

variable {G A : Type}

/-! What the methods of a controller do to that on which delivery rests, one move after another. -/

/-- Nothing but the session, its events and the flags. -/
structure Quiet (s s' : SessionController G) : Prop where
  cradle : s'.cradle.isSome = s.cradle.isSome
  events : s'.cradle = none → s.eventQueue = [] → s'.eventQueue = []
  messageNumber : s'.messageNumber = s.messageNumber
  remoteNumber : s'.remoteNumber = s.remoteNumber
  unackedMessages : s'.unackedMessages = s.unackedMessages
  storedMessages : s'.storedMessages = s.storedMessages
  reorderQueue : s'.reorderQueue = s.reorderQueue
  pendingOutboundSends : s'.pendingOutboundSends = s.pendingOutboundSends
  pendingAcks : s'.pendingAcks = s.pendingAcks
  needsImmediateDurability : s'.needsImmediateDurability = s.needsImmediateDurability
  protocolStopped : s'.protocolStopped = s.protocolStopped
  history : s'.history = s.history
  sent : s'.sent = s.sent

/-- The messages that may arrive, the acknowledgements that may arrive, and the numbers of the messages and of the
acknowledgements that may leave. -/
structure Traffic where
  arrives : ℕ → Bytes → Prop
  acked : ℕ → Prop
  leaves : ℕ → Prop
  acknowledges : ℕ → Prop

/-- Everything may come and everything may leave. -/
def Traffic.any : Traffic := ⟨fun _ _ => True, fun _ => True, fun _ => True, fun _ => True⟩

/-- A frame that may arrive. -/
def Traffic.admits (Γ : Traffic) : PeerFrame → Prop
  | .message msgno msg => Γ.arrives msgno msg
  | .ack msgno => Γ.acked msgno
  | .keepalive => True

inductive Move (Γ : Traffic) : SessionController G → SessionController G → Prop where
  | quiet {s s'} : Quiet s s' → Move Γ s s'
  | number {s} (msg) : s.cradle.isSome → Move Γ s (s.numberMessage msg)
  /-- The next message has been taken, and is to be acknowledged. -/
  | consume {s} (g : G) (msg) : s.cradle.isSome → Γ.arrives (s.remoteNumber + 1) msg →
      Move Γ s (SessionController.owe (s.remoteNumber + 1) { s with
        cradle := some g
        remoteNumber := s.remoteNumber + 1
        history := { s.history with consumed := s.history.consumed ++ [msg] } })
  | acknowledgeAgain {s} (n) : s.needsImmediateDurability → n ≤ s.remoteNumber →
      Move Γ s { s with pendingAcks := s.pendingAcks ++ [n] }
  | sendMessage {s} (e) : e ∈ s.unackedMessages → Γ.leaves e.msgno →
      Move Γ s { s with sent := s.sent ++ [buildFrame 1 e.msgno e.msg] }
  | sendAck {s} (n) : Γ.acknowledges n → Move Γ s { s with sent := s.sent ++ [buildFrame 2 n []] }
  | store {s} (e : Outbound) : Γ.arrives e.msgno e.msg →
      Move Γ s { s with storedMessages := s.storedMessages ++ [e] }
  | spill {s} : Move Γ s { s with storedMessages := [] }
  | enqueue {s} (n msg) : Γ.arrives n msg → Move Γ s { s with reorderQueue := s.reorderQueue.insert n msg }
  | dequeue {s} (n) : Move Γ s { s with reorderQueue := s.reorderQueue.erase n }
  | prune {s} (q : Outbound → Bool) (n) : Γ.acked n → (∀ e, q e = false → e.msgno ≤ n) →
      Move Γ s { s with unackedMessages := s.unackedMessages.filter q }
  | stop {s} : Move Γ s s.stopProtocolWork
  /-- An ended session has no use for the debt. -/
  | owe {s} (n) : s.protocolStopped → Move Γ s { s with pendingAcks := s.pendingAcks ++ [n] }

abbrev Moves (Γ : Traffic) : SessionController G → SessionController G → Prop := ReflTransGen (Move Γ)

variable {Γ : Traffic} {s s' : SessionController G} {host : Host}

theorem Quiet.moves (h : Quiet s s') : Moves Γ s s' := .single (.quiet h)

theorem Move.stopped (h : Move Γ s s') (hstop : s.protocolStopped = true) : s'.protocolStopped = true := by
  cases h with
  | quiet h => rw [h.protocolStopped, hstop]
  | number msg _ =>
    unfold SessionController.numberMessage SessionController.markNeedsImmediateDurability
    split_ifs <;> exact hstop
  | consume g msg _ _ =>
    unfold SessionController.owe SessionController.markNeedsImmediateDurability
    split_ifs <;> exact hstop
  | stop => rfl
  | _ => exact hstop

theorem Moves.stopped (h : Moves Γ s s') (hstop : s.protocolStopped = true) : s'.protocolStopped = true := by
  induction h with
  | refl => exact hstop
  | tail _ h ih => exact h.stopped ih

theorem Moves.running (h : Moves Γ s s') (hrunning : s'.protocolStopped = false) : s.protocolStopped = false := by
  rw [← Bool.not_eq_true] at hrunning ⊢
  exact fun hstop => hrunning (h.stopped hstop)

theorem Move.cradle (h : Move Γ s s') : s'.cradle.isSome = s.cradle.isSome := by
  cases h with
  | quiet h => exact h.cradle
  | number msg _ =>
    unfold SessionController.numberMessage SessionController.markNeedsImmediateDurability
    split_ifs <;> rfl
  | consume g msg hsome _ =>
    rw [hsome]
    unfold SessionController.owe SessionController.markNeedsImmediateDurability
    split_ifs <;> rfl
  | _ => rfl

theorem Moves.cradle (h : Moves Γ s s') : s'.cradle.isSome = s.cradle.isSome := by
  induction h with
  | refl => rfl
  | tail _ h ih => rw [h.cradle, ih]

/-- What is kept for later has arrived. -/
structure Held (Γ : Traffic) (s : SessionController G) : Prop where
  stored : ∀ e ∈ s.storedMessages, Γ.arrives e.msgno e.msg
  reorder : ∀ n msg, s.reorderQueue.lookup n = some msg → Γ.arrives n msg

theorem held_stopProtocolWork : Held Γ s.stopProtocolWork :=
  ⟨fun e he => absurd he List.not_mem_nil, fun n msg h => by cases h⟩

theorem lookup_insert_cases {d : Dict ℕ Bytes} {n k : ℕ} {msg msg' : Bytes} (h : (d.insert n msg).lookup k = some msg') :
    (k = n ∧ msg' = msg) ∨ d.lookup k = some msg' := by
  by_cases hk : k = n
  · subst hk
    rw [AList.lookup_insert] at h
    exact .inl ⟨rfl, (Option.some.inj h).symm⟩
  · rw [AList.lookup_insert_ne hk] at h
    exact .inr h

theorem lookup_of_erase {d : Dict ℕ Bytes} {n k : ℕ} {msg : Bytes} (h : (d.erase n).lookup k = some msg) :
    d.lookup k = some msg := by
  by_cases hk : k = n
  · subst hk
    rw [AList.lookup_erase] at h
    cases h
  · rwa [AList.lookup_erase_ne hk] at h

theorem Move.held (h : Move Γ s s') (hs : Held Γ s) : Held Γ s' := by
  cases h with
  | quiet h =>
    refine ⟨fun e he => hs.stored e ?_, fun n msg hn => hs.reorder n msg ?_⟩
    · rwa [h.storedMessages] at he
    · rwa [h.reorderQueue] at hn
  | number msg _ =>
    unfold SessionController.numberMessage SessionController.markNeedsImmediateDurability
    split_ifs <;> exact ⟨hs.stored, hs.reorder⟩
  | consume g msg _ _ =>
    unfold SessionController.owe SessionController.markNeedsImmediateDurability
    split_ifs <;> exact ⟨hs.stored, hs.reorder⟩
  | store e harrives =>
    refine ⟨fun e' he' => ?_, hs.reorder⟩
    rcases List.mem_append.mp he' with he' | he'
    · exact hs.stored e' he'
    · rw [List.mem_singleton.mp he']
      exact harrives
  | spill => exact ⟨fun e he => absurd he List.not_mem_nil, hs.reorder⟩
  | enqueue n msg harrives =>
    refine ⟨hs.stored, fun k msg' hk => ?_⟩
    rcases lookup_insert_cases hk with ⟨rfl, rfl⟩ | hk
    · exact harrives
    · exact hs.reorder k msg' hk
  | dequeue n => exact ⟨hs.stored, fun k msg' hk => hs.reorder k msg' (lookup_of_erase hk)⟩
  | stop => exact held_stopProtocolWork
  | _ => exact ⟨hs.stored, hs.reorder⟩

theorem Moves.held (h : Moves Γ s s') (hs : Held Γ s) : Held Γ s' := by
  induction h with
  | refl => exact hs
  | tail _ h ih => exact h.held ih

namespace SessionController

/-! Results. -/

theorem queueTerminalHandoff_moves (command : TerminalCommand) (hcradle : s.cradle.isSome) :
    Moves Γ s (s.queueTerminalHandoff command) := by
  unfold queueTerminalHandoff
  split_ifs with hknown
  · exact .refl
  · cases s.unackedMessages.find? fun e => e.msg = command.message with
    | some e => exact Quiet.moves ⟨rfl, fun _ h => h, rfl, rfl, rfl, rfl, rfl, rfl, rfl, rfl, rfl, rfl, rfl⟩
    | none =>
      refine .tail (.single (.number command.message hcradle)) (.quiet ?_)
      exact ⟨rfl, fun _ h => h, rfl, rfl, rfl, rfl, rfl, rfl, rfl, rfl, rfl, rfl, rfl⟩

theorem numberMessage_stopped (msg : Bytes) : (s.numberMessage msg).protocolStopped = s.protocolStopped := by
  unfold numberMessage markNeedsImmediateDurability
  split_ifs <;> rfl

theorem dispatchEvent_moves (event : GameSessionEvent) (hcradle : s.cradle.isSome) :
    Moves Γ s (s.dispatchEvent event) := by
  cases event with
  | outboundMessage msg =>
    unfold dispatchEvent
    split_ifs with hclosed
    · exact .refl
    · exact .single (.number msg hcradle)
  | presentation => exact .refl
  | request => exact .refl

theorem drainOneEvent_moves (hevents : s.cradle = none → s.eventQueue = []) : Moves Γ s s.drainOneEvent := by
  unfold drainOneEvent
  cases hq : s.eventQueue with
  | nil => exact .refl
  | cons event rest =>
    have hcradle : s.cradle.isSome := by
      rw [Option.isSome_iff_ne_none]
      intro hnone
      rw [hevents hnone] at hq
      cases hq
    have hquiet : Quiet s { s with eventQueue := rest } := by
      refine ⟨rfl, fun hnone _ => ?_, rfl, rfl, rfl, rfl, rfl, rfl, rfl, rfl, rfl, rfl, rfl⟩
      rw [show s.cradle = none from hnone] at hcradle
      cases hcradle
    exact .trans hquiet.moves (dispatchEvent_moves event hcradle)

theorem foldl_presentation {events : List GameSessionEvent} (h : ∀ event ∈ events, event.isPresentation) :
    events.foldl dispatchEvent s = s := by
  induction events with
  | nil => rfl
  | cons event events ih =>
    rw [List.foldl_cons]
    have hevent := h event List.mem_cons_self
    cases event with
    | presentation => exact ih fun e he => h e (List.mem_cons_of_mem _ he)
    | outboundMessage msg => cases hevent
    | request => cases hevent

/-- What a result does to a session that has not ended. -/
theorem processResult_cases (result : WasmResult) (hstop : s.protocolStopped = false) :
    (result.disposition = .terminal ∧ processResult result s = s.stopProtocolWork) ∨
    (result.disposition = .active ∧ processResult result s = s.queueEvents result.events) ∨
    ∃ command, result.disposition = .awaitOutboundTerminal command ∧
      processResult result s = (s.queueEvents result.events).queueTerminalHandoff command := by
  unfold processResult
  rw [if_neg (by rw [hstop]; decide)]
  cases result.disposition with
  | active => exact .inr (.inl ⟨rfl, rfl⟩)
  | awaitOutboundTerminal command => exact .inr (.inr ⟨command, rfl, rfl⟩)
  | terminal =>
    refine .inl ⟨rfl, ?_⟩
    unfold drainAllEvents
    exact foldl_presentation fun event he => (List.mem_filter.mp he).2

theorem quiet_queueEvents (events : List GameSessionEvent) (hcradle : s.cradle.isSome) :
    Quiet s (s.queueEvents events) := by
  refine ⟨rfl, fun hnone _ => ?_, rfl, rfl, rfl, rfl, rfl, rfl, rfl, rfl, rfl, rfl, rfl⟩
  rw [show s.cradle = none from hnone] at hcradle
  cases hcradle

theorem processResult_moves (result : WasmResult) (hcradle : s.cradle.isSome) :
    Moves Γ s (processResult result s) := by
  cases hstop : s.protocolStopped with
  | true =>
    unfold processResult
    rw [if_pos hstop]
  | false =>
    rcases processResult_cases result hstop with ⟨-, h⟩ | ⟨-, h⟩ | ⟨command, -, h⟩
    · rw [h]
      exact .single .stop
    · rw [h]
      exact (quiet_queueEvents _ hcradle).moves
    · rw [h]
      exact .trans (quiet_queueEvents _ hcradle).moves (queueTerminalHandoff_moves command hcradle)

theorem quiet_cradle {g g' : G} (hcradle : s.cradle = some g) (onChain : Bool) :
    Quiet s { s with cradle := some g', onChain } := by
  refine ⟨by rw [hcradle]; rfl, fun hnone _ => ?_, rfl, rfl, rfl, rfl, rfl, rfl, rfl, rfl, rfl, rfl, rfl⟩
  cases hnone

section Calls

variable [ChiaGame G A]

theorem callSession_moves (a : A) : Moves Γ s (s.callSession a) := by
  unfold callSession
  cases hcradle : s.cradle with
  | none => exact .refl
  | some g =>
    dsimp only
    cases (ChiaGame.call a : Act Error G WasmResult) g with
    | ok result g' => exact .trans (quiet_cradle hcradle s.onChain).moves (processResult_moves result rfl)
    | error e g' => exact (quiet_cradle hcradle s.onChain).moves

theorem goOnChain_moves : Moves Γ s s.goOnChain := by
  unfold goOnChain
  cases hcradle : s.cradle with
  | none => exact .refl
  | some g =>
    dsimp only
    cases (ChiaGame.goOnChain : Act Error G WasmResult) g with
    | ok result g' => exact .trans (quiet_cradle hcradle _).moves (processResult_moves result rfl)
    | error e g' => exact (quiet_cradle hcradle false).moves

end Calls

/-! Messages. -/

theorem owe_eq (n : ℕ) (hstop : s.protocolStopped = false) :
    s.owe n = { s with pendingAcks := s.pendingAcks ++ [n], needsImmediateDurability := true } := by
  unfold owe markNeedsImmediateDurability
  rw [if_neg (by rw [hstop]; decide)]

theorem owe_stopped (n : ℕ) (hstop : s.protocolStopped = true) :
    s.owe n = { s with pendingAcks := s.pendingAcks ++ [n] } := by
  unfold owe markNeedsImmediateDurability
  rw [if_pos hstop]

theorem owe_cradle (n : ℕ) : (s.owe n).cradle.isSome = s.cradle.isSome := by
  unfold owe markNeedsImmediateDurability
  split_ifs <;> rfl

theorem queueEvents_owe (events : List GameSessionEvent) (n : ℕ) :
    (s.queueEvents events).owe n = (s.owe n).queueEvents events := by
  unfold owe markNeedsImmediateDurability queueEvents
  dsimp only
  split_ifs <;> rfl

theorem numberMessage_eq (msg : Bytes) (hstop : s.protocolStopped = false) :
    s.numberMessage msg = { s with
      messageNumber := s.messageNumber + 1
      unackedMessages := s.unackedMessages ++ [⟨s.messageNumber, msg⟩]
      pendingOutboundSends := s.pendingOutboundSends ++ [⟨s.messageNumber, msg⟩]
      history := { s.history with numbered := s.history.numbered ++ [msg] }
      needsImmediateDurability := true } := by
  unfold numberMessage markNeedsImmediateDurability
  rw [if_neg (by rw [hstop]; decide)]

theorem queueTerminalHandoff_stopped (command : TerminalCommand) :
    (s.queueTerminalHandoff command).protocolStopped = s.protocolStopped := by
  unfold queueTerminalHandoff
  split_ifs with hknown
  · rfl
  · cases s.unackedMessages.find? fun e => e.msg = command.message with
    | some e => rfl
    | none => exact numberMessage_stopped command.message

/-- The debt of a message may be noted before its results. -/
theorem queueTerminalHandoff_owe (command : TerminalCommand) (n : ℕ) (hstop : s.protocolStopped = false) :
    (s.queueTerminalHandoff command).owe n = (s.owe n).queueTerminalHandoff command := by
  rw [owe_eq n hstop, owe_eq n ((queueTerminalHandoff_stopped command).trans hstop)]
  unfold queueTerminalHandoff
  dsimp only
  by_cases hknown : s.terminalHandoff.any fun c => c.id = command.id
  · rw [if_pos hknown, if_pos hknown]
  · rw [if_neg hknown, if_neg hknown]
    cases s.unackedMessages.find? fun e => e.msg = command.message with
    | some e => rfl
    | none =>
      have hnumber := numberMessage_eq command.message hstop
      have howed := numberMessage_eq (s := { s with
        pendingAcks := s.pendingAcks ++ [n]
        needsImmediateDurability := true }) command.message hstop
      dsimp only at hnumber howed ⊢
      rw [hnumber, howed]

theorem processResult_owe (result : WasmResult) (n : ℕ) (hcradle : s.cradle.isSome) :
    Moves Γ (s.owe n) ((processResult result s).owe n) := by
  cases hstop : s.protocolStopped with
  | true =>
    have hsame : processResult result s = s := by
      unfold processResult
      rw [if_pos hstop]
    rw [hsame]
  | false =>
    rcases processResult_cases result hstop with ⟨-, h⟩ | ⟨-, h⟩ | ⟨command, -, h⟩
    · rw [h, owe_stopped (s := s.stopProtocolWork) n rfl]
      have hsame : s.stopProtocolWork = (s.owe n).stopProtocolWork := by
        rw [owe_eq n hstop]
        rfl
      rw [hsame]
      exact .tail (.single .stop) (.owe n rfl)
    · rw [h, queueEvents_owe]
      exact (quiet_queueEvents result.events ((owe_cradle n).trans hcradle)).moves
    · rw [h, queueTerminalHandoff_owe (s := s.queueEvents result.events) command n hstop, queueEvents_owe]
      have hcradle' := (owe_cradle n).trans hcradle
      exact .trans (quiet_queueEvents result.events hcradle').moves
        (queueTerminalHandoff_moves command hcradle')

section Calls

variable [ChiaGame G A]

theorem deliverSingleMessage_moves {msg : Bytes} (harrives : Γ.arrives (s.remoteNumber + 1) msg) :
    Moves Γ s (deliverSingleMessage (s.remoteNumber + 1) msg s) := by
  unfold deliverSingleMessage
  cases hcradle : s.cradle with
  | none => exact .refl
  | some g =>
    dsimp only
    have hsome : s.cradle.isSome := by
      rw [hcradle]
      rfl
    cases (ChiaGame.deliverMessage msg : Act Error G WasmResult) g with
    | ok result g' => exact .head (.consume g' msg hsome harrives) (processResult_owe result _ rfl)
    | error e g' => exact .trans (quiet_cradle hcradle s.onChain).moves goOnChain_moves

theorem flushReorderQueue_moves {fuel : ℕ} (hs : Held Γ s) : Moves Γ s (flushReorderQueue fuel s) := by
  induction fuel generalizing s with
  | zero => exact .refl
  | succ fuel ih =>
    unfold flushReorderQueue
    split_ifs with hchain
    · exact .refl
    · cases hnext : s.reorderQueue.lookup (s.remoteNumber + 1) with
      | none => exact .refl
      | some msg =>
        have hdequeue : Moves Γ s { s with reorderQueue := s.reorderQueue.erase (s.remoteNumber + 1) } :=
          .single (.dequeue (s.remoteNumber + 1))
        have hdeliver := hdequeue.trans (deliverSingleMessage_moves
          (s := { s with reorderQueue := s.reorderQueue.erase (s.remoteNumber + 1) }) (hs.reorder _ msg hnext))
        exact hdeliver.trans (ih (Moves.held hdeliver hs))

end Calls

/-! Frames. -/

theorem quiet_noteTerminalHandoffSent (n : ℕ) : Quiet s (s.noteTerminalHandoffSent n) :=
  ⟨rfl, fun _ h => h, rfl, rfl, rfl, rfl, rfl, rfl, rfl, rfl, rfl, rfl, rfl⟩

theorem sendMessage_moves {e : Outbound} (he : e ∈ s.unackedMessages) (hleaves : Γ.leaves e.msgno) :
    Moves Γ s (s.sendMessage host e).2 := by
  unfold sendMessage send
  split_ifs with haccepts
  · exact .single (.sendMessage e he hleaves)
  · exact .refl

theorem sendAck_moves {n : ℕ} (h : Γ.acknowledges n) : Moves Γ s (s.sendAck host n).2 := by
  unfold sendAck send
  split_ifs with haccepts
  · exact .single (.sendAck n h)
  · exact .refl

theorem sendMessage_unackedMessages (e : Outbound) :
    (s.sendMessage host e).2.unackedMessages = s.unackedMessages := by
  unfold sendMessage send
  split_ifs <;> rfl

theorem resendAll_moves {es : List Outbound} (hes : ∀ e ∈ es, e ∈ s.unackedMessages ∧ Γ.leaves e.msgno) :
    Moves Γ s (resendAll host es s).2 := by
  induction es generalizing s with
  | nil => exact .refl
  | cons e es ih =>
    obtain ⟨he, hleaves⟩ := hes e List.mem_cons_self
    have hsend : Moves Γ s (s.sendMessage host e).2 := sendMessage_moves he hleaves
    have hsame : (s.sendMessage host e).2.unackedMessages = s.unackedMessages := sendMessage_unackedMessages e
    unfold resendAll
    cases hsent : s.sendMessage host e with
    | mk sent s' =>
      rw [hsent] at hsend hsame
      dsimp only at hsend hsame
      cases sent with
      | false => exact hsend
      | true =>
        refine (hsend.trans (quiet_noteTerminalHandoffSent e.msgno).moves).trans (ih fun e' he' => ?_)
        obtain ⟨hmem, hleaves'⟩ := hes e' (List.mem_cons_of_mem _ he')
        exact ⟨hsame ▸ hmem, hleaves'⟩

/-- The messages without an acknowledgement are about to leave again. -/
def Retransmits (host : Host) (s : SessionController G) : Prop :=
  s.protocolStopped = false ∧ s.unackedMessages ≠ [] ∧ s.lastUnackedResendAt + unackedResendMinIntervalMs ≤ host.now

theorem resendUnacked_moves (h : s.Retransmits host → ∀ e ∈ s.unackedMessages, Γ.leaves e.msgno) :
    Moves Γ s (s.resendUnacked host).2 := by
  unfold resendUnacked
  split_ifs with hstop hempty hearly
  · exact .refl
  · exact .refl
  · exact .refl
  · have hquiet : Quiet s { s with lastUnackedResendAt := host.now } :=
      ⟨rfl, fun _ h => h, rfl, rfl, rfl, rfl, rfl, rfl, rfl, rfl, rfl, rfl, rfl⟩
    refine .trans hquiet.moves (resendAll_moves fun e he => ⟨he, h ⟨?_, ?_, ?_⟩ e he⟩)
    · exact Bool.not_eq_true _ ▸ hstop
    · rwa [List.isEmpty_iff] at hempty
    · omega

/-- The frames that call for what has no acknowledgement yet. -/
def CallsFor (s : SessionController G) : PeerFrame → Prop
  | .message msgno _ => msgno ≤ s.remoteNumber
  | .ack _ => False
  | .keepalive => True

/-- What a controller has to be sure of before it takes a frame. -/
structure Ready (Γ : Traffic) (host : Host) (s : SessionController G) (frame : PeerFrame) : Prop where
  resend : s.CallsFor frame → s.Retransmits host → ∀ e ∈ s.unackedMessages, Γ.leaves e.msgno
  duplicate : s.needsImmediateDurability = false → ∀ n ≤ s.remoteNumber, Γ.acknowledges n
  ended : s.protocolStopped = true ∨ s.onChain = true → ∀ n, Γ.acknowledges n

theorem sendAck_eq (n : ℕ) : ∃ sent, (s.sendAck host n).2 = { s with sent := s.sent ++ sent } := by
  unfold sendAck send
  split_ifs
  · exact ⟨[buildFrame 2 n []], rfl⟩
  · exact ⟨[], by rw [List.append_nil]⟩

section Calls

variable [ChiaGame G A]

theorem deliverMessage_moves {msgno : ℕ} {msg : Bytes} (hs : Held Γ s) (harrives : Γ.arrives msgno msg)
    (hready : Ready Γ host s (.message msgno msg)) : Moves Γ s (s.deliverMessage host msgno msg) := by
  unfold deliverMessage
  split_ifs with hretired hended hunready hduplicate hdebt hahead
  · exact .refl
  · rw [Bool.or_eq_true] at hended
    exact sendAck_moves (hready.ended hended msgno)
  · exact .single (.store ⟨msgno, msg⟩ harrives)
  · exact .trans (.single (.acknowledgeAgain msgno hdebt hduplicate)) (resendUnacked_moves (hready.resend hduplicate))
  · have hack : Moves Γ s (s.sendAck host msgno).2 :=
      sendAck_moves (hready.duplicate (Bool.not_eq_true _ ▸ hdebt) msgno hduplicate)
    obtain ⟨sent, hsent⟩ := sendAck_eq msgno
    rw [hsent] at hack ⊢
    exact .trans hack (resendUnacked_moves (hready.resend hduplicate))
  · exact .single (.enqueue msgno msg harrives)
  · obtain rfl : msgno = s.remoteNumber + 1 := by omega
    have hdeliver : Moves Γ s (s.deliverSingleMessage (s.remoteNumber + 1) msg) := deliverSingleMessage_moves harrives
    exact hdeliver.trans (flushReorderQueue_moves (Moves.held hdeliver hs))

theorem completeOutboundTerminalHandoffAfterAck_moves : Moves Γ s s.completeOutboundTerminalHandoffAfterAck := by
  unfold completeOutboundTerminalHandoffAfterAck
  cases hcradle : s.cradle with
  | none => exact .refl
  | some g =>
    dsimp only
    cases (ChiaGame.completeOutboundTerminalHandoff : Act Error G WasmResult) g with
    | error e g' => exact (quiet_cradle hcradle s.onChain).moves
    | ok result g' =>
      dsimp only
      cases result.disposition with
      | terminal =>
        have hquiet : Quiet s { s with cradle := some g', terminalHandoff := none } := by
          refine ⟨by rw [hcradle]; rfl, fun hnone _ => ?_, rfl, rfl, rfl, rfl, rfl, rfl, rfl, rfl, rfl, rfl, rfl⟩
          cases hnone
        exact .trans hquiet.moves (processResult_moves result rfl)
      | active => exact (quiet_cradle hcradle s.onChain).moves
      | awaitOutboundTerminal command => exact (quiet_cradle hcradle s.onChain).moves

theorem receiveAck_moves {n : ℕ} (hacked : Γ.acked n) : Moves Γ s (s.receiveAck n) := by
  unfold receiveAck
  split_ifs with hretired
  · exact .refl
  · have hprune : Moves Γ s { s with unackedMessages := s.unackedMessages.filter fun e =>
        n < e.msgno || s.terminalHandoff.any fun c => c.msgno = e.msgno && !c.sent } := by
      refine .single (.prune _ n hacked fun e he => ?_)
      rw [Bool.or_eq_false_iff] at he
      exact Nat.le_of_not_lt (of_decide_eq_false he.1)
    dsimp only
    split_ifs
    · exact hprune.trans completeOutboundTerminalHandoffAfterAck_moves
    · exact hprune

theorem receive_moves {payload : Bytes} (hs : Held Γ s)
    (hadmits : ∀ frame, deliverRawPeerMessage payload = some frame → Γ.admits frame)
    (hready : ∀ frame, deliverRawPeerMessage payload = some frame → Ready Γ host s frame) :
    Moves Γ s (s.receive host payload) := by
  unfold receive
  cases hframe : deliverRawPeerMessage payload with
  | none => exact .refl
  | some frame =>
    have hadmit := hadmits frame hframe
    have hready := hready frame hframe
    cases frame with
    | message msgno msg => exact deliverMessage_moves hs hadmit hready
    | ack msgno => exact receiveAck_moves hadmit
    | keepalive => exact resendUnacked_moves (hready.resend trivial)

/-- The stored messages, each of which finds a controller that is ready for it. -/
theorem foldl_deliverMessage_moves {es : List Outbound} (hs : Held Γ s)
    (harrives : ∀ e ∈ es, Γ.arrives e.msgno e.msg)
    (hready : ∀ pre e rest, es = pre ++ e :: rest →
      Moves Γ s (pre.foldl (fun s e => s.deliverMessage host e.msgno e.msg) s) →
      Ready Γ host (pre.foldl (fun s e => s.deliverMessage host e.msgno e.msg) s) (.message e.msgno e.msg)) :
    Moves Γ s (es.foldl (fun s e => s.deliverMessage host e.msgno e.msg) s) := by
  induction es using List.reverseRecOn with
  | nil => exact .refl
  | append_singleton es e ih =>
    have hmoves : Moves Γ s (es.foldl (fun s e => s.deliverMessage host e.msgno e.msg) s) := by
      refine ih (fun e' he' => harrives e' (List.mem_append_left _ he')) fun pre e' rest heq => ?_
      exact hready pre e' (rest ++ [e]) (by rw [heq, List.append_assoc, List.cons_append])
    rw [List.foldl_append]
    exact hmoves.trans (deliverMessage_moves (Moves.held hmoves hs)
      (harrives e (List.mem_append_right _ List.mem_cons_self)) (hready es e [] rfl hmoves))

theorem sendAck_onChain (n : ℕ) : (s.sendAck host n).2.onChain = s.onChain := by
  obtain ⟨sent, h⟩ : ∃ sent, (s.sendAck host n).2 = { s with sent := s.sent ++ sent } := sendAck_eq n
  rw [h]

/-- A session that has gone on chain takes nothing more. -/
theorem foldl_deliverMessage_onChain {es : List Outbound} (hchain : s.onChain = true) :
    (es.foldl (fun s e => s.deliverMessage host e.msgno e.msg) s).onChain = true := by
  induction es generalizing s with
  | nil => exact hchain
  | cons e es ih =>
    refine ih ?_
    dsimp only
    unfold deliverMessage
    rw [if_pos (show (s.protocolStopped || s.onChain) = true by rw [hchain, Bool.or_true])]
    split_ifs with hretired
    · exact hchain
    · rw [sendAck_onChain]
      exact hchain

theorem resendAll_onChain (es : List Outbound) : (resendAll host es s).2.onChain = s.onChain := by
  induction es generalizing s with
  | nil => rfl
  | cons e es ih =>
    unfold resendAll sendMessage send
    split_ifs with haccepts
    · exact ih
    · rfl

theorem resendUnacked_onChain : (s.resendUnacked host).2.onChain = s.onChain := by
  unfold resendUnacked
  split_ifs
  · rfl
  · rfl
  · rfl
  · exact resendAll_onChain _

/-- What a controller comes to from another, and where it stands by then. -/
structure Leads (s s' : SessionController G) : Prop where
  moves : Moves Traffic.any s s'
  onChain : s.onChain = true → s'.onChain = true

theorem held_any (s : SessionController G) : Held Traffic.any s := ⟨fun _ _ => trivial, fun _ _ _ => trivial⟩

/-- Where everything may leave, a controller is ready for whatever comes. -/
theorem ready_of_open (hleaves : ∀ n, Γ.leaves n) (hacknowledges : ∀ n, Γ.acknowledges n) (s : SessionController G)
    (frame : PeerFrame) : Ready Γ host s frame :=
  ⟨fun _ _ e _ => hleaves e.msgno, fun _ n _ => hacknowledges n, fun _ n => hacknowledges n⟩

theorem leads_deliverStored (pre rest : List Outbound) :
    Leads (s.deliverStored host pre) (s.deliverStored host (pre ++ rest)) := by
  unfold deliverStored
  rw [List.foldl_append]
  exact ⟨foldl_deliverMessage_moves (held_any _) (fun _ _ => trivial)
    fun _ _ _ _ _ => ready_of_open (fun _ => trivial) (fun _ => trivial) _ _, foldl_deliverMessage_onChain⟩

theorem spillStoredMessages_moves (hs : Held Γ s)
    (hready : ∀ m, Moves Γ s m → Leads m (s.spillStoredMessages host) → ∀ frame, Ready Γ host m frame) :
    Moves Γ s (s.spillStoredMessages host) := by
  unfold spillStoredMessages at hready ⊢
  split_ifs at hready ⊢ with hunready
  · exact .refl
  · have hspill : Moves Γ s { s with storedMessages := [] } := .single .spill
    dsimp only at hready ⊢
    -- What follows the stored messages does not depend on how they were delivered.
    have hlast : Leads (s.deliverStored host s.storedMessages)
        (if (s.deliverStored host s.storedMessages).restoredSession then
          ({ s.deliverStored host s.storedMessages with restoredSession := false }.resendUnacked host).2
        else s.deliverStored host s.storedMessages) := by
      split_ifs with hrestored
      · refine ⟨.trans (Quiet.moves ?_) (resendUnacked_moves fun _ _ _ => trivial), fun hchain => ?_⟩
        · exact ⟨rfl, fun _ h => h, rfl, rfl, rfl, rfl, rfl, rfl, rfl, rfl, rfl, rfl, rfl⟩
        · rw [resendUnacked_onChain]
          exact hchain
      · exact ⟨.refl, id⟩
    have hmoves : Moves Γ s (s.deliverStored host s.storedMessages) := by
      refine hspill.trans (foldl_deliverMessage_moves (Moves.held hspill hs) hs.stored fun pre e rest heq hpre => ?_)
      have hleads : Leads (s.deliverStored host pre) (s.deliverStored host (pre ++ e :: rest)) :=
        leads_deliverStored pre (e :: rest)
      rw [← heq] at hleads
      exact hready _ (hspill.trans hpre)
        ⟨hleads.moves.trans hlast.moves, fun hchain => hlast.onChain (hleads.onChain hchain)⟩ _
    split_ifs at hready hlast ⊢ with hrestored
    · refine hmoves.trans (.trans (Quiet.moves ?_) (resendUnacked_moves fun hresend => ?_))
      · exact ⟨rfl, fun _ h => h, rfl, rfl, rfl, rfl, rfl, rfl, rfl, rfl, rfl, rfl, rfl⟩
      · exact (hready _ hmoves hlast .keepalive).resend trivial hresend
    · exact hmoves

/-- Without a session nothing is spilled. -/
theorem spillStoredMessages_none (hcradle : s.cradle = none) : s.spillStoredMessages host = s := by
  unfold spillStoredMessages
  rw [if_pos]
  rw [hcradle, Option.isNone_none, Bool.or_true]

theorem quiet_qualifyingEvents (flags : ℕ) : Quiet s { s with qualifyingEvents := flags } :=
  ⟨rfl, fun _ h => h, rfl, rfl, rfl, rfl, rfl, rfl, rfl, rfl, rfl, rfl, rfl⟩

theorem quiet_kickSystem (flags : ℕ) (hcradle : s.cradle = none) : Quiet s (s.kickSystem host flags) := by
  unfold kickSystem
  dsimp only
  split_ifs with hflags
  · rw [spillStoredMessages_none (s := { s with qualifyingEvents := s.qualifyingEvents ||| flags ||| 4 }) hcradle]
    exact quiet_qualifyingEvents _
  · exact quiet_qualifyingEvents _

/-- The session is in place from the first move on. -/
theorem installSession_moves (g : G) (observations : List A) :
    Moves Γ { s with cradle := some g } (s.installSession g observations) := by
  have hcalls : ∀ (as : List A) (s : SessionController G), Moves Γ s (as.foldl (fun s a => s.callSession a) s) := by
    intro as
    induction as with
    | nil => exact fun _ => .refl
    | cons a as ih => exact fun s => (callSession_moves a).trans (ih _)
  unfold installSession
  cases ChiaGame.pendingTerminalHandoff g with
  | none => exact hcalls observations _
  | some command => exact .trans (queueTerminalHandoff_moves command rfl) (hcalls observations _)

theorem setGameSession_moves (hs : Held Γ s) (g : G) (observations : List A)
    (hready : ∀ m, Moves Γ { s with cradle := some g } m → Leads m (s.setGameSession host g observations) →
      ∀ frame, Ready Γ host m frame) :
    Moves Γ { s with cradle := some g } (s.setGameSession host g observations) := by
  have hinstall := installSession_moves (Γ := Γ) (s := s) g observations
  have hheld : Held Γ { s with cradle := some g } := ⟨hs.stored, hs.reorder⟩
  exact hinstall.trans (spillStoredMessages_moves (Moves.held hinstall hheld)
    fun m hmoves hleads => hready m (hinstall.trans hmoves) hleads)

theorem cleanup_moves : Moves Γ s s.cleanup := by
  refine .tail (.single .stop) (.quiet ?_)
  exact ⟨rfl, fun _ _ => rfl, rfl, rfl, rfl, rfl, rfl, rfl, rfl, rfl, rfl, rfl, rfl⟩

end Calls

/-! The flush. -/

/-- Frames that have left, and the mark on a terminal message among them. -/
def emitted (frames : List Bytes) (handoff : Option TerminalHandoff) (s : SessionController G) : SessionController G :=
  { s with sent := s.sent ++ frames, terminalHandoff := handoff }

theorem sendOutbound_spec (host : Host) (es : List Outbound) (s : SessionController G) :
    ∃ failed frames handoff, s.sendOutbound host es = (failed, s.emitted frames handoff) ∧ failed ⊆ es ∧
      ∀ frame ∈ frames, ∃ e ∈ es, frame = buildFrame 1 e.msgno e.msg := by
  induction es generalizing s with
  | nil =>
    refine ⟨[], [], s.terminalHandoff, ?_, List.Subset.refl _, fun frame h => absurd h List.not_mem_nil⟩
    rw [sendOutbound, emitted, List.append_nil]
  | cons e es ih =>
    unfold sendOutbound sendMessage send
    split_ifs with haccepts
    · obtain ⟨failed, frames, handoff, hrest, hfailed, hframes⟩ :=
        ih ({ s with sent := s.sent ++ [buildFrame 1 e.msgno e.msg] }.noteTerminalHandoffSent e.msgno)
      refine ⟨failed, buildFrame 1 e.msgno e.msg :: frames, handoff, ?_, List.Subset.trans hfailed (List.subset_cons_self _ _), ?_⟩
      · dsimp only
        rw [hrest]
        unfold emitted noteTerminalHandoffSent
        rw [List.append_assoc, List.cons_append, List.nil_append]
      · intro frame hframe
        rcases List.mem_cons.mp hframe with rfl | hframe
        · exact ⟨e, List.mem_cons_self, rfl⟩
        · obtain ⟨e', he', heq⟩ := hframes frame hframe
          exact ⟨e', List.mem_cons_of_mem _ he', heq⟩
    · obtain ⟨failed, frames, handoff, hrest, hfailed, hframes⟩ := ih s
      refine ⟨e :: failed, frames, handoff, ?_, List.cons_subset_cons e hfailed, fun frame hframe => ?_⟩
      · dsimp only
        rw [hrest]
      · obtain ⟨e', he', heq⟩ := hframes frame hframe
        exact ⟨e', List.mem_cons_of_mem _ he', heq⟩

theorem sendAcks_spec (host : Host) (ns : List ℕ) (s : SessionController G) :
    ∃ failed frames, s.sendAcks host ns = (failed, s.emitted frames s.terminalHandoff) ∧ failed ⊆ ns ∧
      ∀ frame ∈ frames, ∃ n ∈ ns, frame = buildFrame 2 n [] := by
  induction ns generalizing s with
  | nil =>
    refine ⟨[], [], ?_, List.Subset.refl _, fun frame h => absurd h List.not_mem_nil⟩
    rw [sendAcks, emitted, List.append_nil]
  | cons n ns ih =>
    unfold sendAcks sendAck send
    split_ifs with haccepts
    · obtain ⟨failed, frames, hrest, hfailed, hframes⟩ := ih { s with sent := s.sent ++ [buildFrame 2 n []] }
      refine ⟨failed, buildFrame 2 n [] :: frames, ?_, List.Subset.trans hfailed (List.subset_cons_self _ _), ?_⟩
      · dsimp only
        rw [hrest]
        unfold emitted
        rw [List.append_assoc, List.cons_append, List.nil_append]
      · intro frame hframe
        rcases List.mem_cons.mp hframe with rfl | hframe
        · exact ⟨n, List.mem_cons_self, rfl⟩
        · obtain ⟨n', hn', heq⟩ := hframes frame hframe
          exact ⟨n', List.mem_cons_of_mem _ hn', heq⟩
    · obtain ⟨failed, frames, hrest, hfailed, hframes⟩ := ih s
      refine ⟨n :: failed, frames, ?_, List.cons_subset_cons n hfailed, fun frame hframe => ?_⟩
      · dsimp only
        rw [hrest]
      · obtain ⟨n', hn', heq⟩ := hframes frame hframe
        exact ⟨n', List.mem_cons_of_mem _ hn', heq⟩

/-- What a flush leaves behind. -/
def Flushed (outboundCount ackCount : ℕ) (s s' : SessionController G) : Prop :=
  ∃ outbound acks needs frames handoff, s' = { s with
    pendingOutboundSends := outbound ++ s.pendingOutboundSends.drop outboundCount
    pendingAcks := acks ++ s.pendingAcks.drop ackCount
    needsImmediateDurability := needs
    sent := s.sent ++ frames
    terminalHandoff := handoff } ∧
    needs = (!(outbound ++ s.pendingOutboundSends.drop outboundCount).isEmpty ||
      !(acks ++ s.pendingAcks.drop ackCount).isEmpty) ∧
    outbound ⊆ s.pendingOutboundSends.take outboundCount ∧ acks ⊆ s.pendingAcks.take ackCount ∧
    ∀ frame ∈ frames, (∃ e ∈ s.pendingOutboundSends.take outboundCount, frame = buildFrame 1 e.msgno e.msg) ∨
      ∃ n ∈ s.pendingAcks.take ackCount, frame = buildFrame 2 n []

theorem sendPending_flushed (outboundCount ackCount : ℕ) (s : SessionController G) :
    Flushed outboundCount ackCount s (s.sendPending host outboundCount ackCount) := by
  unfold sendPending
  dsimp only
  obtain ⟨outbound, frames, handoff, hsend, houtbound, hframes⟩ := sendOutbound_spec host
    (s.pendingOutboundSends.take outboundCount) { s with
      pendingOutboundSends := s.pendingOutboundSends.drop outboundCount
      pendingAcks := s.pendingAcks.drop ackCount }
  rw [hsend]
  dsimp only
  obtain ⟨acks, frames', hsend', hacks, hframes'⟩ := sendAcks_spec host
    (s.pendingAcks.take ackCount) (emitted frames handoff { s with
      pendingOutboundSends := s.pendingOutboundSends.drop outboundCount
      pendingAcks := s.pendingAcks.drop ackCount })
  rw [hsend']
  refine ⟨outbound, acks, _, frames ++ frames', handoff, ?_, rfl, houtbound, hacks, fun frame hframe => ?_⟩
  · unfold emitted
    rw [List.append_assoc]
  · rcases List.mem_append.mp hframe with hframe | hframe
    · exact .inl (hframes frame hframe)
    · exact .inr (hframes' frame hframe)

end SessionController

end Peer

end ChiaGaming
