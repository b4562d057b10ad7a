import ChiaGaming.Peer.Controller

namespace ChiaGaming

/-! A player's page and its storage, and two of them with the relay between. -/

namespace Peer

variable {G A : Type}

/-- What the storage keeps of a session.  The history belongs to it as the session itself does. -/
structure SessionSave (G : Type) where
  cradle : G
  messageNumber : ℕ
  remoteNumber : ℕ
  unackedMessages : List Outbound
  history : History

/-- A flush first puts its snapshot in the cache, then a copy of the cache in the queue of the storage, and goes
on once that copy has been written. -/
inductive FlushPhase where
  | saving
  | writing
  | saved
  deriving DecidableEq

structure Flush where
  outboundCount : ℕ
  ackCount : ℕ
  phase : FlushPhase

/-- The storage writes its queue one by one; a mark is on the copy that a flush waits for. -/
structure Party (G : Type) where
  ctl : SessionController G
  flush : Option Flush
  cached : Option (SessionSave G)
  writes : List (SessionSave G × Bool)
  disk : Option (SessionSave G)

namespace SessionController

/-- `getWasmFields`: nothing before a session is in place. -/
def snapshot (s : SessionController G) : Option (SessionSave G) :=
  s.cradle.map fun cradle => ⟨cradle, s.messageNumber, s.remoteNumber, s.unackedMessages, s.history⟩

/-- The counters and the messages of a save. -/
def load (save : SessionSave G) (s : SessionController G) : SessionController G :=
  { s with
    messageNumber := save.messageNumber
    remoteNumber := save.remoteNumber
    unackedMessages := save.unackedMessages
    history := save.history
    restoredSession := true }

section Send

variable (host : Host)

/-- The messages that the socket has not taken. -/
def sendOutbound : List Outbound → SessionController G → List Outbound × SessionController G
  | [], s => ([], s)
  | e :: rest, s =>
    match s.sendMessage host e with
    | (true, s') => sendOutbound rest (s'.noteTerminalHandoffSent e.msgno)
    | (false, s') => let (failed, s'') := sendOutbound rest s'; (e :: failed, s'')

def sendAcks : List ℕ → SessionController G → List ℕ × SessionController G
  | [], s => ([], s)
  | n :: rest, s =>
    match s.sendAck host n with
    | (true, s') => sendAcks rest s'
    | (false, s') => let (failed, s'') := sendAcks rest s'; (n :: failed, s'')

/-- So many of the messages and acknowledgements that wait leave; those that the socket does not take go on waiting
in front of the others. -/
def sendPending (outboundCount ackCount : ℕ) (s : SessionController G) : SessionController G :=
  let outbound := s.pendingOutboundSends.take outboundCount
  let acks := s.pendingAcks.take ackCount
  let s := { s with
    pendingOutboundSends := s.pendingOutboundSends.drop outboundCount
    pendingAcks := s.pendingAcks.drop ackCount }
  let (failedOutbound, s) := s.sendOutbound host outbound
  let (failedAcks, s) := s.sendAcks host acks
  let s := { s with
    pendingOutboundSends := failedOutbound ++ s.pendingOutboundSends
    pendingAcks := failedAcks ++ s.pendingAcks }
  { s with needsImmediateDurability := !s.pendingOutboundSends.isEmpty || !s.pendingAcks.isEmpty }

end Send

end SessionController

namespace Party

variable [ChiaGame G A]

/-- What comes to a page, or what it comes to do. -/
inductive Input (G A : Type) where
  | receive (payload : Bytes)
  | call (a : A)
  | goOnChain
  | drain
  | reconnect
  | save
  | beginFlush
  | queueWrite (awaited : Bool)
  | write
  | failWrite
  | finishFlush
  | cleanup
  | reload
  | restore (observations : List A)
  | newSession (cradle : G)

/-- `onSaveNeeded` -/
def save (p : Party G) : Party G :=
  match p.ctl.snapshot with
  | some snapshot => { p with cached := some snapshot }
  | none => p

def beginFlush (host : Host) (p : Party G) : Party G :=
  if p.ctl.protocolStopped || p.flush.isSome then p
  else if p.ctl.needsImmediateDurability then
    { p.save with flush := some ⟨p.ctl.pendingOutboundSends.length, p.ctl.pendingAcks.length, .saving⟩ }
  else { p with
    ctl := p.ctl.sendPending host p.ctl.pendingOutboundSends.length p.ctl.pendingAcks.length }

/-- A copy of the cache to be written: that of a flush, or that of the timer. -/
def queueWrite (awaited : Bool) (p : Party G) : Party G :=
  match p.cached, awaited, p.flush with
  | some save, true, some ⟨outboundCount, ackCount, .saving⟩ =>
    { p with writes := p.writes ++ [(save, true)], flush := some ⟨outboundCount, ackCount, .writing⟩ }
  | some save, false, _ => { p with writes := p.writes ++ [(save, false)] }
  | _, _, _ => p

def write (p : Party G) : Party G :=
  match p.writes with
  | [] => p
  | (save, awaited) :: rest =>
    let flush := if awaited then p.flush.map fun f => { f with phase := .saved } else p.flush
    { p with disk := some save, writes := rest, flush }

/-- What waits for the copy goes on waiting, until another flush. -/
def failWrite (p : Party G) : Party G :=
  match p.writes with
  | [] => p
  | (_, awaited) :: rest => { p with writes := rest, flush := if awaited then none else p.flush }

def finishFlush (host : Host) (p : Party G) : Party G :=
  match p.flush with
  | some ⟨outboundCount, ackCount, .saved⟩ =>
    if p.ctl.protocolStopped then { p with flush := none }
    else { p with ctl := p.ctl.sendPending host outboundCount ackCount, flush := none }
  | _ => p

/-- The page starts afresh, with what the storage has. -/
def reload (host : Host) (p : Party G) : Party G where
  ctl := (SessionController.new p.ctl.sent (p.disk.elim ⟨[], []⟩ SessionSave.history)).kickSystem host 2
  flush := none
  cached := p.disk
  writes := []
  disk := p.disk

/-- `restoreSession` -/
def restore (host : Host) (observations : List A) (p : Party G) : Party G :=
  match p.ctl.cradle, p.disk with
  | none, some save =>
    { p with ctl := ((p.ctl.kickSystem host 1).load save).setGameSession host save.cradle observations }
  | _, _ => p

/-- A session of which nothing is stored begins. -/
def newSession (host : Host) (cradle : G) (p : Party G) : Party G :=
  match p.ctl.cradle, p.disk with
  | none, none => { p with ctl := (p.ctl.kickSystem host 1).setGameSession host cradle [] }
  | _, _ => p

def next (host : Host) (p : Party G) : Input G A → Party G
  | .receive payload => { p with ctl := p.ctl.receive host payload }
  | .call a => { p with ctl := p.ctl.callSession a }
  | .goOnChain => { p with ctl := p.ctl.goOnChain }
  | .drain => { p with ctl := p.ctl.drainOneEvent }
  | .reconnect => { p with ctl := (p.ctl.resendUnacked host).2 }
  | .save => p.save
  | .beginFlush => p.beginFlush host
  | .queueWrite awaited => p.queueWrite awaited
  | .write => p.write
  | .failWrite => p.failWrite
  | .finishFlush => p.finishFlush host
  | .cleanup => { p with ctl := p.ctl.cleanup }
  | .reload => p.reload host
  | .restore observations => p.restore host observations
  | .newSession cradle => p.newSession host cradle

/-- A page that has been opened for a session. -/
def initial : Party G where
  ctl := { SessionController.new [] ⟨[], []⟩ with qualifyingEvents := 2 }
  flush := none
  cached := none
  writes := []
  disk := none

/-- The saves, from the one that is stored to the one that is still to be written. -/
def saves (p : Party G) : List (SessionSave G) := p.disk.toList ++ p.writes.map Prod.fst ++ p.cached.toList

end Party

/-- The two pages.  All that has left one of them may reach the other, at any time, in any order and more than
once. -/
structure Link (G : Type) where
  party : Bool → Party G

namespace Link

def put (T : Link G) (b : Bool) (p : Party G) : Link G := ⟨Function.update T.party b p⟩

@[simp] theorem put_self (T : Link G) (b : Bool) (p : Party G) : (T.put b p).party b = p := Function.update_self ..

@[simp] theorem put_not (T : Link G) (b : Bool) (p : Party G) : (T.put b p).party (!b) = T.party (!b) :=
  Function.update_of_ne (Bool.not_ne_self b) ..

/-- The runs all of whose steps meet a condition.  A message number fits in its four bytes. -/
inductive Run [ChiaGame G A] (cond : Party G → Host → Party.Input G A → Prop) : Link G → Prop where
  | start : Run cond ⟨fun _ => Party.initial⟩
  | step {T} (b : Bool) (host : Host) (input : Party.Input G A) :
      Run cond T →
      (∀ payload, input = .receive payload → payload ∈ (T.party !b).ctl.sent) →
      cond (T.party b) host input →
      ((T.party b).next host input).ctl.history.numbered.length < 2 ^ 32 →
      Run cond (T.put b ((T.party b).next host input))

end Link

end Peer

end ChiaGaming
