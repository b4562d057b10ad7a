import ChiaGaming.Lib.Act
import ChiaGaming.Lib.Dict
import ChiaGaming.Peer.Frame

namespace ChiaGaming

/-! The controller of a session: it numbers what the session sends, hands on in order what the other player
sends, and keeps both until the state that they belong to has been stored. -/

namespace Peer

structure Outbound where
  msgno : ℕ
  msg : Bytes
  deriving DecidableEq

structure TerminalCommand where
  id : Bytes
  message : Bytes

structure TerminalHandoff where
  id : Bytes
  msgno : ℕ
  sent : Bool

/-- `presentation` is a notification, a log line or an error; `request` asks the wallet or the chain. -/
inductive GameSessionEvent where
  | outboundMessage (msg : Bytes)
  | presentation
  | request

def GameSessionEvent.isPresentation : GameSessionEvent → Bool
  | .presentation => true
  | _ => false

inductive Disposition where
  | active
  | awaitOutboundTerminal (command : TerminalCommand)
  | terminal

structure WasmResult where
  events : List GameSessionEvent
  disposition : Disposition
  actionSucceeded : Bool

/-- The session as the controller calls it.  `A` are the calls that it passes through: those of the player,
of the chain and of the wallet. -/
class ChiaGame (G : Type) (A : outParam Type) where
  deliverMessage : Bytes → Act Error G WasmResult
  goOnChain : Act Error G WasmResult
  completeOutboundTerminalHandoff : Act Error G WasmResult
  call : A → Act Error G WasmResult
  pendingTerminalHandoff : G → Option TerminalCommand

/-- The time of a step, and the frames that the socket to the hub takes in it. -/
structure Host where
  now : ℕ
  accepts : Bytes → Bool

/-- What was ever given a number, and what the session has taken, in their order. -/
structure History where
  numbered : List Bytes
  consumed : List Bytes

/-- `sent` are the frames that have left, which no reload takes back. -/
structure SessionController (G : Type) where
  cradle : Option G
  messageNumber : ℕ
  remoteNumber : ℕ
  unackedMessages : List Outbound
  storedMessages : List Outbound
  reorderQueue : Dict ℕ Bytes
  eventQueue : List GameSessionEvent
  pendingOutboundSends : List Outbound
  pendingAcks : List ℕ
  needsImmediateDurability : Bool
  lastUnackedResendAt : ℕ
  terminalHandoff : Option TerminalHandoff
  onChain : Bool
  protocolStopped : Bool
  retired : Bool
  restoredSession : Bool
  qualifyingEvents : ℕ
  history : History
  sent : List Bytes

def unackedResendMinIntervalMs : ℕ := 1000

namespace SessionController

variable {G A : Type}

def new (sent : List Bytes) (history : History) : SessionController G where
  cradle := none
  messageNumber := 1
  remoteNumber := 0
  unackedMessages := []
  storedMessages := []
  reorderQueue := ∅
  eventQueue := []
  pendingOutboundSends := []
  pendingAcks := []
  needsImmediateDurability := false
  lastUnackedResendAt := 0
  terminalHandoff := none
  onChain := false
  protocolStopped := false
  retired := false
  restoredSession := false
  qualifyingEvents := 0
  history
  sent

/-! Frames that leave. -/

section Send

variable (host : Host)

def send (frame : Bytes) (s : SessionController G) : Bool × SessionController G :=
  if host.accepts frame then (true, { s with sent := s.sent ++ [frame] }) else (false, s)

def sendMessage (e : Outbound) (s : SessionController G) : Bool × SessionController G :=
  s.send host (buildFrame 1 e.msgno e.msg)

def sendAck (ackMsgno : ℕ) (s : SessionController G) : Bool × SessionController G :=
  s.send host (buildFrame 2 ackMsgno [])

def noteTerminalHandoffSent (msgno : ℕ) (s : SessionController G) : SessionController G :=
  { s with terminalHandoff := s.terminalHandoff.map fun c => if c.msgno = msgno then { c with sent := true } else c }

/-- The messages up to the first that the socket does not take. -/
def resendAll : List Outbound → SessionController G → Bool × SessionController G
  | [], s => (true, s)
  | e :: rest, s =>
    match s.sendMessage host e with
    | (true, s') => resendAll rest (s'.noteTerminalHandoffSent e.msgno)
    | (false, s') => (false, s')

/-- All that has no acknowledgement leaves again, whether it has been stored or not. -/
def resendUnacked (s : SessionController G) : Bool × SessionController G :=
  if s.protocolStopped then (false, s)
  else if s.unackedMessages.isEmpty then (true, s)
  else if host.now < s.lastUnackedResendAt + unackedResendMinIntervalMs then (false, s)
  else resendAll host s.unackedMessages { s with lastUnackedResendAt := host.now }

end Send

/-! What the session produces. -/

def stopProtocolWork (s : SessionController G) : SessionController G :=
  { s with
    protocolStopped := true
    terminalHandoff := none
    eventQueue := []
    pendingOutboundSends := []
    pendingAcks := []
    unackedMessages := []
    storedMessages := []
    reorderQueue := ∅
    needsImmediateDurability := false }

def markNeedsImmediateDurability (s : SessionController G) : SessionController G :=
  if s.protocolStopped then s else { s with needsImmediateDurability := true }

/-- A message that has been taken is acknowledged by the flush. -/
def owe (msgno : ℕ) (s : SessionController G) : SessionController G :=
  markNeedsImmediateDurability { s with pendingAcks := s.pendingAcks ++ [msgno] }

/-- A message takes the next number, and waits for the flush. -/
def numberMessage (msg : Bytes) (s : SessionController G) : SessionController G :=
  markNeedsImmediateDurability { s with
    messageNumber := s.messageNumber + 1
    unackedMessages := s.unackedMessages ++ [⟨s.messageNumber, msg⟩]
    pendingOutboundSends := s.pendingOutboundSends ++ [⟨s.messageNumber, msg⟩]
    history := { s.history with numbered := s.history.numbered ++ [msg] } }

/-- A message that waits for its acknowledgement already, as it does after a reload, keeps its number. -/
def queueTerminalHandoff (command : TerminalCommand) (s : SessionController G) : SessionController G :=
  if s.terminalHandoff.any fun c => c.id = command.id then s
  else match s.unackedMessages.find? fun e => e.msg = command.message with
    | some e => { s with terminalHandoff := some ⟨command.id, e.msgno, false⟩ }
    | none => { s.numberMessage command.message with
        terminalHandoff := some ⟨command.id, s.messageNumber, false⟩ }

def dispatchEvent (s : SessionController G) : GameSessionEvent → SessionController G
  | .outboundMessage msg => if s.protocolStopped || s.onChain then s else s.numberMessage msg
  | .presentation => s
  | .request => s

def drainOneEvent (s : SessionController G) : SessionController G :=
  match s.eventQueue with
  | [] => s
  | event :: rest => dispatchEvent { s with eventQueue := rest } event

def drainAllEvents (s : SessionController G) : SessionController G :=
  s.eventQueue.foldl dispatchEvent { s with eventQueue := [] }

def queueEvents (events : List GameSessionEvent) (s : SessionController G) : SessionController G :=
  { s with eventQueue := s.eventQueue ++ events }

/-- The events of a result wait their turn; those of a terminal result replace what waits, and are shown at once. -/
def processResult (result : WasmResult) (s : SessionController G) : SessionController G :=
  if s.protocolStopped then s
  else match result.disposition with
    | .active => s.queueEvents result.events
    | .awaitOutboundTerminal command => (s.queueEvents result.events).queueTerminalHandoff command
    | .terminal => (s.stopProtocolWork.queueEvents (result.events.filter (·.isPresentation))).drainAllEvents

section Calls

variable [ChiaGame G A]

/-- A call of the player, the chain or the wallet; one that fails is only shown. -/
def callSession (a : A) (s : SessionController G) : SessionController G :=
  match s.cradle with
  | none => s
  | some g =>
    match (ChiaGame.call a : Act Error G WasmResult) g with
    | .ok result g' => processResult result { s with cradle := some g' }
    | .error _ g' => { s with cradle := some g' }

def goOnChain (s : SessionController G) : SessionController G :=
  match s.cradle with
  | none => s
  | some g =>
    match (ChiaGame.goOnChain : Act Error G WasmResult) g with
    | .ok result g' =>
      let started := match result.disposition with
        | .active => result.actionSucceeded
        | _ => false
      processResult result { s with cradle := some g', onChain := started }
    | .error _ g' => { s with cradle := some g', onChain := false }

/-! What the other player sends. -/

def deliverSingleMessage (msgno : ℕ) (msg : Bytes) (s : SessionController G) : SessionController G :=
  match s.cradle with
  | none => s
  | some g =>
    match (ChiaGame.deliverMessage msg : Act Error G WasmResult) g with
    | .ok result g' =>
      owe msgno (processResult result { s with
        cradle := some g'
        remoteNumber := msgno
        history := { s.history with consumed := s.history.consumed ++ [msg] } })
    -- The session decides what becomes of a message that it cannot take.
    | .error _ g' => goOnChain { s with cradle := some g' }

/-- Every round takes one entry out of the queue. -/
def flushReorderQueue : ℕ → SessionController G → SessionController G
  | 0, s => s
  | fuel + 1, s =>
    if s.onChain then s
    else match s.reorderQueue.lookup (s.remoteNumber + 1) with
      | none => s
      | some msg =>
        flushReorderQueue fuel (deliverSingleMessage (s.remoteNumber + 1) msg
          { s with reorderQueue := s.reorderQueue.erase (s.remoteNumber + 1) })

def deliverMessage (host : Host) (msgno : ℕ) (msg : Bytes) (s : SessionController G) : SessionController G :=
  if s.retired then s
  -- An ended session consumes nothing, but the other player can let go of the message.
  else if s.protocolStopped || s.onChain then (s.sendAck host msgno).2
  else if s.cradle.isNone || s.qualifyingEvents ≠ 7 then
    { s with storedMessages := s.storedMessages ++ [⟨msgno, msg⟩] }
  else if msgno ≤ s.remoteNumber then
    let s := if s.needsImmediateDurability then { s with pendingAcks := s.pendingAcks ++ [msgno] }
      else (s.sendAck host msgno).2
    (s.resendUnacked host).2
  else if s.remoteNumber + 1 < msgno then { s with reorderQueue := s.reorderQueue.insert msgno msg }
  else
    let s := deliverSingleMessage msgno msg s
    flushReorderQueue s.reorderQueue.entries.length s

def completeOutboundTerminalHandoffAfterAck (s : SessionController G) : SessionController G :=
  match s.cradle with
  | none => s
  | some g =>
    match (ChiaGame.completeOutboundTerminalHandoff : Act Error G WasmResult) g with
    | .ok result g' =>
      match result.disposition with
      | .terminal => processResult result { s with cradle := some g', terminalHandoff := none }
      | _ => { s with cradle := some g' }
    | .error _ g' => { s with cradle := some g' }

/-- A terminal message that has not left cannot have been acknowledged. -/
def receiveAck (ackMsgno : ℕ) (s : SessionController G) : SessionController G :=
  if s.retired then s
  else
    let acknowledged := s.terminalHandoff.any fun c => c.sent && c.msgno ≤ ackMsgno
    let s := { s with unackedMessages := s.unackedMessages.filter fun e =>
      ackMsgno < e.msgno || s.terminalHandoff.any fun c => c.msgno = e.msgno && !c.sent }
    if acknowledged then s.completeOutboundTerminalHandoffAfterAck else s

def receiveKeepalive (host : Host) (s : SessionController G) : SessionController G := (s.resendUnacked host).2

def receive (host : Host) (payload : Bytes) (s : SessionController G) : SessionController G :=
  match deliverRawPeerMessage payload with
  | some (.message msgno msg) => s.deliverMessage host msgno msg
  | some (.ack msgno) => s.receiveAck msgno
  | some .keepalive => s.receiveKeepalive host
  | none => s

def deliverStored (host : Host) (es : List Outbound) (s : SessionController G) : SessionController G :=
  es.foldl (fun s e => s.deliverMessage host e.msgno e.msg) { s with storedMessages := [] }

def spillStoredMessages (host : Host) (s : SessionController G) : SessionController G :=
  if s.qualifyingEvents ≠ 7 || s.cradle.isNone then s
  else
    let s := s.deliverStored host s.storedMessages
    if s.restoredSession then ({ s with restoredSession := false }.resendUnacked host).2 else s

def kickSystem (host : Host) (flags : ℕ) (s : SessionController G) : SessionController G :=
  let flags := s.qualifyingEvents ||| flags
  if flags = 3 then { s with qualifyingEvents := flags ||| 4 }.spillStoredMessages host
  else { s with qualifyingEvents := flags }

/-- A session is in place.  `observations` of the chain have been waiting for it. -/
def installSession (cradle : G) (observations : List A) (s : SessionController G) : SessionController G :=
  let s := { s with cradle := some cradle }
  let s := match ChiaGame.pendingTerminalHandoff cradle with
    | some command => s.queueTerminalHandoff command
    | none => s
  observations.foldl (fun s a => s.callSession a) s

def setGameSession (host : Host) (cradle : G) (observations : List A) (s : SessionController G) :
    SessionController G := (s.installSession cradle observations).spillStoredMessages host

def cleanup (s : SessionController G) : SessionController G :=
  { s with
    retired := true
    protocolStopped := true
    terminalHandoff := none
    eventQueue := []
    pendingOutboundSends := []
    pendingAcks := []
    unackedMessages := []
    reorderQueue := ∅
    needsImmediateDurability := false
    storedMessages := [] }

end Calls

end SessionController

end Peer

end ChiaGaming
