import RichPresence.Bridge.Handoff
import RichPresence.Lib.Channel

namespace RichPresence.WsServer

open Lib

structure ServerConfig where
  maxConnections : Nat := 64
  eventQueue : Nat := 64
  perClientQueue : Nat := 8
  keepaliveInterval : Nat := 30000
  idleTimeout : Nat := 60000
  deriving DecidableEq, Repr

/-- Bounds a server can be bound with: none of them is zero. The runtime decides when
the keepalive timer ticks next, from the present time and the tick that was due. -/
structure Limits extends ServerConfig where
  nextTick : Nat → Nat → Nat
  maxConnections_pos : 0 < maxConnections
  eventQueue_pos : 0 < eventQueue
  perClientQueue_pos : 0 < perClientQueue
  keepaliveInterval_pos : 0 < keepaliveInterval
  idleTimeout_pos : 0 < idleTimeout

/-- The checks of the builder, and of `bind` once more. -/
def ServerConfig.build (nextTick : Nat → Nat → Nat) (config : ServerConfig) : Except String Limits :=
  if h₁ : config.maxConnections = 0 then .error "max_connections must be non-zero"
  else if h₂ : config.eventQueue = 0 then .error "event_queue must be non-zero"
  else if h₃ : config.perClientQueue = 0 then .error "per_client_queue must be non-zero"
  else if h₄ : config.keepaliveInterval = 0 then .error "keepalive_interval must be non-zero"
  else if h₅ : config.idleTimeout = 0 then .error "idle_timeout must be non-zero"
  else .ok ⟨config, nextTick, Nat.pos_of_ne_zero h₁, Nat.pos_of_ne_zero h₂, Nat.pos_of_ne_zero h₃,
    Nat.pos_of_ne_zero h₄, Nat.pos_of_ne_zero h₅⟩

inductive DisconnectReason
  | clean
  | error
  | idleTimeout
  | slowConsumer
  | serverShutdown
  deriving DecidableEq, Repr

inductive CloseCode
  | normal
  | tryAgainLater
  | internalError
  deriving DecidableEq, Repr

inductive Cmd
  | message (message : Message)
  | close (code : CloseCode)
  deriving DecidableEq, Repr

structure ConnectionDetails where
  peer : String
  headers : List (String × String)
  uri : String
  deriving DecidableEq, Repr

inductive Event
  | connect (id : ClientId) (details : ConnectionDetails)
  | disconnect (id : ClientId) (reason : DisconnectReason)
  | message (id : ClientId) (message : Message)
  deriving DecidableEq, Repr

def Event.client : Event → ClientId
  | connect id _ | disconnect id _ | message id _ => id

/-- The event queue of a server. A hub that is gone takes nothing any more; what was
queued in it is lost. -/
structure Hub where
  events : Channel Event := {}
  gone : Bool := false
  deriving DecidableEq, Repr

inductive Sent
  | queued (hub : Hub)
  | waiting
  | refused

/-- One poll of a send: it waits while the queue is full. -/
def Hub.send (cap : Nat) (event : Event) (hub : Hub) : Sent :=
  if hub.gone then .refused
  else if hub.events.HasRoom cap then .queued { hub with events := hub.events.push event }
  else .waiting

def Hub.receive (hub : Hub) : Hub := if hub.gone then hub else { hub with events := hub.events.recv }

inductive Incoming
  | message (message : Message)
  | heartbeat
  | frame
  | close
  | failure
  | ended
  deriving DecidableEq, Repr

inductive Frame
  | data (message : Message)
  | ping
  | close (code : CloseCode)
  deriving DecidableEq, Repr

/-- Where a connection task stands: the future it awaits next. -/
inductive Stage
  | handshaking
  | announcing
  | pumping
  | relaying (message : Message)
  | writing (frame : Frame)
  | closing (code : CloseCode) (reason : DisconnectReason)
  | departing (reason : DisconnectReason)
  | left
  | aborted
  deriving DecidableEq, Repr

def Stage.live : Stage → Bool
  | .left | .aborted => false
  | _ => true

/-- A connection. What its task has read, told the hub and written to the socket is
kept as history, oldest first. -/
structure Conn where
  id : ClientId
  details : ConnectionDetails
  stage : Stage := .handshaking
  inbox : List Incoming := []
  outbox : Channel Cmd := {}
  responder : Bool := true
  outboxOpen : Bool := true
  lastSeen : Nat := 0
  nextPing : Nat := 0
  read : List Message := []
  told : List Event := []
  wire : List Frame := []
  deriving DecidableEq, Repr

/-- What the connection tasks of a server share: the hub and the free connection
permits. -/
structure Port where
  hub : Hub := {}
  permits : Nat
  deriving DecidableEq, Repr

namespace Conn

def live (c : Conn) : Bool := c.stage.live

def leave (c : Conn) (p : Port) : Conn × Port := ({ c with stage := .left }, { p with permits := p.permits + 1 })

def seen (now : Nat) (c : Conn) : Conn := { c with lastSeen := now }

variable (limits : Limits) (now : Nat)

def takeIncoming (item : Incoming) (c : Conn) : Conn :=
  match item with
  | .message message => { c.seen now with stage := .relaying message, read := c.read ++ [message] }
  | .heartbeat => c.seen now
  | .frame => c
  | .close | .ended => { c with stage := .departing .clean }
  | .failure => { c with stage := .departing .error }

def takeCommand (cmd : Cmd) (c : Conn) : Conn :=
  match cmd with
  | .message message => { c with stage := .writing (.data message) }
  | .close code => { c with stage := .closing code .clean }

/-- The `select!` of the pump: the first arm in the order of the source that is ready. -/
def select (cancelled : Bool) (c : Conn) : Conn :=
  if cancelled then { c with stage := .closing .normal .serverShutdown }
  else match c.outboxOpen, c.outbox.queue, c.responder, c.inbox with
    | true, cmd :: _, _, _ => { c with outbox := c.outbox.recv }.takeCommand cmd
    | true, [], false, _ => { c with outboxOpen := false }
    | _, _, _, item :: inbox => { c with inbox := inbox }.takeIncoming now item
    | _, _, _, [] =>
        if c.nextPing ≤ now then
          { c with stage := .writing .ping, nextPing := limits.nextTick now c.nextPing }
        else if c.lastSeen + limits.idleTimeout ≤ now then { c with stage := .closing .internalError .idleTimeout }
        else c

def tell (event : Event) (stage : Stage) (c : Conn) : Conn := { c with told := c.told ++ [event], stage := stage }

/-- The task is polled. The futures on the socket are not ready. -/
def poll (cancelled : Bool) (c : Conn) (p : Port) : Conn × Port :=
  match c.stage with
  | .handshaking => if cancelled then c.leave p else (c, p)
  | .announcing =>
      match p.hub.send limits.eventQueue (.connect c.id c.details) with
      | .queued hub =>
          ({ c.tell (.connect c.id c.details) .pumping with
              lastSeen := now, nextPing := now + limits.keepaliveInterval }, { p with hub := hub })
      | .waiting => (c, p)
      | .refused => c.leave p
  | .pumping => (c.select limits now cancelled, p)
  | .relaying message =>
      match p.hub.send limits.eventQueue (.message c.id message) with
      | .queued hub => (c.tell (.message c.id message) .pumping, { p with hub := hub })
      | .waiting => (c, p)
      | .refused => ({ c with stage := .departing .serverShutdown }, p)
  | .departing reason =>
      match p.hub.send limits.eventQueue (.disconnect c.id reason) with
      | .queued hub => (c.tell (.disconnect c.id reason) .left).leave { p with hub := hub }
      | .waiting => (c, p)
      | .refused => c.leave p
  | .writing _ | .closing _ _ | .left | .aborted => (c, p)

/-- The handshake is over, with the request that was read or in vain. The token is
looked at first. -/
def shake (cancelled : Bool) (request : Option (List (String × String) × String)) (c : Conn) (p : Port) :
    Conn × Port :=
  if c.stage = .handshaking then
    match cancelled, request with
    | false, some (headers, uri) =>
        ({ c with stage := .announcing, details := { c.details with headers := headers, uri := uri } }, p)
    | _, _ => c.leave p
  else (c, p)

/-- The write that the task waits for is over. Whatever became of a close frame, the
task goes on to its end. -/
def wrote (sent : Bool) (c : Conn) : Conn :=
  match c.stage with
  | .writing frame =>
      if sent then { c with stage := .pumping, wire := c.wire ++ [frame] } else { c with stage := .departing .error }
  | .closing code reason =>
      { c with stage := .departing reason, wire := if sent then c.wire ++ [.close code] else c.wire }
  | _ => c

/-- The hub has been handed the responder, the task still has the other end, and the
outbox has room. -/
def Accepts (c : Conn) : Prop :=
  c.told ≠ [] ∧ c.responder = true ∧ c.live = true ∧ c.outbox.HasRoom limits.perClientQueue

instance (c : Conn) : Decidable (c.Accepts limits) := inferInstanceAs (Decidable (_ ∧ _ ∧ _ ∧ _))

def enqueue (cmd : Cmd) (c : Conn) : Conn :=
  if c.Accepts limits then { c with outbox := c.outbox.push cmd } else c

def abort (c : Conn) (p : Port) : Conn × Port :=
  if c.live then ({ c with stage := .aborted }, { p with permits := p.permits + 1 }) else (c, p)

end Conn

/-- What happens to one connection: its task is polled or one of the operations it
waits for completes, the peer sends, a responder is used or the last one dropped. -/
inductive ConnStep
  | poll
  | handshake (request : Option (List (String × String) × String))
  | wrote (sent : Bool)
  | arrive (item : Incoming)
  | enqueue (cmd : Cmd)
  | release
  deriving DecidableEq, Repr

def Conn.step (limits : Limits) (now : Nat) (cancelled : Bool) (e : ConnStep) (c : Conn) (p : Port) : Conn × Port :=
  match e with
  | .poll => c.poll limits now cancelled p
  | .handshake request => c.shake cancelled request p
  | .wrote sent => (c.wrote sent, p)
  | .arrive item => ({ c with inbox := c.inbox ++ [item] }, p)
  | .enqueue cmd => (c.enqueue limits cmd, p)
  | .release => ({ c with responder := false }, p)

end RichPresence.WsServer
