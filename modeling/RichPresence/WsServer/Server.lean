import RichPresence.Lib.Pool
import RichPresence.WsServer.Task

namespace RichPresence.WsServer

open Lib

def maxPendingRejects : Nat := 8

/-- A peer over the limit: its handshake is completed, then it is sent away. -/
inductive Rejecting
  | handshaking
  | closing
  | left
  | aborted
  deriving DecidableEq, Repr

inductive RejectStep
  | poll
  | handshake (completed : Bool)
  | wrote
  deriving DecidableEq, Repr

namespace Rejecting

def live : Rejecting → Bool
  | .left | .aborted => false
  | _ => true

/-- The task holds one of the permits for rejections until it returns. -/
def step (cancelled : Bool) (e : RejectStep) (r : Rejecting) (permits : Nat) : Rejecting × Nat :=
  match r, e with
  | .handshaking, .poll => if cancelled then (.left, permits + 1) else (r, permits)
  | .handshaking, .handshake completed =>
      if completed && !cancelled then (.closing, permits) else (.left, permits + 1)
  | .closing, .wrote => (.left, permits + 1)
  | _, _ => (r, permits)

def abort (r : Rejecting) (permits : Nat) : Rejecting × Nat :=
  if r.live then (.aborted, permits + 1) else (r, permits)

end Rejecting

inductive AcceptError
  | connectionAborted
  | interrupted
  | other
  deriving DecidableEq, Repr

def acceptErrorBackoff : AcceptError → Option Nat
  | .connectionAborted | .interrupted => none
  | .other => some 50

/-- Where the accept task stands. Between a permit and the spawn it waits for the lock
of the task set. -/
inductive Accepting
  | polling
  | spawning (conn : Conn)
  | spawningReject
  | backingOff
  | ended
  deriving DecidableEq, Repr

inductive TaskId
  | conn (i : Nat)
  | reject (i : Nat)
  deriving DecidableEq, Repr

/-- What has become of the handle of the server: `shutdown` waits for the accept task,
takes the task set and waits for the tasks in it. -/
inductive Handle
  | held
  | joining
  | draining (owned : List TaskId)
  | gone
  deriving DecidableEq, Repr

structure Server where
  cancelled : Bool := false
  accepting : Accepting := .polling
  conns : Pool Conn Port
  rejects : Pool Rejecting Nat := { shared := maxPendingRejects }
  joinSet : List TaskId := []
  handle : Handle := .held

def Server.bind (limits : Limits) : Server := { conns := { shared := { permits := limits.maxConnections } } }

/-- Timeouts are steps of their own: a wait ends because what it waits for has
happened, or because its time is up. -/
inductive ServerStep
  | accept (peer : String)
  | acceptError (error : AcceptError)
  | resume
  | spawn
  | stopAccepting
  | conn (i : Nat) (e : ConnStep)
  | reject (i : Nat) (e : RejectStep)
  | receive
  | dropHub
  | shutdown
  | takeTasks (timedOut : Bool)
  | finish (timedOut : Bool)
  | drop
  | dropTasks
  deriving DecidableEq, Repr

namespace Server

variable (s : Server)

def hub : Hub := s.conns.shared.hub

def isLive : TaskId → Bool
  | .conn i => s.conns.tasks[i]?.any Conn.live
  | .reject i => s.rejects.tasks[i]?.any Rejecting.live

def setPort (port : Port) : Server := { s with conns := { s.conns with shared := port } }

/-- The accept loop would take the next peer in as a client. -/
def Admits : Prop := s.accepting = .polling ∧ s.cancelled = false ∧ s.conns.shared.permits ≠ 0

instance : Decidable s.Admits := inferInstanceAs (Decidable (_ ∧ _ ∧ _))

/-- A peer is at the listener. The token is looked at first; without a permit the peer
is sent away, and without a permit for that it is dropped. -/
def accept (id : ClientId) (peer : String) : Server :=
  if s.accepting = .polling then
    if s.cancelled then { s with accepting := .ended }
    else if s.conns.shared.permits = 0 then
      if s.rejects.shared = 0 then s
      else { s with accepting := .spawningReject, rejects := { s.rejects with shared := s.rejects.shared - 1 } }
    else
      { s.setPort { s.conns.shared with permits := s.conns.shared.permits - 1 } with
        accepting := .spawning { id := id, details := ⟨peer, [], ""⟩ } }
  else s

def acceptError (error : AcceptError) : Server :=
  if s.accepting = .polling then
    if s.cancelled then { s with accepting := .ended }
    else if (acceptErrorBackoff error).isSome then { s with accepting := .backingOff }
    else s
  else s

/-- The finished tasks are reaped, and the new one is entered. -/
def spawn : Server :=
  match s.accepting with
  | .spawning conn =>
      { s with
        accepting := .polling
        conns := s.conns.spawn conn
        joinSet := s.joinSet.filter s.isLive ++ [.conn s.conns.tasks.length] }
  | .spawningReject =>
      { s with
        accepting := .polling
        rejects := s.rejects.spawn .handshaking
        joinSet := s.joinSet.filter s.isLive ++ [.reject s.rejects.tasks.length] }
  | _ => s

def abort : TaskId → Server
  | .conn i => { s with conns := s.conns.advance Conn.abort i }
  | .reject i => { s with rejects := s.rejects.advance Rejecting.abort i }

def abortAll (tasks : List TaskId) : Server := tasks.foldl abort s

/-- The accept task is aborted: what it held goes with it. -/
def abortAccept : Server :=
  match s.accepting with
  | .spawning _ =>
      { s.setPort { s.conns.shared with permits := s.conns.shared.permits + 1 } with accepting := .ended }
  | .spawningReject =>
      { s with accepting := .ended, rejects := { s.rejects with shared := s.rejects.shared + 1 } }
  | _ => { s with accepting := .ended }

def takeTasks (timedOut : Bool) : Server :=
  if s.handle = .joining ∧ (s.accepting = .ended ∨ timedOut = true) then
    { s with handle := .draining s.joinSet, joinSet := [] }
  else s

def finish (timedOut : Bool) : Server :=
  match s.handle with
  | .draining owned =>
      if owned.all (fun task => !s.isLive task) || timedOut then { s.abortAll owned with handle := .gone } else s
  | _ => s

variable (limits : Limits) (now : Nat) (id : ClientId)

def step : ServerStep → Server
  | .accept peer => s.accept id peer
  | .acceptError error => s.acceptError error
  | .resume => if s.accepting = .backingOff then { s with accepting := .polling } else s
  | .spawn => s.spawn
  | .stopAccepting => if s.accepting = .polling ∧ s.cancelled = true then { s with accepting := .ended } else s
  | .conn i e => { s with conns := s.conns.advance (Conn.step limits now s.cancelled e) i }
  | .reject i e => { s with rejects := s.rejects.advance (Rejecting.step s.cancelled e) i }
  | .receive => s.setPort { s.conns.shared with hub := s.hub.receive }
  | .dropHub => s.setPort { s.conns.shared with hub := { s.hub with gone := true } }
  | .shutdown => if s.handle = .held then { s with cancelled := true, handle := .joining } else s
  | .takeTasks timedOut => s.takeTasks timedOut
  | .finish timedOut => s.finish timedOut
  | .drop => if s.handle = .held then { s.abortAccept with cancelled := true, handle := .gone } else s
  -- the last reference to the task set is gone, and the set aborts what is left in it
  | .dropTasks =>
      if s.handle = .gone ∧ s.accepting = .ended then { s.abortAll s.joinSet with joinSet := [] } else s

end Server

/-- The servers of a process draw the ids of their clients from one counter of 64
bits. -/
structure Process where
  issued : Nat := 0
  clock : Nat := 0
  servers : Nat → Server

inductive ProcessStep
  | elapse (ms : Nat)
  | server (k : Nat) (e : ServerStep)
  deriving DecidableEq, Repr

namespace Process

variable (limits : Nat → Limits)

def start : Process := { servers := fun k => .bind (limits k) }

def draws (s : Server) : ServerStep → Nat
  | .accept _ => if s.Admits then 1 else 0
  | _ => 0

def step (p : Process) : ProcessStep → Process
  | .elapse ms => { p with clock := p.clock + ms }
  | .server k e =>
      { p with
        issued := p.issued + draws (p.servers k) e
        servers := Function.update p.servers k
          ((p.servers k).step (limits k) p.clock (p.issued % 2 ^ 64) e) }

def run (steps : List ProcessStep) : Process := steps.foldl (step limits) (start limits)

end Process

end RichPresence.WsServer
