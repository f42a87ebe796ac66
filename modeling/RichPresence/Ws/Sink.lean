import RichPresence.Bridge.Handoff
import RichPresence.Lib.Channel
import RichPresence.Protocol.Replies

namespace RichPresence.Ws

def maxTrackedPids : Nat := 16

/-- What a connection remembers of a publication: what a clear for it needs. -/
structure PublishedSlot where
  appId : Option AppId
  pid : Nat
  nonce : Value

def clearForSlot (published : PublishedSlot) : ActivityCmd where
  applicationId := published.appId
  cmd := "SET_ACTIVITY"
  args := some { pid := some published.pid }
  nonce := published.nonce

inductive Admission
  | admitted (displaced : Option PublishedSlot)
  | refusedFull

/-- A registered client: its publications, oldest first, and the client id of its
connect query. -/
structure ClientSlot where
  published : List PublishedSlot := []
  queryClientId : Option AppId := none

namespace ClientSlot

def forgetPublished (pid : Nat) (slot : ClientSlot) : ClientSlot :=
  { slot with published := slot.published.eraseP fun entry => entry.pid = pid }

def push (entry : PublishedSlot) (slot : ClientSlot) : ClientSlot :=
  { slot with published := slot.published ++ [entry] }

def notePublished (entry : PublishedSlot) (slot : ClientSlot) : Admission × ClientSlot :=
  match slot.published.find? fun known => known.pid = entry.pid with
  | some displaced => (.admitted (some displaced), (slot.forgetPublished entry.pid).push entry)
  | none =>
      if slot.published.length ≥ maxTrackedPids then (.refusedFull, slot) else (.admitted none, slot.push entry)

def rollbackPublish (pid : Nat) (displaced : Option PublishedSlot) (slot : ClientSlot) : ClientSlot :=
  match displaced with
  | some old => (slot.forgetPublished pid).push old
  | none => slot.forgetPublished pid

end ClientSlot

open Lib

def maxPendingCommands : Nat := 256

/-- Milliseconds a staged command may wait. -/
def disconnectClearBudget : Nat := 1000

/-- A command the pump hands on, with its place in the order in which it does so
and the client it is for. -/
structure Issued where
  number : Nat
  client : ClientId
  cmd : ActivityCmd

structure PendingClear where
  appId : Option AppId
  pid : Nat
  nonce : Value

namespace PendingClear

def intoCmd (clear : PendingClear) : ActivityCmd where
  applicationId := clear.appId
  cmd := "SET_ACTIVITY"
  args := some { pid := some clear.pid }
  nonce := clear.nonce

def fromSlot (published : PublishedSlot) : PendingClear := ⟨published.appId, published.pid, published.nonce⟩

def fromCmd (cmd : ActivityCmd) : PendingClear := ⟨cmd.applicationId, cmd.pid, cmd.nonce⟩

end PendingClear

inductive PendingPayload
  | publish (cmd : ActivityCmd)
  | clear (slim : PendingClear)

namespace PendingPayload

def intoCmd : PendingPayload → ActivityCmd
  | publish cmd => cmd
  | clear slim => slim.intoCmd

/-- The form a refused command goes back in: that of the entry it came from. -/
def restaged (cmd : ActivityCmd) : PendingPayload → PendingPayload
  | publish _ => .publish cmd
  | clear _ => .clear (.fromCmd cmd)

@[simp] theorem restaged_intoCmd (payload : PendingPayload) : payload.restaged payload.intoCmd = payload := by
  cases payload <;> rfl

end PendingPayload

structure PendingEntry where
  payload : PendingPayload
  deadline : Nat
  number : Nat
  client : ClientId

def PendingEntry.issued (entry : PendingEntry) : Issued := ⟨entry.number, entry.client, entry.payload.intoCmd⟩

inductive TryEmit
  | sent
  | full (cmd : Issued)
  | closed

/-- The way downstream: the bounded channel to the bridge, the queue of commands
staged while it was full, and the count of those given up. -/
structure Sink where
  channel : Channel Issued := {}
  closed : Bool := false
  pending : List PendingEntry := []
  dropped : Nat := 0

namespace Sink

/-- Without a capacity the channel is never full. -/
def HasRoom (cap : Option Nat) (s : Sink) : Prop := s.closed = false ∧ ∀ n ∈ cap, s.channel.HasRoom n

instance (cap : Option Nat) (s : Sink) : Decidable (s.HasRoom cap) := inferInstanceAs (Decidable (_ ∧ _))

def countShed (n : Nat) (s : Sink) : Sink := { s with dropped := s.dropped + n }

def tryEmit (cap : Option Nat) (cmd : Issued) (s : Sink) : TryEmit × Sink :=
  if s.HasRoom cap then (.sent, { s with channel := s.channel.push cmd })
  else if s.closed then (.closed, s)
  else (.full cmd, s)

/-- The bounded wait is over: the channel has room now, or the command is shed. -/
def emit (cap : Option Nat) (cmd : Issued) (s : Sink) : Bool × Sink :=
  match s.tryEmit cap cmd with
  | (.sent, s) => (true, s)
  | (_, s) => (false, s.countShed 1)

def stage (entry : PendingEntry) (s : Sink) : Sink :=
  if s.pending.length ≥ maxPendingCommands then
    { s.countShed 1 with pending := s.pending.drop 1 ++ [entry] }
  else { s with pending := s.pending ++ [entry] }

def stagePublish (now : Nat) (cmd : Issued) : Sink → Sink :=
  stage ⟨.publish cmd.cmd, now + disconnectClearBudget, cmd.number, cmd.client⟩

def stageClear (now : Nat) (published : PublishedSlot) (number : Nat) (client : ClientId) : Sink → Sink :=
  stage ⟨.clear (.fromSlot published), now + disconnectClearBudget, number, client⟩

/-- One turn of the flush loop. It goes on after an entry the channel took. -/
def flushOne (cap : Option Nat) (s : Sink) : Bool × Sink :=
  match s.pending with
  | [] => (false, s)
  | entry :: rest =>
      match { s with pending := rest }.tryEmit cap entry.issued with
      | (.sent, s) => (true, s)
      | (.full cmd, s) =>
          (false, { s with pending := { entry with payload := entry.payload.restaged cmd.cmd } :: s.pending })
      | (.closed, s) => (false, { s with pending := [], dropped := s.dropped + s.pending.length })

def expirePending (now : Nat) (s : Sink) : Sink :=
  let live := s.pending.filter fun entry => now < entry.deadline
  { s with pending := live, dropped := s.dropped + (s.pending.length - live.length) }

end Sink

end RichPresence.Ws
