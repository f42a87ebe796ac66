import Mathlib.Data.List.MinMax
import Mathlib.Data.List.Sort
import RichPresence.Bridge.Handoff
import RichPresence.Lib.Section
import RichPresence.Protocol.FloodGuard

namespace RichPresence

open Lib

def maxCachedActivities : Nat := 50

abbrev ReplayCache := Table SocketId (CachedActivity × UInt64)

def oldestKey (w : Walk) (cache : ReplayCache) : Option SocketId :=
  ((w.order cache.entries).argmin fun e => e.2.2.toNat).map (·.1)

def evictOldest (w : Walk) (cache : ReplayCache) : ReplayCache :=
  match oldestKey w cache with
  | some key => cache.erase key
  | none => cache

def pruneCache (w : Walk) (cache : ReplayCache) : ReplayCache :=
  (evictOldest w)^[Table.size cache - maxCachedActivities] cache

def cacheEntryPid (socketId : SocketId) (payload : CachedActivity) : Option Nat :=
  if payload.pid ≠ 0 then some payload.pid
  else match parseU64 socketId.text with
    | some pid => if pid ≠ 0 then some pid else none
    | none => none

inductive BridgeProtocol
  | json
  | msgPack
  deriving DecidableEq, Repr

/-- A registered consumer with the frames its outbox has accepted, oldest first. -/
structure Consumer where
  protocol : BridgeProtocol
  sent : List Message
  deriving DecidableEq, Repr

structure Shared where
  consumers : Table ClientId Consumer := ∅
  cache : ReplayCache := ∅
  activitySeq : UInt64 := 0
  lastProcess : Table AppId Nat := ∅
  handoff : HandoffState := {}
  recent : RecentActivities := {}
  dirty : Bool := true
  droppedBroadcasts : Nat := 0

def encodeFor (protocol : BridgeProtocol) (payload : CachedActivity) : Message :=
  match protocol with
  | .json => .text payload.json
  | .msgPack => .binary payload.msgpack

def Consumer.trySend (env : Env) (id : ClientId) (message : Message) (c : Consumer) : Option Consumer :=
  if env.accepts id c.sent then some { c with sent := c.sent ++ [message] } else none

namespace Shared

/-- Every consumer is offered the payload in its own encoding; those that refuse
it are dropped from the map and counted. -/
def sendToAll (env : Env) (payload : CachedActivity) (s : Shared) : Shared :=
  let kept := Table.filterMap
    (fun id c => c.trySend env id (encodeFor c.protocol payload)) s.consumers
  { s with
    consumers := kept
    droppedBroadcasts := s.droppedBroadcasts + (Table.size s.consumers - Table.size kept) }

def updateCache (env : Env) (payload : CachedActivity) (socketId : SocketId) (s : Shared) : Shared :=
  if payload.isClear then { s with cache := s.cache.erase socketId }
  else
    { s with
      activitySeq := s.activitySeq + 1
      cache := pruneCache env.walk (s.cache.insert socketId (payload, s.activitySeq + 1)) }

def setDirty (s : Shared) : Shared := { s with dirty := true }

def countDropped (s : Shared) : Shared := { s with droppedBroadcasts := s.droppedBroadcasts + 1 }

end Shared

def broadcastActivity (env : Env) (payload : CachedActivity) (socketId : SocketId) : Prog Shared Unit := do
  Prog.updates (Shared.updateCache env payload socketId)
  Prog.updates (Shared.sendToAll env payload)
  Prog.updates Shared.setDirty

/-- A null activity from a pid that identified itself. -/
def isGenuineClear (cmd : ActivityCmd) : Bool :=
  match cmd.args.bind (·.pid) with
  | some pid => pid != 0 && cmd.activity.isNone
  | none => false

def processActivity (game : ScannedGame) : ProcessActivity :=
  ⟨game.id, game.name, game.start, 0, [], 0⟩

def genericPayload (C : Codec) (env : Env) (game : ScannedGame) : Option CachedActivity := do
  let payload : ProcessPayload := ⟨processActivity game, game.pid, SocketId.ofApp game.id⟩
  let activityJson ← C.processActivity payload.activity
  let json ← C.processJson payload
  let msgpack ← C.processMsgpack payload
  let provenance : ActivityProvenance := ⟨game.source.asStr, game.processStartMs.map (env.nowMs - ·)⟩
  return ⟨json, msgpack, false, activityJson, some provenance, game.pid⟩

def takeMatchingProcess (appId : AppId) (pid : Nat) (lastProcess : Table AppId Nat) :
    Option Nat × Table AppId Nat :=
  if lastProcess.lookup appId = some pid then (some pid, lastProcess.erase appId) else (none, lastProcess)

def clearOrder (x y : Nat × AppId) : Prop := x.1 < y.1 ∨ (x.1 = y.1 ∧ x.2.text ≤ y.2.text)

instance : DecidableRel clearOrder := fun _ _ => inferInstanceAs (Decidable (_ ∨ _))

def takeProcessClear (lastProcess : Table AppId Nat) : List (Nat × AppId) × Table AppId Nat :=
  ((lastProcess.entries.map fun e => (e.2, e.1)).insertionSort clearOrder, ∅)

def floodDropped (env : Env) (cmd : ActivityCmd) (fingerprint : Option Bytes) : Prog Shared Bool :=
  Prog.locked fun s =>
    let (drop, recent) :=
      s.recent.shouldDrop env.walk cmd.applicationId cmd.pid fingerprint env.instant
    (drop, { s with recent })

def differs (cached : Option (CachedActivity × UInt64)) (fingerprint : Option Bytes) : Bool :=
  match cached, fingerprint with
  | none, none => false
  | none, some _ => true
  | some (entry, _), none => !entry.isClear
  | some (entry, _), some fp => entry.isClear || entry.activityJson != fp

def activityChanged (socketId : SocketId) (fingerprint : Option Bytes) : Prog Shared Bool :=
  Prog.reads fun s => differs (s.cache.lookup socketId) fingerprint

def noteSdkPublish (env : Env) (cmd : ActivityCmd) : Prog Shared Unit :=
  match cmd.activity.bind (·.applicationId) with
  | some app => Prog.updates fun s => { s with handoff := s.handoff.notePublish env app cmd.pid }
  | none => return

def resumeGeneric (C : Codec) (env : Env) (game : ScannedGame) : Prog Shared Unit := do
  Prog.updates fun s =>
    { s with lastProcess := trackProcessPublication env game.id game.pid s.lastProcess }
  match genericPayload C env game with
  | some payload => broadcastActivity env payload (SocketId.ofApp game.id)
  | none => Prog.updates Shared.countDropped

/-- Release what a clear gives back and name the games it uncovers. A clear
without an application id gives back every slot of its pid. -/
def releaseSlots (env : Env) (cmd : ActivityCmd) (h : HandoffState) : List ScannedGame × HandoffState :=
  match cmd.applicationId with
  | some app =>
      match h.noteClear app cmd.pid with
      | (true, h') => ((h'.resumeFor app).toList, h')
      | (false, h') => ([], h')
  | none =>
      let (apps, h') := h.noteClearPid env cmd.pid
      (apps.filterMap h'.resumeFor, h')

def resumeAfterClear (C : Codec) (env : Env) (cmd : ActivityCmd) : Prog Shared Unit := do
  if !isGenuineClear cmd then
    return
  let resume ← Prog.locked fun s =>
    let (games, handoff) := releaseSlots env cmd s.handoff
    (games, { s with handoff })
  forM (resume.filter fun game => env.isProcessAlive game.pid) (resumeGeneric C env)

/-- One `SET_ACTIVITY` command: fingerprint, flood guard, handoff, change
detection, clear resume, envelope build and fan-out, one section per lock. -/
def handleSetActivity (C : Codec) (env : Env) (cmd : ActivityCmd) : Prog Shared Unit := do
  let (fingerprint, cmd) := activityFingerprint C env.fingerprintClock cmd
  if ← floodDropped env cmd fingerprint then
    return
  if cmd.args.isNone then
    return
  let socketId := SocketId.ofPid cmd.pid
  let changed ← activityChanged socketId fingerprint
  noteSdkPublish env cmd
  resumeAfterClear C env cmd
  if changed then
    match cachedActivity C env.buildClock cmd fingerprint with
    | some payload =>
        broadcastActivity env { payload with provenance := some ⟨"sdk", none⟩ } socketId
    | none => return

end RichPresence
