import RichPresence.Bridge.BridgePump

namespace RichPresence

open Lib

/-- A broadcast between its cache update and its fan-out. Whether the joining
consumer had its snapshot when the cache was updated is kept as history. -/
structure Flight where
  payload : CachedActivity
  socketId : SocketId
  late : Bool
  deriving DecidableEq, Repr

inductive Joiner
  | away
  | holding (cached : List CachedActivity)
  | queued (sent : List Message)
  | registered
  deriving DecidableEq, Repr

def Joiner.hasSnapshot : Joiner → Bool
  | away => false
  | _ => true

def Joiner.connecting : Joiner → Bool
  | holding _ => true
  | queued _ => true
  | _ => false

/-- The shared state, the broadcasts of the pumps that are under way, by pump,
and the joining consumer. -/
structure Gathering where
  shared : Shared
  flights : Table Nat Flight := ∅
  joiner : Joiner := .away

inductive LockStep : Type 1
  | update (pump : Nat) (env : Env) (payload : CachedActivity) (socketId : SocketId)
  | fanOut (pump : Nat) (env : Env)
  | snapshot (env : Env)
  | queue (env : Env)
  | register

structure Newcomer where
  id : ClientId
  protocol : BridgeProtocol
  ready : Message

namespace Gathering

def step (n : Newcomer) (s : Gathering) : LockStep → Gathering
  | .update pump env payload socketId =>
      if (s.flights.lookup pump).isSome then s
      else
        { s with
          shared := s.shared.updateCache env payload socketId
          flights := s.flights.insert pump ⟨payload, socketId, s.joiner.hasSnapshot⟩ }
  | .fanOut pump env =>
      match s.flights.lookup pump with
      | some flight =>
          { s with
            shared := (s.shared.sendToAll env flight.payload).setDirty
            flights := s.flights.erase pump }
      | none => s
  | .snapshot env =>
      match s.joiner with
      | .away => { s with joiner := .holding (replayOf env s.shared.cache) }
      | _ => s
  | .queue env =>
      match s.joiner with
      | .holding cached => { s with joiner := .queued (queueReplay env n.id n.protocol n.ready cached) }
      | _ => s
  | .register =>
      match s.joiner with
      | .queued sent => { s with shared := s.shared.register n.id ⟨n.protocol, sent⟩, joiner := .registered }
      | _ => s

def run (n : Newcomer) (s : Gathering) (steps : List LockStep) : Gathering := steps.foldl (step n) s

/-- A pump that is not interrupted runs a broadcast. -/
theorem run_broadcast (n : Newcomer) (s : Gathering) {pump : Nat} (hidle : s.flights.lookup pump = none)
    (env : Env) (payload : CachedActivity) (socketId : SocketId) :
    (s.run n [.update pump env payload socketId, .fanOut pump env]).shared =
      (broadcastActivity env payload socketId).exec s.shared := by
  have hflight : (s.flights.insert pump ⟨payload, socketId, s.joiner.hasSnapshot⟩).lookup pump =
      some ⟨payload, socketId, s.joiner.hasSnapshot⟩ := AList.lookup_insert _
  simp only [run, List.foldl_cons, List.foldl_nil, step, hidle, Option.isSome_none, Bool.false_eq_true, if_false,
    hflight]
  rfl

/-- A connect that is not interrupted runs `onConnect`. -/
theorem run_connect (n : Newcomer) (s : Gathering) (haway : s.joiner = .away) (env : Env) :
    (s.run n [.snapshot env, .queue env, .register]).shared =
      (onConnect env n.id n.protocol n.ready).exec s.shared := by
  simp only [run, List.foldl_cons, List.foldl_nil, step, haway]
  rfl

end Gathering

/-- No card is evicted. A broadcast nothing will repeat (any, when no refresh
follows; a clear in any case) is not begun while another one with a different
outcome is under way for its socket, and does not pass a consumer between its
snapshot and its registration. -/
def Orderly (refreshed : Bool) (s : Gathering) : LockStep → Prop
  | .update _ _ payload socketId =>
      (payload.isClear = false →
        Table.size (s.shared.cache.insert socketId (payload, s.shared.activitySeq + 1)) ≤ maxCachedActivities) ∧
      (refreshed = false ∨ payload.isClear = true →
        ∀ e ∈ s.flights.entries, e.2.socketId = socketId → e.2.payload.outcome = payload.outcome)
  | .fanOut pump _ =>
      s.joiner.connecting = true → ∀ flight ∈ s.flights.lookup pump,
        refreshed = false ∨ flight.payload.isClear = true → flight.late = false
  | _ => True

instance (refreshed : Bool) (s : Gathering) : (e : LockStep) → Decidable (Orderly refreshed s e)
  | .update _ _ _ _ => inferInstanceAs (Decidable (_ ∧ _))
  | .fanOut _ _ => inferInstanceAs (Decidable (_ → _))
  | .snapshot _ => inferInstanceAs (Decidable True)
  | .queue _ => inferInstanceAs (Decidable True)
  | .register => inferInstanceAs (Decidable True)

inductive Built (C : Codec) : CachedActivity → SocketId → Prop
  | clear (pid : Nat) (k : SocketId) {e : CachedActivity} (h : emptyCached C pid k = some e) : Built C e k
  | generic (env : Env) (game : ScannedGame) {e : CachedActivity} (h : genericPayload C env game = some e) :
      Built C e (SocketId.ofApp game.id)
  | sdk (env : Env) (cmd : ActivityCmd) {e : CachedActivity} (h : sdkCard C env cmd = some e) :
      Built C e (SocketId.ofPid cmd.pid)

/-- The step broadcasts only what the bridge builds, and the newcomer takes every
frame. -/
def LockStep.Regular (C : Codec) (id : ClientId) : LockStep → Prop
  | .update _ _ payload socketId => Built C payload socketId
  | .fanOut _ env => ∀ sent, env.accepts id sent = true
  | .queue env => ∀ sent, env.accepts id sent = true
  | _ => True

namespace Gathering

variable {n : Newcomer} {s : Gathering}

def due (s : Gathering) (k : SocketId) : Option CachedActivity := (s.shared.cache.lookup k).map Prod.fst

def inbox (n : Newcomer) (s : Gathering) : Option (List Message) :=
  match s.joiner with
  | .away => none
  | .holding cached => some (cached.map (encodeFor n.protocol))
  | .queued sent => some sent
  | .registered => (s.shared.consumers.lookup n.id).map (·.sent)

def Final (refreshed : Bool) (s : Gathering) (k : SocketId) : Prop := refreshed = false ∨ s.due k = none

section Sections

variable {pump : Nat} {env : Env} {payload : CachedActivity} {k : SocketId} {f g : Flight}

/-- The pump has updated the cache and its broadcast is under way. -/
def begun (s : Gathering) (pump : Nat) (env : Env) (payload : CachedActivity) (k : SocketId) : Gathering where
  shared := s.shared.updateCache env payload k
  flights := s.flights.insert pump ⟨payload, k, s.joiner.hasSnapshot⟩
  joiner := s.joiner

def landed (s : Gathering) (pump : Nat) (env : Env) (f : Flight) : Gathering where
  shared := (s.shared.sendToAll env f.payload).setDirty
  flights := s.flights.erase pump
  joiner := s.joiner

theorem begun_due (pump : Nat) (env : Env) (hfit : payload.isClear = false →
      Table.size (s.shared.cache.insert k (payload, s.shared.activitySeq + 1)) ≤ maxCachedActivities)
    (k' : SocketId) : (s.begun pump env payload k).due k' = if k' = k then payload.outcome else s.due k' :=
  updateCache_outcome env hfit k'

theorem begun_inbox : (s.begun pump env payload k).inbox n = s.inbox n := by
  rw [inbox, inbox, begun]
  cases s.joiner <;> simp only [Shared.updateCache_consumers]

theorem begun_flight {pump' : Nat} (hf : (s.begun pump env payload k).flights.lookup pump' = some f) :
    f = ⟨payload, k, s.joiner.hasSnapshot⟩ ∨ s.flights.lookup pump' = some f := by
  rw [begun, Table.lookup_insert_eq] at hf
  split at hf
  next => exact .inl (Option.some.inj hf).symm
  next => exact .inr hf

theorem begun_kept (hidle : s.flights.lookup pump = none) {pump' : Nat} (hf : s.flights.lookup pump' = some f) :
    (s.begun pump env payload k).flights.lookup pump' = some f := by
  rw [begun, Table.lookup_insert_eq, if_neg, hf]
  rintro rfl
  rw [hidle] at hf
  cases hf

theorem landed_flight {pump' : Nat} (hg : (s.landed pump env f).flights.lookup pump' = some g) :
    s.flights.lookup pump' = some g := by
  rw [landed, Table.lookup_erase_eq] at hg
  split at hg
  next => cases hg
  next => exact hg

theorem landed_kept (hf : s.flights.lookup pump = some f) {pump' : Nat} (hg : s.flights.lookup pump' = some g)
    (hne : g ≠ f) : (s.landed pump env f).flights.lookup pump' = some g := by
  rw [landed, Table.lookup_erase_eq, if_neg, hg]
  rintro rfl
  exact hne (Option.some.inj (hg.symm.trans hf))

theorem landed_inbox_of_unregistered (hj : s.joiner ≠ .registered) :
    (s.landed pump env f).inbox n = s.inbox n := by
  rw [inbox, inbox, landed]
  cases hjoin : s.joiner with
  | registered => exact absurd hjoin hj
  | away | holding _ | queued _ => rfl

theorem landed_inbox_of_registered (hj : s.joiner = .registered) (hacc : ∀ sent, env.accepts n.id sent = true)
    {c : Consumer} (hc : s.shared.consumers.lookup n.id = some c) :
    (s.landed pump env f).inbox n = some (c.sent ++ [encodeFor c.protocol f.payload]) := by
  have hsent := sendToAll_accepted hacc f.payload hc
  rw [inbox, landed, hj]
  change Option.map _ ((s.shared.sendToAll env f.payload).consumers.lookup n.id) = _
  rw [hsent]
  rfl

end Sections

end Gathering

end RichPresence
