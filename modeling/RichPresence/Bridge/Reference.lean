import Mathlib.Data.List.Dedup
import RichPresence.Bridge.Placement
import RichPresence.Bridge.Room
import RichPresence.Protocol.Serde

namespace RichPresence

open Lib

/-- What the commands ask for: the card of every pid and the owner of every
application. -/
structure Reference where
  cards : Nat → Option Bytes := fun _ => none
  owners : AppId → Option Nat := fun _ => none

namespace Reference

def publish (C : Codec) (env : Env) (cmd : ActivityCmd) (r : Reference) : Reference where
  cards := Function.update r.cards cmd.pid (fingerprint C env cmd)
  owners a := if cmd.applicationId = some a then some cmd.pid else r.owners a

/-- A null activity takes the card of its pid away and gives back the slots of
the pid, the one it names or all of them. -/
def clear (cmd : ActivityCmd) (r : Reference) : Reference where
  cards := Function.update r.cards cmd.pid none
  owners a := if Releases cmd a ∧ r.owners a = some cmd.pid then none else r.owners a

def apply (C : Codec) (r : Reference) (e : Event) : Reference :=
  match e.input with
  | .setActivity cmd =>
      if cmd.args.isNone then r
      else if cmd.activity.isSome then r.publish C e.env cmd
      else r.clear cmd
  | .proc _ => r

def run (C : Codec) (es : List Event) : Reference := es.foldl (apply C) {}

end Reference

def Holds (s : Shared) (pid : Nat) : Option Bytes → Prop
  | some bytes => ∃ v, s.cache.lookup (SocketId.ofPid pid) = some v ∧ v.1.isClear = false ∧
      v.1.activityJson = bytes
  | none => s.cache.lookup (SocketId.ofPid pid) = none

structure Agrees (s : Shared) (r : Reference) : Prop where
  cards : ∀ pid, Holds s pid (r.cards pid)
  owners : ∀ a, s.handoff.liveIpc.lookup a = r.owners a

/-- The guards of the bridge change nothing here. A publish the flood guard drops
is already in effect, a publish that finds the owner table full finds the other
owners alive, and a null activity from pid 0 has no slot to give back. -/
def GuardsIdle (C : Codec) (s : Shared) (e : Event) : Prop :=
  match e.input with
  | .setActivity cmd =>
      (dropped C e.env cmd s = true →
        differs (s.cache.lookup (SocketId.ofPid cmd.pid)) (fingerprint C e.env cmd) = false ∧
          ∀ app ∈ cmd.applicationId, s.handoff.liveIpc.lookup app = some cmd.pid) ∧
      (cmd.activity.isSome → maxHandoffEntries ≤ Table.size s.handoff.liveIpc →
        ∀ slot ∈ s.handoff.liveIpc.entries, cmd.applicationId = some slot.1 ∨
          e.env.isProcessAlive slot.2 = true) ∧
      (cmd.activity.isNone → cmd.pid = 0 → cmd.args.isSome →
        ∀ slot ∈ s.handoff.liveIpc.entries, slot.2 = 0 → ¬Releases cmd slot.1)
  | .proc _ => True

instance (C : Codec) (s : Shared) (e : Event) : Decidable (GuardsIdle C s e) := by
  obtain ⟨env, cmd | input⟩ := e <;> rw [GuardsIdle] <;> infer_instance

def pidsOf (es : List Event) : List Nat := (es.filterMap Event.sdkPid).dedup

def Event.namedApp (e : Event) : Option AppId :=
  match e.input with
  | .setActivity cmd => cmd.applicationId
  | .proc _ => none

def appsOf (es : List Event) : List AppId := (es.filterMap Event.namedApp).dedup

def Event.isCommand (e : Event) : Bool :=
  match e.input with
  | .setActivity _ => true
  | .proc _ => false

variable {C : Codec} {env : Env} {cmd : ActivityCmd} {s : Shared} {r : Reference}

structure Confined (pids : List Nat) (apps : List AppId) (s : Shared) : Prop where
  unscanned : s.handoff.lastScans = ∅
  cards : ∀ k v, s.cache.lookup k = some v → k ∈ pids.map SocketId.ofPid
  owners : ∀ a p, s.handoff.liveIpc.lookup a = some p → a ∈ apps

theorem Confined.cards_fit {pids : List Nat} {apps : List AppId} (h : Confined pids apps s)
    (hn : pids.length ≤ maxCachedActivities) {pid : Nat} (hp : pid ∈ pids) (v : CachedActivity × UInt64) :
    Table.size (s.cache.insert (SocketId.ofPid pid) v) ≤ maxCachedActivities := by
  refine Nat.le_trans (Table.size_le_of_subset (pids.map SocketId.ofPid) fun k hk => ?_) (by simpa using hn)
  rw [Table.mem_keys_iff_lookup, Table.lookup_insert_eq] at hk
  split at hk
  next he =>
    rw [he]
    exact List.mem_map_of_mem hp
  next =>
    obtain ⟨v', hv'⟩ := hk
    exact h.cards k v' hv'

theorem Confined.owners_fit {pids : List Nat} {apps : List AppId} (h : Confined pids apps s)
    (hn : apps.length ≤ maxHandoffEntries) {app : AppId} (ha : app ∈ apps) (pid : Nat) :
    Table.size (s.handoff.liveIpc.insert app pid) ≤ maxHandoffEntries := by
  refine Nat.le_trans (Table.size_le_of_subset apps fun a hm => ?_) hn
  rw [Table.mem_keys_iff_lookup, Table.lookup_insert_eq] at hm
  split at hm
  next he => exact he ▸ ha
  next =>
    obtain ⟨p, hp⟩ := hm
    exact h.owners a p hp

theorem resumable_nil (h : s.handoff.lastScans = ∅) : resumable env cmd s = [] := by
  rw [resumable, List.filter_eq_nil_iff]
  intro game hm
  have hl := (mem_releaseSlots.mp hm).2.2
  rw [h] at hl
  simp at hl

theorem resumed_unscanned (h : s.handoff.lastScans = ∅) (hg : isGenuineClear cmd = true) :
    (resumeAfterClear C env (fixed C env cmd)).exec s = released env cmd s := by
  rw [resumeAfterClear_genuine hg, resumable_nil h]
  rfl

section Step

variable {pids : List Nat} {apps : List AppId}

theorem released_lastScans : (released env cmd s).handoff.lastScans = s.handoff.lastScans :=
  releaseSlots_lastScans env cmd s.handoff

theorem Confined.announce (h : Confined pids apps s) (hp : cmd.pid ∈ pids) (changed : Bool) :
    Confined pids apps (announce C env cmd s changed) := by
  refine ⟨by rw [announce_handoff, h.unscanned], fun k v hv => ?_, fun a p ha => ?_⟩
  · rcases announce_cache_sub hv with ⟨rfl, _⟩ | hv
    · exact List.mem_map_of_mem hp
    · exact h.cards k v hv
  · rw [announce_handoff] at ha
    exact h.owners a p ha

theorem Confined.claimed (h : Confined pids apps s) (ha : ∀ app ∈ cmd.applicationId, app ∈ apps) :
    Confined pids apps (claimed env cmd s) := by
  refine ⟨by rw [claimed_lastScans, h.unscanned], fun k v hv => ?_, fun a p ho => ?_⟩
  · rw [claimed_cache] at hv
    exact h.cards k v hv
  · rcases claimed_owner ho with ⟨happ, _⟩ | ho
    · exact ha a happ
    · exact h.owners a p ho

theorem resumed_cache (hs : s.handoff.lastScans = ∅) :
    ((resumeAfterClear C env (fixed C env cmd)).exec s).cache = s.cache := by
  cases hg : isGenuineClear cmd with
  | false => rw [resumeAfterClear_publish hg]
  | true =>
      rw [resumed_unscanned hs hg]
      rfl

theorem Confined.resumed (h : Confined pids apps s) :
    Confined pids apps ((resumeAfterClear C env (fixed C env cmd)).exec s) := by
  cases hg : isGenuineClear cmd with
  | false =>
      rw [resumeAfterClear_publish hg]
      exact h
  | true =>
      rw [resumed_unscanned h.unscanned hg]
      refine ⟨by rw [released_lastScans, h.unscanned], h.cards, fun a p ho => ?_⟩
      exact h.owners a p (released_owner ho).1

theorem Confined.recorded (h : Confined pids apps s) : Confined pids apps (recorded C env cmd s) :=
  ⟨h.unscanned, h.cards, h.owners⟩

end Step

end RichPresence
