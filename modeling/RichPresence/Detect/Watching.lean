import RichPresence.Detect.Convergence

namespace RichPresence.Detect

open Lib Published

inductive WatcherPhase
  | idle
  | inserted (hit : ScannedHit)
  | marked (hit : ScannedHit)
  deriving DecidableEq, Repr

inductive ScanPhase
  | idle
  | scanned (hits : List ScannedHit)
  | refilled (hits : List ScannedHit)
  | sending (hits : List ScannedHit) (rest : List ProcessDetectedEvent)
  deriving DecidableEq, Repr

/-- Both lanes over one channel that never sheds. An event is handled by the
bridge when its turn in the channel comes, so it is handled as it is sent. -/
structure Watching where
  detectedPids : List Nat := []
  lane : Lane := {}
  watcher : WatcherPhase := .idle
  scan : ScanPhase := .idle
  bridge : Shared := {}

inductive Move : Type 1
  | insert (hit : ScannedHit)
  | mark
  | publish (env : Env) (processStartMs : Nat → Option Nat)
  | scan (hits : List ScannedHit)
  | refill
  | swap
  | send (env : Env) (processStartMs : Nat → Option Nat)
  | record

def Move.isScan : Move → Bool
  | .scan _ => true
  | _ => false

namespace Watching

def tickEvents (s : Watching) (hits : List ScannedHit) : List ProcessDetectedEvent :=
  snapshotEvents (removedSlots s.lane.lastEmitted (snapshotOf hits)) hits hits.isEmpty

/-- One move; a move whose thread stands elsewhere does nothing. -/
def step (C : Codec) (s : Watching) : Move → Watching
  | .insert hit =>
      match s.watcher with
      | .idle => { s with detectedPids := hit.pid :: s.detectedPids, watcher := .inserted hit }
      | _ => s
  | .mark =>
      match s.watcher with
      | .inserted hit => { s with lane := { s.lane with scanDirty := true }, watcher := .marked hit }
      | _ => s
  | .publish env processStartMs =>
      match s.watcher with
      | .marked hit =>
          { s with
            bridge := RichPresence.step C s.bridge ⟨env, .proc (toInput processStartMs (.detected hit))⟩
            watcher := .idle }
      | _ => s
  | .scan hits =>
      match s.scan with
      | .idle => { s with scan := .scanned hits }
      | _ => s
  | .refill =>
      match s.scan with
      | .scanned hits => { s with detectedPids := hits.map (·.pid), scan := .refilled hits }
      | _ => s
  | .swap =>
      match s.scan with
      | .refilled hits =>
          { s with
            lane := { s.lane with scanDirty := false }
            scan := if s.lane.emits hits then .sending hits (s.tickEvents hits) else .idle }
      | _ => s
  | .send env processStartMs =>
      match s.scan with
      | .sending hits (event :: rest) =>
          { s with
            bridge := RichPresence.step C s.bridge ⟨env, .proc (toInput processStartMs event)⟩
            scan := .sending hits rest }
      | _ => s
  | .record =>
      match s.scan with
      | .sending hits [] => { s with lane := { s.lane with lastEmitted := snapshotOf hits }, scan := .idle }
      | _ => s

def run (C : Codec) (moves : List Move) : Watching := moves.foldl (step C) {}

def publication (s : Watching) : Move → Option AppId
  | .publish _ _ =>
      match s.watcher with
      | .marked hit => some hit.entry.id
      | _ => none
  | _ => none

/-- The move leaves the tick under way alone: no further scan begins and no EXEC
publication of `a` is sent. -/
def Undisturbed (a : AppId) (s : Watching) (m : Move) : Prop := m.isScan = false ∧ s.publication m ≠ some a

instance (a : AppId) (s : Watching) (m : Move) : Decidable (s.Undisturbed a m) :=
  inferInstanceAs (Decidable (_ ∧ _))

/-- What the coming emission can reach: `a` is not published, or the tick emits
and its table is empty or `a` is published under a pid the last emission had. -/
def Reaches (a : AppId) (hits : List ScannedHit) (s : Watching) : Prop :=
  s.bridge.published a = none ∨
    (s.lane.emits hits = true ∧
      (hits = [] ∨ ∃ slot ∈ s.lane.lastEmitted, slot.1 = a ∧ s.bridge.published a = some slot.2))

instance (a : AppId) (hits : List ScannedHit) (s : Watching) : Decidable (s.Reaches a hits) :=
  inferInstanceAs (Decidable (_ ∨ _))

section Uninterrupted

variable {C : Codec} {s : Watching} {hits : List ScannedHit} {surroundings : Nat → Env}
  {processStartMs : Nat → Option Nat}

def sends (surroundings : Nat → Env) (processStartMs : Nat → Option Nat) (events : List ProcessDetectedEvent) :
    List Move :=
  events.mapIdx fun i _ => .send (surroundings i) processStartMs

def opening (hits : List ScannedHit) : List Move := [.scan hits, .refill, .swap]

theorem sends_run {events : List ProcessDetectedEvent} (hs : s.scan = .sending hits events) :
    (sends surroundings processStartMs events).foldl (step C) s =
      { s with
        bridge := runFrom C s.bridge (feed surroundings processStartMs events)
        scan := .sending hits [] } := by
  induction events generalizing surroundings s with
  | nil =>
      rw [← hs]
      rfl
  | cons event events ih =>
      rw [sends, feed, List.mapIdx_cons, List.mapIdx_cons, List.foldl_cons]
      have hstep : s.step C (.send (surroundings 0) processStartMs) =
          { s with
            bridge := RichPresence.step C s.bridge ⟨surroundings 0, .proc (toInput processStartMs event)⟩
            scan := .sending hits events } := by
        simp only [step, hs]
      rw [hstep]
      exact ih rfl

/-- A tick that no other move interrupts is the scan loop's tick over a channel
that accepts everything. -/
theorem tick_run (hs : s.scan = .idle) (he : s.lane.emits hits = true) :
    (opening hits ++ sends surroundings processStartMs (s.tickEvents hits) ++ [Move.record]).foldl (step C) s =
      { s with
        detectedPids := hits.map (·.pid)
        lane := (s.lane.tick hits fun _ => .sent).2
        bridge := runFrom C s.bridge
          (feed surroundings processStartMs (s.lane.tick hits fun _ => .sent).1.2) } := by
  rw [Lane.tick_emits he, deliverSnapshot, sendAll_sent, if_pos rfl, List.foldl_append, List.foldl_append]
  have hswap : (opening hits).foldl (step C) s =
      { s with
        detectedPids := hits.map (·.pid)
        lane := { s.lane with scanDirty := false }
        scan := .sending hits (s.tickEvents hits) } := by
    simp only [opening, List.foldl_cons, List.foldl_nil, step, hs, he, if_true]
    rfl
  rw [hswap, sends_run rfl]
  simp only [List.foldl_cons, List.foldl_nil, step, hs]
  rfl

theorem tick_run_quiet (hs : s.scan = .idle) (he : s.lane.emits hits = false) :
    (opening hits).foldl (step C) s =
      { s with detectedPids := hits.map (·.pid), lane := (s.lane.tick hits fun _ => .sent).2 } := by
  simp only [opening, List.foldl_cons, List.foldl_nil, step, hs, he, Lane.tick_quiet he, Bool.false_eq_true, if_false]

end Uninterrupted

end Watching

end RichPresence.Detect
