import RichPresence.Bridge.Resume
import RichPresence.Detect.Convergence

namespace RichPresence.Detect

open Lib

inductive Turn : Type 1
  | tick (hits : List ScannedHit)
  | deliver (env : Env) (processStartMs : Nat → Option Nat)
  | command (env : Env) (cmd : ActivityCmd)

/-- Scan loop, channel and bridge. The table of the latest tick and whether a
command has found a process of the last emitted table dead are history. -/
structure Session where
  lane : Lane := {}
  queue : List ProcessDetectedEvent := []
  bridge : Shared := {}
  table : List Slot := []
  deaths : Bool := false

namespace Session

def step (C : Codec) (s : Session) : Turn → Session
  | .tick hits =>
      let (delivery, lane) := s.lane.tick hits fun _ => .sent
      { s with
        lane
        queue := s.queue ++ delivery.2
        table := snapshotOf hits
        deaths := s.deaths && !s.lane.emits hits }
  | .deliver env processStartMs =>
      match s.queue with
      | [] => s
      | event :: queue =>
          { s with
            queue
            bridge := RichPresence.step C s.bridge ⟨env, .proc (toInput processStartMs event)⟩ }
  | .command env cmd =>
      { s with
        bridge := RichPresence.step C s.bridge ⟨env, .setActivity cmd⟩
        deaths := s.deaths || s.table.any fun slot => !env.isProcessAlive slot.2 }

def run (C : Codec) (ts : List Turn) : Session := ts.foldl (step C) {}

def HasRoom (C : Codec) (s : Session) : Turn → Prop
  | .tick _ => True
  | .deliver env processStartMs =>
      match s.queue with
      | [] => True
      | event :: _ => StartsWithRoom C s.bridge ⟨env, .proc (toInput processStartMs event)⟩
  | .command env cmd => StartsWithRoom C s.bridge ⟨env, .setActivity cmd⟩

instance (C : Codec) (s : Session) : (t : Turn) → Decidable (s.HasRoom C t)
  | .tick _ => inferInstanceAs (Decidable True)
  | .deliver env processStartMs =>
      match h : s.queue with
      | [] => .isTrue (by rw [HasRoom, h]; trivial)
      | event :: _ =>
          decidable_of_iff (StartsWithRoom C s.bridge ⟨env, .proc (toInput processStartMs event)⟩)
            (by rw [HasRoom, h])
  | .command env cmd => inferInstanceAs (Decidable (StartsWithRoom C s.bridge ⟨env, .setActivity cmd⟩))

end Session

def Turn.sdkPid : Turn → Option Nat
  | .command _ cmd => some cmd.pid
  | _ => none

def Turn.scannedApps : Turn → List AppId
  | .tick hits => hits.map fun hit => hit.entry.id
  | _ => []

def Apart (ts : List Turn) : Prop :=
  ∀ p ∈ ts.filterMap Turn.sdkPid, ∀ a ∈ ts.flatMap Turn.scannedApps, SocketId.ofPid p ≠ SocketId.ofApp a

instance (ts : List Turn) : Decidable (Apart ts) :=
  inferInstanceAs (Decidable (∀ p ∈ ts.filterMap Turn.sdkPid, ∀ a ∈ ts.flatMap Turn.scannedApps, _))

/-- The bridge remembers a listed process of the slot, and shows its game unless
a client owns the slot. -/
def Ready (table : List Slot) (a : AppId) (bridge : Shared) : Prop :=
  (∃ game, bridge.handoff.lastScans.lookup a = some game ∧ (a, game.pid) ∈ table) ∧
    (bridge.owners a = none → (bridge.published a).isSome)

def Spares (a : AppId) (queue : List ProcessDetectedEvent) : Prop :=
  ∀ event ∈ queue, ∃ hit, event = .detected hit ∧ hit.entry.id ≠ a

/-- A detection of the slot is on its way and nothing behind it touches the
slot. -/
def Due (table : List Slot) (a : AppId) (queue : List ProcessDetectedEvent) : Prop :=
  ∃ ahead hit behind, queue = ahead ++ .detected hit :: behind ∧ hit.entry.id = a ∧ hit.slot ∈ table ∧
    Spares a behind

def Covered (s : Session) (a : AppId) : Prop :=
  Due s.table a s.queue ∨ (Spares a s.queue ∧ Ready s.table a s.bridge)

variable {C : Codec} {table : List Slot} {a : AppId} {bridge : Shared}

theorem Lane.tick_lossless {lane : Lane} {hits : List ScannedHit} (h : lane.emits hits = true) :
    lane.tick hits (fun _ => .sent) =
      ((.complete, snapshotEvents (removedSlots lane.lastEmitted (snapshotOf hits)) hits hits.isEmpty),
        ⟨snapshotOf hits, false⟩) := by
  rw [Lane.tick_emits h, deliverSnapshot, sendAll_sent, if_pos rfl]

theorem exists_last {α : Type} {l : List α} {p : α → Prop} (h : ∃ x ∈ l, p x) :
    ∃ ahead x behind, l = ahead ++ x :: behind ∧ p x ∧ ∀ y ∈ behind, ¬p y := by
  induction l with
  | nil =>
      obtain ⟨x, hx, _⟩ := h
      cases hx
  | cons y l ih =>
      by_cases hl : ∃ x ∈ l, p x
      · obtain ⟨ahead, x, behind, rfl, hp, hb⟩ := ih hl
        exact ⟨y :: ahead, x, behind, rfl, hp, hb⟩
      · obtain ⟨x, hx, hp⟩ := h
        rcases List.mem_cons.mp hx with rfl | hx
        · exact ⟨[], x, l, rfl, hp, fun z hz hpz => hl ⟨z, hz, hpz⟩⟩
        · exact absurd ⟨x, hx, hp⟩ hl

theorem due_of_emitted (queue : List ProcessDetectedEvent) (removed : List Slot) {hits : List ScannedHit}
    (ha : a ∈ (snapshotOf hits).map Prod.fst) :
    Due (snapshotOf hits) a (queue ++ snapshotEvents removed hits hits.isEmpty) := by
  obtain ⟨slot, hslot, rfl⟩ := List.mem_map.mp ha
  obtain ⟨hit, hhit, rfl⟩ := mem_snapshotOf.mp hslot
  obtain ⟨ahead, last, behind, hsplit, hid, hrest⟩ :=
    exists_last (p := fun h : ScannedHit => h.entry.id = hit.entry.id) ⟨hit, hhit, rfl⟩
  have hne : hits.isEmpty = false := by
    rw [hsplit]
    simp
  refine ⟨queue ++ removed.map (fun slot => .removed slot.1 slot.2) ++ ahead.map .detected, last,
    behind.map .detected, ?_, hid, ?_, ?_⟩
  · rw [snapshotEvents, hne, hsplit]
    simp
  · apply mem_snapshotOf.mpr
    exact ⟨last, by rw [hsplit]; simp, rfl⟩
  · intro event he
    obtain ⟨other, ho, rfl⟩ := List.mem_map.mp he
    exact ⟨other, rfl, hrest other ho⟩

theorem Spares.tail {event : ProcessDetectedEvent} {queue : List ProcessDetectedEvent}
    (h : Spares a (event :: queue)) : Spares a queue := fun e he => h e (List.mem_cons_of_mem event he)

theorem Ready.of_detected {env : Env} {hit : ScannedHit} (processStartMs : Nat → Option Nat)
    (hid : hit.entry.id = a) (hslot : hit.slot ∈ table) (hr : bridge.HasRoom) :
    Ready table a ((procPump C env (.detected (hit.game processStartMs))).exec bridge) := by
  have hgame : (hit.game processStartMs).id = a := hid
  constructor
  · refine ⟨hit.game processStartMs, ?_, by rw [← hid]; exact hslot⟩
    rw [procPump, detected_lastScans _ hr, if_pos hgame.symm]
  · intro ho
    rw [procPump_owners] at ho
    rw [procPump_published hr.2.1, Published.apply, hgame, ho, if_neg (by simp)]
    cases hp : bridge.published a with
    | some pid => simp [hp]
    | none => simp

theorem Ready.detected_other {env : Env} {game : ScannedGame} (h : Ready table a bridge) (hid : game.id ≠ a)
    (hr : bridge.HasRoom) : Ready table a ((procPump C env (.detected game)).exec bridge) := by
  obtain ⟨⟨known, hscan, hslot⟩, hpub⟩ := h
  constructor
  · refine ⟨known, ?_, hslot⟩
    rw [procPump, detected_lastScans _ hr, if_neg (Ne.symm hid), hscan]
  · intro ho
    rw [procPump_owners] at ho
    have hp := hpub ho
    rw [procPump_published hr.2.1, Published.apply]
    split
    next => rwa [Function.update_apply, if_neg (Ne.symm hid)]
    next =>
      split
      next => exact hp
      next => rwa [Function.update_apply, if_neg (Ne.symm hid)]

theorem Ready.command {env : Env} {cmd : ActivityCmd} (h : Ready table a bridge)
    (hr : StartsWithRoom C bridge ⟨env, .setActivity cmd⟩)
    (hlive : ∀ slot ∈ table, env.isProcessAlive slot.2 = true) :
    Ready table a ((handleSetActivity C env cmd).exec bridge) := by
  obtain ⟨⟨game, hscan, hslot⟩, hpub⟩ := h
  refine ⟨⟨game, ?_, hslot⟩, ?_⟩
  · rw [setActivity_lastScans, hscan]
  · exact setActivity_vacant hr hscan (hlive _ hslot) hpub

end RichPresence.Detect
