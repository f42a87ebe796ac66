import RichPresence.Bridge.ProcPump
import RichPresence.Detect.Database

namespace RichPresence.Detect

open Lib

structure ScannedHit where
  entry : ScannedEntry
  pid : Nat
  start : Nat
  source : DetectSource
  deriving DecidableEq, Repr

inductive ProcessDetectedEvent
  | detected (hit : ScannedHit)
  | cleared
  | removed (id : AppId) (pid : Nat)
  deriving DecidableEq, Repr

abbrev Slot := AppId × Nat

def ScannedHit.slot (hit : ScannedHit) : Slot := (hit.entry.id, hit.pid)

inductive SendChecked
  | sent
  | shed
  | closed
  deriving DecidableEq, Repr

inductive SnapshotDelivery
  | complete
  | shed
  | closed
  deriving DecidableEq, Repr

def slotOrder (x y : Slot) : Prop := x.1.text < y.1.text ∨ (x.1.text = y.1.text ∧ x.2 ≤ y.2)

instance : DecidableRel slotOrder := fun _ _ => inferInstanceAs (Decidable (_ ∨ _))

def removedSlots (previous current : List Slot) : List Slot := previous.filter fun slot => slot ∉ current

/-- Removals first, then detections, then the clear of an empty table. -/
def snapshotEvents (removed : List Slot) (detected : List ScannedHit) (cleared : Bool) :
    List ProcessDetectedEvent :=
  removed.map (fun slot => .removed slot.1 slot.2) ++ detected.map .detected ++
    if cleared then [.cleared] else []

/-- Offer events to the channel until one is not accepted. The channel's answers
are numbered from the start of the delivery. -/
def sendAll (channel : Nat → SendChecked) :
    Nat → List ProcessDetectedEvent → SnapshotDelivery × List ProcessDetectedEvent
  | _, [] => (.complete, [])
  | i, event :: rest =>
      match channel i with
      | .sent => ((sendAll channel (i + 1) rest).1, event :: (sendAll channel (i + 1) rest).2)
      | .shed => (.shed, [])
      | .closed => (.closed, [])

def deliverSnapshot (channel : Nat → SendChecked) (removed : List Slot) (detected : List ScannedHit)
    (cleared : Bool) : SnapshotDelivery × List ProcessDetectedEvent :=
  sendAll channel 0 (snapshotEvents removed detected cleared)

def advanceSnapshotLane (lastEmitted snapshot : List Slot)
    (deliver : List Slot → SnapshotDelivery × List ProcessDetectedEvent) :
    (SnapshotDelivery × List ProcessDetectedEvent) × List Slot :=
  let delivery := deliver (removedSlots lastEmitted snapshot)
  (delivery, if delivery.1 = .complete then snapshot else lastEmitted)

structure Lane where
  lastEmitted : List Slot := []
  scanDirty : Bool := false
  deriving DecidableEq, Repr

def snapshotOf (detected : List ScannedHit) : List Slot :=
  (detected.map ScannedHit.slot).insertionSort slotOrder

namespace Lane

def emits (lane : Lane) (detected : List ScannedHit) : Bool :=
  snapshotOf detected != lane.lastEmitted || lane.scanDirty

/-- One polling tick. The dirty flag is consumed before the outcome is known. -/
def tick (lane : Lane) (detected : List ScannedHit) (channel : Nat → SendChecked) :
    (SnapshotDelivery × List ProcessDetectedEvent) × Lane :=
  if lane.emits detected then
    let (delivery, lastEmitted) := advanceSnapshotLane lane.lastEmitted (snapshotOf detected)
      fun removed => deliverSnapshot channel removed detected detected.isEmpty
    (delivery, { lastEmitted, scanDirty := false })
  else ((.complete, []), { lane with scanDirty := false })

end Lane

/-- The publication of one EXEC hit: best effort, and only a gone receiver is a
failure. -/
def publishExecHit (channel : SendChecked) (hit : ScannedHit) : Bool × List ProcessDetectedEvent :=
  match channel with
  | .sent => (true, [.detected hit])
  | .shed => (true, [])
  | .closed => (false, [])

/-- The pump between scanner and bridge; the start time of a process is read on
the way. -/
def toInput (processStartMs : Nat → Option Nat) : ProcessDetectedEvent → ProcInput
  | .detected hit =>
      .detected ⟨hit.entry.id, hit.entry.name, hit.pid, hit.start, hit.source, processStartMs hit.pid⟩
  | .cleared => .cleared
  | .removed id pid => .removed id pid

theorem mem_snapshotOf {detected : List ScannedHit} {slot : Slot} :
    slot ∈ snapshotOf detected ↔ ∃ hit ∈ detected, hit.slot = slot := by
  rw [snapshotOf, List.mem_insertionSort, List.mem_map]

theorem mem_removedSlots {previous current : List Slot} {slot : Slot} :
    slot ∈ removedSlots previous current ↔ slot ∈ previous ∧ slot ∉ current := by
  simp [removedSlots]

theorem sendAll_complete {channel : Nat → SendChecked} {events : List ProcessDetectedEvent} {i : Nat}
    (h : (sendAll channel i events).1 = .complete) : (sendAll channel i events).2 = events := by
  induction events generalizing i with
  | nil => rfl
  | cons event rest ih =>
      rw [sendAll] at h ⊢
      cases hc : channel i with
      | sent =>
          simp only [hc] at h ⊢
          rw [ih h]
      | shed => simp [hc] at h
      | closed => simp [hc] at h

theorem sendAll_accepted {channel : Nat → SendChecked} {events : List ProcessDetectedEvent} {i : Nat}
    (h : (sendAll channel i events).1 = .complete) : ∀ j < events.length, channel (i + j) = .sent := by
  induction events generalizing i with
  | nil => simp
  | cons event rest ih =>
      rw [sendAll] at h
      cases hc : channel i with
      | sent =>
          simp only [hc] at h
          intro j hj
          cases j with
          | zero => exact hc
          | succ j =>
              have hi := ih h j (by simpa using hj)
              rwa [Nat.add_assoc, Nat.add_comm 1] at hi
      | shed => simp [hc] at h
      | closed => simp [hc] at h

theorem deliverSnapshot_complete {channel : Nat → SendChecked} {removed : List Slot} {hits : List ScannedHit}
    {cleared : Bool} (h : (deliverSnapshot channel removed hits cleared).1 = .complete) :
    (deliverSnapshot channel removed hits cleared).2 = snapshotEvents removed hits cleared := sendAll_complete h

theorem sendAll_sent (events : List ProcessDetectedEvent) (i : Nat) :
    sendAll (fun _ => .sent) i events = (.complete, events) := by
  induction events generalizing i with
  | nil => rfl
  | cons event rest ih => rw [sendAll, ih]

namespace Lane

variable {lane : Lane} {hits : List ScannedHit} {channel : Nat → SendChecked}

theorem tick_quiet (h : lane.emits hits = false) :
    lane.tick hits channel = ((.complete, []), { lane with scanDirty := false }) := by
  rw [tick, h]
  rfl

theorem tick_emits (h : lane.emits hits = true) :
    lane.tick hits channel =
      (deliverSnapshot channel (removedSlots lane.lastEmitted (snapshotOf hits)) hits hits.isEmpty,
        { lastEmitted :=
            if (deliverSnapshot channel (removedSlots lane.lastEmitted (snapshotOf hits)) hits
              hits.isEmpty).1 = .complete then snapshotOf hits else lane.lastEmitted
          scanDirty := false }) := by
  rw [tick, if_pos h]
  rfl

theorem quiet_iff : lane.emits hits = false ↔ snapshotOf hits = lane.lastEmitted ∧ lane.scanDirty = false := by
  rw [emits, Bool.or_eq_false_iff, bne_eq_false_iff_eq]

end Lane

end RichPresence.Detect
