import RichPresence.Protocol.Serde

namespace RichPresence

open Serde

def maxStateSlots : Nat := 10

def stateStaleSecs : Nat := 10

structure StateServer where
  host : String
  port : Nat
  deriving DecidableEq, Repr

structure StateServers where
  bridge : Option StateServer := none
  msgpack : Option StateServer := none
  websocket : Option StateServer := none
  ipc : Option String := none
  deriving DecidableEq, Repr

structure StateActivity where
  socketId : String
  name : Option String := none
  applicationId : Option String := none
  pid : Option Nat := none
  startTime : Option String := none
  detectionSource : Option String := none
  detectLatencyMs : Option Nat := none
  deriving DecidableEq, Repr

structure StateSnapshot where
  appVersion : String
  timestamp : Int
  servers : StateServers
  activities : List StateActivity
  deriving DecidableEq, Repr

namespace StateSnapshot

/-- The clock is read in milliseconds; a reading that does not fit stands as 0. -/
def new (nowMillis : Nat) (appVersion : String) (servers : StateServers) (activities : List StateActivity) :
    StateSnapshot where
  appVersion
  timestamp := if nowMillis < 2 ^ 63 then nowMillis else 0
  servers
  activities

def serverValue (s : StateServer) : Value := record [("host", some (text s.host)), ("port", some (unsigned s.port))]

def serversValue (s : StateServers) : Value :=
  record [("bridge", s.bridge.map serverValue), ("msgpack", s.msgpack.map serverValue),
    ("websocket", s.websocket.map serverValue), ("ipc", s.ipc.map text)]

def activityEntry (a : StateActivity) : Value :=
  record [("socketId", some (text a.socketId)), ("name", a.name.map text),
    ("application_id", a.applicationId.map text), ("pid", a.pid.map unsigned), ("startTime", a.startTime.map text),
    ("detectionSource", a.detectionSource.map text), ("detectLatencyMs", a.detectLatencyMs.map unsigned)]

def toValue (s : StateSnapshot) : Value :=
  record [("appVersion", some (text s.appVersion)), ("timestamp", some (integer s.timestamp)),
    ("servers", some (serversValue s.servers)), ("activities", some (.array (s.activities.map activityEntry)))]

end StateSnapshot

/-- A slot as one who reads it finds it. -/
inductive SlotFile
  | missing
  | corrupt
  | parsed (snapshot : Value)

def timestampMs (snapshot : Value) : Option Int :=
  (snapshot.get "timestamp").bind fun value =>
    value.asI64.or (value.asU64.bind fun millis => if millis < 2 ^ 63 then some (millis : Int) else none)

def slotReusable (file : SlotFile) (nowSecs : Nat) : Bool :=
  match file with
  | .missing | .corrupt => true
  | .parsed snapshot =>
      match timestampMs snapshot with
      | some timestampMs =>
          let ageSecs := nowSecs - (max (timestampMs.tdiv 1000) 0).toNat
          ageSecs > stateStaleSecs
      | none => true

/-- The first slot of the directory that may be taken. -/
def selectSlot (dir : Nat → SlotFile) (nowSecs : Nat) : Option Nat :=
  (List.range maxStateSlots).find? fun index => slotReusable (dir index) nowSecs

theorem selectSlot_ne {dir : Nat → SlotFile} {nowSecs slot : Nat} (h : slotReusable (dir slot) nowSecs = false) :
    selectSlot dir nowSecs ≠ some slot := by
  intro hs
  have hfound := List.find?_some hs
  rw [h] at hfound
  cases hfound

theorem timestampMs_toValue (s : StateSnapshot) (h : 0 ≤ s.timestamp) (hlt : s.timestamp < 2 ^ 63) :
    timestampMs s.toValue = some s.timestamp := by
  have hget : s.toValue.get "timestamp" = some (integer s.timestamp) := rfl
  rw [timestampMs, hget, integer, if_pos h]
  have hword : (UInt64.ofNat s.timestamp.toNat).toNat = s.timestamp.toNat :=
    UInt64.toNat_ofNat_of_lt (by simp only [UInt64.size]; omega)
  have hnat : s.timestamp.toNat < 2 ^ 63 := by omega
  simp only [Option.bind_some, hword, Value.asI64, Number.asI64, if_pos hnat, Option.some_or, Option.some.injEq]
  omega

theorem slotReusable_written {written nowSecs : Nat} (appVersion : String) (servers : StateServers)
    (activities : List StateActivity) (h : 1000 * written < 2 ^ 63) :
    slotReusable (.parsed (StateSnapshot.new (1000 * written) appVersion servers activities).toValue) nowSecs =
      decide (stateStaleSecs < nowSecs - written) := by
  have hstamp : (StateSnapshot.new (1000 * written) appVersion servers activities).timestamp = 1000 * written := by
    simp only [StateSnapshot.new]
    rw [if_pos h]
    omega
  have hsecs : (max (Int.tdiv (1000 * written) 1000) 0).toNat = written := by
    rw [Int.mul_tdiv_cancel_left _ (by decide)]
    omega
  rw [slotReusable, timestampMs_toValue _ (by rw [hstamp]; omega) (by rw [hstamp]; omega), hstamp]
  simp only [hsecs]

end RichPresence
