import RichPresence.Types.Activity

namespace RichPresence

abbrev Bytes := List UInt8

structure ActivityPayload where
  activity : Option Activity
  pid : Option Nat
  socketId : Option String

structure ProcessActivity where
  applicationId : AppId
  name : String
  start : Nat
  type : Nat
  metadata : List (String × String)
  flags : Nat
  deriving DecidableEq, Repr

structure ProcessPayload where
  activity : ProcessActivity
  pid : Nat
  socketId : SocketId
  deriving DecidableEq, Repr

/-- The serializers the bridge is linked against: JSON for an activity alone,
JSON and MessagePack for a whole payload. A failed encoding is `none`. -/
structure Codec where
  activity : Activity → Option Bytes
  payloadJson : ActivityPayload → Option String
  payloadMsgpack : ActivityPayload → Option Bytes
  processActivity : ProcessActivity → Option Bytes
  processJson : ProcessPayload → Option String
  processMsgpack : ProcessPayload → Option Bytes

/-- None of the serialized shapes holds a value its encoder refuses. -/
structure Codec.Encodes (C : Codec) : Prop where
  activity : ∀ a, (C.activity a).isSome
  payloadJson : ∀ p, (C.payloadJson p).isSome
  payloadMsgpack : ∀ p, (C.payloadMsgpack p).isSome
  processActivity : ∀ a, (C.processActivity a).isSome
  processJson : ∀ p, (C.processJson p).isSome
  processMsgpack : ∀ p, (C.processMsgpack p).isSome

structure ActivityProvenance where
  source : String
  latencyMs : Option Nat
  deriving DecidableEq, Repr

structure CachedActivity where
  json : String
  msgpack : Bytes
  isClear : Bool
  activityJson : Bytes
  provenance : Option ActivityProvenance
  pid : Nat
  deriving DecidableEq, Repr

def emptyCached (C : Codec) (pid : Nat) (socketId : SocketId) : Option CachedActivity := do
  let payload : ActivityPayload := ⟨none, some pid, some socketId.text⟩
  let json ← C.payloadJson payload
  let msgpack ← C.payloadMsgpack payload
  return ⟨json, msgpack, true, [], none, pid⟩

/-- The serialized activity of a command, and the command after fixing. The
outer application id is stamped on the activity before it is serialized. -/
def activityFingerprint (C : Codec) (now : Nat) (cmd : ActivityCmd) : Option Bytes × ActivityCmd :=
  let cmd := cmd.fix now
  let cmd := cmd.mapActivity fun a => { a with applicationId := cmd.applicationId }
  (cmd.activity.bind C.activity, cmd)

def cachedActivity (C : Codec) (now : Nat) (cmd : ActivityCmd) (fingerprint : Option Bytes) :
    Option CachedActivity := do
  let cmd := cmd.fix now
  let args ← cmd.args
  match args.activity with
  | none => emptyCached C (args.pid.getD 0) (SocketId.ofPid (args.pid.getD 0))
  | some activity =>
      let payload : ActivityPayload :=
        ⟨some { activity with applicationId := cmd.applicationId }, args.pid,
          some (Nat.repr (args.pid.getD 0))⟩
      let json ← C.payloadJson payload
      let msgpack ← C.payloadMsgpack payload
      return ⟨json, msgpack, false, fingerprint.getD [], none, args.pid.getD 0⟩

@[simp] theorem activityFingerprint_pid (C : Codec) (now : Nat) (cmd : ActivityCmd) :
    (activityFingerprint C now cmd).2.pid = cmd.pid := by
  simp [activityFingerprint, ActivityCmd.fix]

theorem activityFingerprint_activity (C : Codec) (now : Nat) (cmd : ActivityCmd) :
    (activityFingerprint C now cmd).2.activity =
      cmd.activity.map fun a => { a.fix now with applicationId := cmd.applicationId } := by
  simp [activityFingerprint, ActivityCmd.fix, Function.comp_def]

@[simp] theorem activityFingerprint_args_isNone (C : Codec) (now : Nat) (cmd : ActivityCmd) :
    (activityFingerprint C now cmd).2.args.isNone = cmd.args.isNone := by
  simp [activityFingerprint, ActivityCmd.fix]

theorem activityFingerprint_none {C : Codec} {now : Nat} {cmd : ActivityCmd} (h : cmd.activity = none) :
    (activityFingerprint C now cmd).1 = none := by
  have ha := activityFingerprint_activity C now cmd
  rw [h] at ha
  change (activityFingerprint C now cmd).2.activity.bind C.activity = none
  rw [ha]
  rfl

theorem emptyCached_spec {C : Codec} {pid : Nat} {socketId : SocketId} {e : CachedActivity}
    (h : emptyCached C pid socketId = some e) :
    e.isClear = true ∧ e.provenance = none ∧ e.pid = pid ∧ e.activityJson = [] := by
  simp only [emptyCached, Option.bind_eq_bind, Option.bind_eq_some_iff, Option.pure_def,
    Option.some.injEq] at h
  obtain ⟨_, _, _, _, rfl⟩ := h
  exact ⟨rfl, rfl, rfl, rfl⟩

theorem emptyCached_isSome {C : Codec} (hC : C.Encodes) (pid : Nat) (socketId : SocketId) :
    ∃ e, emptyCached C pid socketId = some e := by
  obtain ⟨j, hj⟩ := Option.isSome_iff_exists.mp (hC.payloadJson ⟨none, some pid, some socketId.text⟩)
  obtain ⟨m, hm⟩ := Option.isSome_iff_exists.mp (hC.payloadMsgpack ⟨none, some pid, some socketId.text⟩)
  exact ⟨⟨j, m, true, [], none, pid⟩, by simp [emptyCached, hj, hm]⟩

theorem cachedActivity_isSome {C : Codec} (hC : C.Encodes) (now : Nat) (fingerprint : Option Bytes)
    {cmd : ActivityCmd} (hargs : cmd.args.isSome) : ∃ e, cachedActivity C now cmd fingerprint = some e := by
  obtain ⟨args, ha⟩ : ∃ args, (cmd.fix now).args = some args := by
    rw [← Option.isSome_iff_exists, ← Option.not_isNone, ActivityCmd.fix,
      ActivityCmd.mapActivity_args_isNone, Option.not_isNone]
    exact hargs
  cases hact : args.activity with
  | none =>
      obtain ⟨e, he⟩ := emptyCached_isSome hC (args.pid.getD 0) (SocketId.ofPid (args.pid.getD 0))
      exact ⟨e, by simp [cachedActivity, ha, hact, he]⟩
  | some activity =>
      obtain ⟨json, hj⟩ := Option.isSome_iff_exists.mp (hC.payloadJson
        ⟨some { activity with applicationId := (cmd.fix now).applicationId }, args.pid,
          some (Nat.repr (args.pid.getD 0))⟩)
      obtain ⟨msgpack, hm⟩ := Option.isSome_iff_exists.mp (hC.payloadMsgpack
        ⟨some { activity with applicationId := (cmd.fix now).applicationId }, args.pid,
          some (Nat.repr (args.pid.getD 0))⟩)
      exact ⟨⟨json, msgpack, false, fingerprint.getD [], none, args.pid.getD 0⟩,
        by simp [cachedActivity, ha, hact, hj, hm]⟩

end RichPresence
