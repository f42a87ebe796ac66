import RichPresence.Bridge.Room
import RichPresence.Protocol.FrameReader

namespace RichPresence

open Lib

/-- How a consumer reads a frame: the socket it is about and its activity, which
is `none` when null. A frame that is not about an activity reads as `none`. -/
abbrev Read (A : Type) := Message → Option (SocketId × Option A)

abbrev View (A : Type) := SocketId → Option A

variable {A : Type} (read : Read A)

def View.apply (view : View A) (frame : Message) : View A :=
  match read frame with
  | some (socketId, activity) => Function.update view socketId activity
  | none => view

def viewOf (frames : List Message) : View A := frames.foldl (View.apply read) fun _ => none

/-- What a view shows under a socket is the activity of a payload, or nothing. -/
def Displays (protocol : BridgeProtocol) (view : View A) (k : SocketId) : Option CachedActivity → Prop
  | none => view k = none
  | some payload => ∃ a, read (encodeFor protocol payload) = some (k, some a) ∧ view k = some a

def Mirrors (protocol : BridgeProtocol) (view : View A) (cache : ReplayCache) : Prop :=
  ∀ k, Displays read protocol view k ((cache.lookup k).map Prod.fst)

/-- The reader tells the socket id of a payload and whether its activity is
null, in the encoding of one protocol. -/
structure Reads (C : Codec) (protocol : BridgeProtocol) : Prop where
  payload : ∀ payload json msgpack k, C.payloadJson payload = some json → C.payloadMsgpack payload = some msgpack →
    payload.socketId = some k → ∃ x, x.isSome = payload.activity.isSome ∧
      ∀ e : CachedActivity, e.json = json → e.msgpack = msgpack → read (encodeFor protocol e) = some (⟨k⟩, x)
  process : ∀ payload json msgpack, C.processJson payload = some json → C.processMsgpack payload = some msgpack →
    ∃ a, ∀ e : CachedActivity, e.json = json → e.msgpack = msgpack →
      read (encodeFor protocol e) = some (payload.socketId, some a)

def Names (protocol : BridgeProtocol) (payload : CachedActivity) (k : SocketId) : Prop :=
  ∃ x, x.isSome = !payload.isClear ∧ read (encodeFor protocol payload) = some (k, x)

variable {read} {C : Codec} {protocol : BridgeProtocol} {env : Env} {cmd : ActivityCmd}

theorem emptyCached_names (h : Reads read C protocol) {pid : Nat} {k : SocketId} {e : CachedActivity}
    (he : emptyCached C pid k = some e) : Names read protocol e k := by
  simp only [emptyCached, Option.bind_eq_bind, Option.bind_eq_some_iff, Option.pure_def,
    Option.some.injEq] at he
  obtain ⟨json, hj, msgpack, hm, rfl⟩ := he
  obtain ⟨x, hx, hr⟩ := h.payload _ json msgpack k.text hj hm rfl
  exact ⟨x, hx, hr _ rfl rfl⟩

theorem genericPayload_names (h : Reads read C protocol) {game : ScannedGame} {e : CachedActivity}
    (he : genericPayload C env game = some e) : Names read protocol e (SocketId.ofApp game.id) := by
  simp only [genericPayload, Option.bind_eq_bind, Option.bind_eq_some_iff, Option.pure_def,
    Option.some.injEq] at he
  obtain ⟨_, _, json, hj, msgpack, hm, rfl⟩ := he
  obtain ⟨a, hr⟩ := h.process _ json msgpack hj hm
  exact ⟨some a, rfl, hr _ rfl rfl⟩

theorem cachedActivity_names (h : Reads read C protocol) {now : Nat} {fingerprint : Option Bytes}
    {e : CachedActivity} (he : cachedActivity C now cmd fingerprint = some e) :
    Names read protocol e (SocketId.ofPid cmd.pid) := by
  have hpid : (cmd.fix now).pid = cmd.pid := ActivityCmd.mapActivity_pid _ cmd
  rw [← hpid, ActivityCmd.pid]
  simp only [cachedActivity, Option.bind_eq_bind, Option.bind_eq_some_iff] at he
  obtain ⟨args, hargs, he⟩ := he
  rw [hargs, Option.bind_some]
  cases ha : args.activity with
  | none =>
      rw [ha] at he
      exact emptyCached_names h he
  | some activity =>
      rw [ha] at he
      simp only [Option.bind_eq_some_iff, Option.pure_def, Option.some.injEq] at he
      obtain ⟨json, hj, msgpack, hm, rfl⟩ := he
      obtain ⟨x, hx, hr⟩ := h.payload _ json msgpack _ hj hm rfl
      exact ⟨x, hx, hr _ rfl rfl⟩

theorem sdkCard_names (h : Reads read C protocol) {e : CachedActivity} (he : sdkCard C env cmd = some e) :
    Names read protocol e (SocketId.ofPid cmd.pid) := by
  obtain ⟨payload, hp, rfl⟩ := Option.map_eq_some_iff.mp he
  obtain ⟨x, hx, hr⟩ := cachedActivity_names h hp
  rw [fixed_pid] at hr
  refine ⟨x, hx, ?_⟩
  rw [← hr]
  cases protocol <;> rfl

theorem viewOf_concat (frames : List Message) (frame : Message) :
    viewOf read (frames ++ [frame]) = View.apply read (viewOf read frames) frame := by
  rw [viewOf, List.foldl_append]
  rfl

theorem View.apply_names {view : View A} {payload : CachedActivity} {k : SocketId} {x : Option A}
    (h : read (encodeFor protocol payload) = some (k, x)) :
    View.apply read view (encodeFor protocol payload) = Function.update view k x := by
  rw [View.apply, h]

def CachedActivity.outcome (payload : CachedActivity) : Option CachedActivity :=
  if payload.isClear then none else some payload

theorem displays_own (view : View A) {payload : CachedActivity} {k : SocketId}
    (hn : Names read protocol payload k) :
    Displays read protocol (View.apply read view (encodeFor protocol payload)) k payload.outcome := by
  obtain ⟨x, hx, hr⟩ := hn
  rw [View.apply_names hr, CachedActivity.outcome]
  cases hc : payload.isClear with
  | true =>
      rw [hc, Bool.not_true, Option.isSome_eq_false_iff, Option.isNone_iff_eq_none] at hx
      simp [Displays, hx]
  | false =>
      rw [hc, Bool.not_false, Option.isSome_iff_exists] at hx
      obtain ⟨a, rfl⟩ := hx
      exact ⟨a, hr, Function.update_self ..⟩

theorem displays_other {view : View A} {payload : CachedActivity} {k k' : SocketId} {x : Option CachedActivity}
    (hn : Names read protocol payload k) (hk : k' ≠ k) :
    Displays read protocol (View.apply read view (encodeFor protocol payload)) k' x ↔
      Displays read protocol view k' x := by
  obtain ⟨y, _, hr⟩ := hn
  rw [View.apply_names hr]
  cases x <;> simp only [Displays, Function.update_of_ne hk]

theorem Mirrors.apply {view : View A} {cache cache' : ReplayCache} {payload : CachedActivity} {k : SocketId}
    (h : Mirrors read protocol view cache) (hn : Names read protocol payload k)
    (hcache : ∀ k', (cache'.lookup k').map Prod.fst =
      if k' = k then payload.outcome else (cache.lookup k').map Prod.fst) :
    Mirrors read protocol (View.apply read view (encodeFor protocol payload)) cache' := by
  intro k'
  rw [hcache]
  by_cases hk : k' = k
  · subst hk
    rw [if_pos rfl]
    exact displays_own view hn
  · rw [if_neg hk, displays_other hn hk]
    exact h k'

theorem updateCache_outcome (env : Env) {payload : CachedActivity} {k : SocketId} {s : Shared}
    (hfit : payload.isClear = false →
      Table.size (s.cache.insert k (payload, s.activitySeq + 1)) ≤ maxCachedActivities) (k' : SocketId) :
    (((s.updateCache env payload k).cache).lookup k').map Prod.fst =
      if k' = k then payload.outcome else (s.cache.lookup k').map Prod.fst := by
  rw [CachedActivity.outcome]
  cases hc : payload.isClear with
  | true =>
      rw [Shared.updateCache_clear _ _ _ _ hc, Table.lookup_erase_eq]
      by_cases hk : k' = k <;> simp [hk]
  | false =>
      rw [Shared.updateCache_card _ _ _ _ hc, pruneCache_of_le (hfit hc), Table.lookup_insert_eq]
      by_cases hk : k' = k <;> simp [hk]

namespace Serde

def readText : Read (List Char)
  | .text frame => readFrame frame
  | .binary _ => none

theorem valueJson_object_ne_null (members : List (String × Value)) :
    valueJson (.object members) ≠ "null".toList := by
  intro h
  rw [valueJson] at h
  cases h

theorem codec_reads : Reads readText codec .json where
  payload := by
    rintro ⟨activity, pid, socketId⟩ json msgpack k hj _ rfl
    obtain rfl := Option.some.inj hj
    refine ⟨activity.map fun a => valueJson (activityValue a), Option.isSome_map, ?_⟩
    intro e he _
    rw [encodeFor, he]
    refine (readFrame_correct ((activity.map activityValue).getD .null) ((pid.map unsigned).getD .null) k).trans ?_
    cases activity with
    | none => rfl
    | some a => exact congrArg (fun x => some (_, x)) (if_neg (valueJson_object_ne_null _))
  process := by
    intro payload json msgpack hj _
    obtain rfl := Option.some.inj hj
    refine ⟨valueJson (processActivityValue payload.activity), fun e he _ => ?_⟩
    rw [encodeFor, he]
    refine (readFrame_correct (processActivityValue payload.activity) (unsigned payload.pid)
      payload.socketId.text).trans ?_
    exact congrArg (fun x => some (_, x)) (if_neg (valueJson_object_ne_null _))

end Serde

end RichPresence
