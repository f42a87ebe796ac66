import RichPresence.Lib.Index
import RichPresence.Protocol.Replies
import RichPresence.Types.ActivityDecode
import RichPresence.Types.Normalization
import RichPresence.Types.Ordered

namespace RichPresence

open Commands Value Serde Lib

section Fixing

variable {t₁ t₂ t₃ : Nat}

/-- The activity in the reply to the game. -/
def echoed (cmd : ActivityCmd) : Option Activity := (setActivityResponse cmd).2.activity

/-- The activity whose encoding the flood guard compares. -/
def fingerprinted (C : Codec) (now : Nat) (cmd : ActivityCmd) : Option Activity :=
  (activityFingerprint C now cmd).2.activity

/-- The activity in the payload the cache keeps. -/
def serialized (now : Nat) (cmd : ActivityCmd) : Option Activity :=
  (cmd.fix now).activity.map fun a => { a with applicationId := cmd.applicationId }

theorem setActivityResponse_echoed (cmd : ActivityCmd) : (setActivityResponse cmd).1 = cmd.args.map fun _ =>
    reply cmd.cmd (orNull ((echoed cmd).map fun a =>
      (activityValue a).withMember "application_id" (orNull (cmd.applicationId.map fun id => text id.text))))
      none cmd.nonce := by
  cases h : cmd.args with
  | none => simp [setActivityResponse, ActivityCmd.mapActivity, h]
  | some args => simp [setActivityResponse, ActivityCmd.mapActivity, echoed, ActivityCmd.activity, h]

theorem serialized_eq (now : Nat) (cmd : ActivityCmd) : serialized now cmd =
    cmd.activity.map fun a => { a.fix now with applicationId := cmd.applicationId } := by
  simp [serialized, ActivityCmd.fix, Function.comp_def]

theorem cachedActivity_serialized {C : Codec} {now : Nat} {cmd : ActivityCmd} {a : Activity}
    (h : serialized now cmd = some a) (fingerprint : Option Bytes) :
    ∃ pid, cachedActivity C now cmd fingerprint = do
      let payload : ActivityPayload := ⟨some a, pid, some (Nat.repr cmd.pid)⟩
      let json ← C.payloadJson payload
      let msgpack ← C.payloadMsgpack payload
      return ⟨json, msgpack, false, fingerprint.getD [], none, cmd.pid⟩ := by
  rw [serialized_eq, Option.map_eq_some_iff] at h
  obtain ⟨b, hb, rfl⟩ := h
  obtain ⟨args, hargs, hact⟩ := Option.bind_eq_some_iff.mp hb
  exact ⟨args.pid, by simp [cachedActivity, ActivityCmd.fix, ActivityCmd.mapActivity, ActivityCmd.pid, hargs, hact]⟩

theorem echoed_eq (now : Nat) (cmd : ActivityCmd) : echoed (cmd.fix now) =
    cmd.activity.map fun a => { a.fix now with applicationId := none } := by
  simp [echoed, setActivityResponse, ActivityCmd.fix, Function.comp_def]

theorem fix_cmd_twice_iff (h : t₁ ≤ t₃) (cmd : ActivityCmd) :
    (cmd.fix t₁).fix t₃ = cmd.fix t₁ ↔ ∀ a ∈ cmd.activity, a.Settled t₁ t₃ := by
  constructor
  · intro heq a ha
    have hact := congrArg ActivityCmd.activity heq
    simp only [ActivityCmd.fix, ActivityCmd.mapActivity_activity] at hact
    rw [ha] at hact
    exact (Activity.fix_twice_iff h).mp (Option.some.inj hact)
  · intro hs
    cases hargs : cmd.args with
    | none => simp [ActivityCmd.fix, ActivityCmd.mapActivity, hargs]
    | some args =>
        cases hact : args.activity with
        | none => simp [ActivityCmd.fix, ActivityCmd.mapActivity, hargs, hact]
        | some a =>
            have ha := (Activity.fix_twice_iff h).mpr (hs a (by simp [ActivityCmd.activity, hargs, hact]))
            simp [ActivityCmd.fix, ActivityCmd.mapActivity, hargs, hact, ha]

theorem fingerprinted_sent (C : Codec) (cmd : ActivityCmd) :
    fingerprinted C t₂ (setActivityResponse (cmd.fix t₁)).2 =
      cmd.activity.map fun a => { (a.fix t₁).fix t₂ with applicationId := cmd.applicationId } := by
  have hsent : (setActivityResponse (cmd.fix t₁)).2.activity = _ := echoed_eq t₁ cmd
  rw [fingerprinted, activityFingerprint_activity, hsent, Option.map_map]
  congr 1
  funext a
  rw [Function.comp_apply, Activity.fix_withId]
  rfl

theorem serialized_kept (C : Codec) (cmd : ActivityCmd) :
    serialized t₃ (activityFingerprint C t₂ (setActivityResponse (cmd.fix t₁)).2).2 =
      cmd.activity.map fun a => { ((a.fix t₁).fix t₂).fix t₃ with applicationId := cmd.applicationId } := by
  have hkept : (activityFingerprint C t₂ (setActivityResponse (cmd.fix t₁)).2).2.activity = _ :=
    fingerprinted_sent C cmd
  rw [serialized_eq, hkept, Option.map_map]
  congr 1
  funext a
  rw [Function.comp_apply, Activity.fix_withId]
  rfl

theorem forwarded_looks (C : Codec) (h₁₂ : t₁ ≤ t₂) (h₂₃ : t₂ ≤ t₃) {cmd : ActivityCmd}
    (hs : ∀ a ∈ cmd.activity, a.Settled t₁ t₃) :
    let sent := (setActivityResponse (cmd.fix t₁)).2
    let kept := (activityFingerprint C t₂ sent).2
    (fingerprinted C t₂ sent).map Activity.look = (echoed (cmd.fix t₁)).map Activity.look ∧
      (serialized t₃ kept).map Activity.look = (echoed (cmd.fix t₁)).map Activity.look := by
  intro sent kept
  rw [fingerprinted_sent, serialized_kept, echoed_eq]
  cases ha : cmd.activity with
  | none => exact ⟨rfl, rfl⟩
  | some a =>
      have h₂ := (Activity.fix_twice_iff h₁₂).mpr ((hs a ha).earlier h₂₃)
      have h₃ := (Activity.fix_twice_iff (Nat.le_trans h₁₂ h₂₃)).mpr (hs a ha)
      simp only [Option.map_some, h₂, h₃]
      exact ⟨rfl, rfl⟩

/-- Fixing again changes nothing, and the game, the flood guard and the cache see
one set of timestamps, buttons and flags, exactly when the activity is settled. -/
theorem fix_once_iff_settled (C : Codec) (h₁₂ : t₁ ≤ t₂) (h₂₃ : t₂ ≤ t₃) (cmd : ActivityCmd) :
    ((cmd.fix t₁).fix t₃ = cmd.fix t₁ ∧
      let sent := (setActivityResponse (cmd.fix t₁)).2
      let kept := (activityFingerprint C t₂ sent).2
      (fingerprinted C t₂ sent).map Activity.look = (echoed (cmd.fix t₁)).map Activity.look ∧
        (serialized t₃ kept).map Activity.look = (echoed (cmd.fix t₁)).map Activity.look) ↔
      ∀ a ∈ cmd.activity, a.Settled t₁ t₃ := by
  have htwice := fix_cmd_twice_iff (Nat.le_trans h₁₂ h₂₃) cmd
  constructor
  · rintro ⟨heq, -⟩
    exact htwice.mp heq
  · intro hs
    exact ⟨htwice.mpr hs, forwarded_looks C h₁₂ h₂₃ hs⟩

def startingAt (v : Int) : ActivityCmd :=
  { cmd := "SET_ACTIVITY"
    args := some { pid := some 7, activity := some { timestamps := some { start := some v } } } }

theorem fix_once_recent_start :
    (∀ a ∈ (startingAt 1700000000).activity, a.Settled 1700000100 1700000200) ∧
      ((startingAt 1700000000).fix 1700000100).fix 1700000200 = (startingAt 1700000000).fix 1700000100 := by
  have hs : ∀ a ∈ (startingAt 1700000000).activity, a.Settled 1700000100 1700000200 := by
    rintro a ⟨⟩
    simp [Activity.Settled, KeepsUnit, millisThreshold]
  have h := (fix_once_iff_settled Serde.codec (show 1700000100 ≤ 1700000150 by decide)
    (show 1700000150 ≤ 1700000200 by decide) (startingAt 1700000000)).mpr hs
  exact ⟨hs, h.1⟩

/-- A start a few seconds after the epoch is scaled to milliseconds that still
look like seconds, so every further pass scales it again. -/
theorem fix_scales_early_start_again :
    let cmd := startingAt 5
    let sent := (setActivityResponse (cmd.fix 1700000100)).2
    (cmd.fix 1700000100).fix 1700000100 ≠ cmd.fix 1700000100 ∧
      (echoed (cmd.fix 1700000100)).map Activity.timestamps = some (some { start := some 5000 }) ∧
      (fingerprinted Serde.codec 1700000100 sent).map Activity.timestamps =
        some (some { start := some 5000000 }) := by
  refine ⟨?_, by decide +kernel, by decide +kernel⟩
  intro h
  have hstart := congrArg (fun cmd => cmd.activity.map Activity.timestamps) h
  revert hstart
  decide +kernel

end Fixing

inductive Step
  | key (k : String)
  | index (i : Nat)
  deriving DecidableEq, Repr

namespace Value

def child : Step → Value → Option Value
  | .key k, v => v.get k
  | .index i, .array items => items[i]?
  | .index _, _ => none

def follow : List Step → Value → Option Value
  | [], v => some v
  | step :: path, v => (v.child step).bind (follow path)

variable {key : String} {v w : Value} {members : List (String × Value)}

theorem occurrences_append (key : String) (xs ys : List (String × Value)) :
    occurrences key (xs ++ ys) = occurrences key xs ++ occurrences key ys := by
  rw [occurrences, List.filter_append, List.map_append]
  rfl

theorem occurrences_eq_nil (h : ∀ m ∈ members, m.1 ≠ key) : occurrences key members = [] := by
  refine List.eq_nil_iff_forall_not_mem.mpr fun u hu => ?_
  exact h (key, u) (mem_occurrences.mp hu) rfl

theorem mem_of_get_loaded (h : (object members).loaded.get key = some v) :
    ∃ w, (key, w) ∈ members ∧ v = w.loaded := by
  rw [get_loaded] at h
  obtain ⟨w, hw, rfl⟩ := Option.map_eq_some_iff.mp h
  exact ⟨w, mem_occurrences.mp (List.mem_of_getLast? hw), rfl⟩

theorem follow_member {path : List Step} (h : occurrences key members = [w]) :
    (object members).loaded.follow (.key key :: path) = w.loaded.follow path := by
  rw [follow, child, get_loaded, h]
  rfl

theorem get_loaded_withMember {k : String} (h : k ≠ key) :
    (v.withMember k w).loaded.get key = v.loaded.get key := by
  cases v with
  | object members =>
      have hnil : occurrences key [(k, w)] = [] := occurrences_eq_nil (by simpa using h)
      rw [withMember, get_loaded, get_loaded, occurrences_append, hnil, List.append_nil]
  | null | bool _ | number _ | string _ | array _ => rfl

end Value

namespace Serde

variable {fields : List (String × Option Value)} {key : String} {v : Value}

theorem mem_record : (key, v) ∈ fields.filterMap (fun f => f.2.map fun v => (f.1, v)) ↔ (key, some v) ∈ fields := by
  simp only [List.mem_filterMap, Option.map_eq_some_iff, Prod.mk.injEq]
  constructor
  · rintro ⟨⟨k, x⟩, hmem, w, hw, rfl, rfl⟩
    simp only at hw
    exact hw ▸ hmem
  · intro hmem
    exact ⟨(key, some v), hmem, v, rfl, rfl, rfl⟩

theorem key_of_record (h : (record fields).loaded.get key = some v) : key ∈ fields.map Prod.fst := by
  obtain ⟨w, hw, -⟩ := mem_of_get_loaded h
  exact List.mem_map.mpr ⟨(key, some w), mem_record.mp hw, rfl⟩

end Serde

namespace Activity

/-- The fields that are structs of their own, with the keys of those. -/
def nested : List (String × List String) :=
  [("timestamps", Timestamps.keys), ("emoji", Emoji.keys), ("party", Party.keys), ("assets", Assets.keys),
    ("secrets", Secrets.keys), ("metadata", Metadata.keys)]

/-- A path that no field models leaves the fields of the activity, or those of a
struct in it. -/
def unmodelled : List Step → Bool
  | .key k :: .key l :: _ => k ∉ keys || (nested.lookup k).any (l ∉ ·)
  | .key k :: _ => k ∉ keys
  | _ => false

/-- The structs inside an activity have only keys that their own fields model. -/
def NestedModelled (text : Value) : Prop :=
  ∀ n ∈ nested, ∀ v k w, text.loaded.get n.1 = some v → v.get k = some w → k ∈ n.2

variable {a : Activity}

theorem nested_spec {n : String × List String} (h : n ∈ nested) :
    nested.lookup n.1 = some n.2 ∧ n.1 ∈ keys ∧ "application_id" ≠ n.1 := by
  simp only [nested, List.mem_cons, List.not_mem_nil, or_false] at h
  rcases h with rfl | rfl | rfl | rfl | rfl | rfl
  all_goals exact ⟨rfl, by decide, by decide⟩

theorem NestedModelled.top {value v : Value} {path : List Step} (hnested : NestedModelled value)
    (hpath : unmodelled path = true) (hv : value.loaded.follow path = some v) :
    ∃ key rest, path = .key key :: rest ∧ key ∉ keys := by
  match path with
  | [] | .index _ :: _ => cases hpath
  | [.key k] | .key k :: .index _ :: _ => exact ⟨k, _, rfl, of_decide_eq_true hpath⟩
  | .key k :: .key l :: rest =>
      rw [unmodelled, Bool.or_eq_true] at hpath
      rcases hpath with hk | hl
      · exact ⟨k, _, rfl, of_decide_eq_true hk⟩
      · cases hks : nested.lookup k with
        | none =>
            rw [hks] at hl
            cases hl
        | some ks =>
            rw [hks] at hl
            obtain ⟨u, hu, hv⟩ := Option.bind_eq_some_iff.mp hv
            obtain ⟨w, hw, -⟩ := Option.bind_eq_some_iff.mp hv
            exact absurd (hnested (k, ks) (mem_of_lookup hks) u l w hu hw) (of_decide_eq_true hl)

theorem activityValue_fields (a : Activity) : ∃ fields : List (String × Option Value),
    activityValue a = record (fields ++ a.extra.map fun m => (m.1, some m.2)) ∧ fields.map Prod.fst = keys ∧
      ∀ n ∈ nested, ∀ w, (n.1, some w) ∈ fields → ∀ k u, w.loaded.get k = some u → k ∈ n.2 := by
  refine ⟨_, by rw [activityValue], rfl, ?_⟩
  intro n hn w hmem k u hget
  simp only [nested, List.mem_cons, List.not_mem_nil, or_false] at hn
  rcases hn with rfl | rfl | rfl | rfl | rfl | rfl
  all_goals
    simp only [List.mem_cons, Prod.mk.injEq, List.not_mem_nil, String.reduceEq, false_and, true_and, or_false,
      false_or] at hmem
    obtain ⟨_, -, rfl⟩ := Option.map_eq_some_iff.mp hmem.symm
    exact key_of_record hget

theorem get_activityValue_unread {key : String} (hsorted : Sorted a.extra) (hordered : OrderedMembers a.extra)
    (hkey : key ∉ keys) : (activityValue a).loaded.get key = a.extra.lookup key := by
  obtain ⟨fields, hvalue, hkeys, -⟩ := activityValue_fields a
  have hfields : occurrences key (fields.filterMap fun f => f.2.map fun v => (f.1, v)) = [] := by
    refine occurrences_eq_nil ?_
    rintro ⟨k, w⟩ hm rfl
    exact hkey (hkeys ▸ List.mem_map.mpr ⟨(k, some w), mem_record.mp hm, rfl⟩)
  have hextra : (a.extra.map fun m => (m.1, some m.2)).filterMap (fun f => f.2.map fun v => (f.1, v)) = a.extra := by
    rw [List.filterMap_map]
    exact List.filterMap_some
  rw [hvalue, record, List.filterMap_append, hextra, get_loaded, occurrences_append, hfields, List.nil_append,
    occurrences_of_sorted hsorted]
  cases hlookup : a.extra.lookup key with
  | none => rfl
  | some w =>
      have hw : w.Ordered := orderedMembers_iff.mp hordered (key, w) (mem_of_lookup hlookup)
      exact congrArg some (loaded_of_ordered w hw)

theorem get_activityValue_nested {n : String × List String} (hn : n ∈ nested) (hextra : ∀ m ∈ a.extra, m.1 ∉ keys)
    {v w : Value} {k : String} (hv : (activityValue a).loaded.get n.1 = some v) (hw : v.get k = some w) :
    k ∈ n.2 := by
  obtain ⟨fields, hvalue, -, hnested⟩ := activityValue_fields a
  obtain ⟨-, hmodelled, -⟩ := nested_spec hn
  rw [hvalue] at hv
  obtain ⟨u, hu, rfl⟩ := mem_of_get_loaded hv
  rcases List.mem_append.mp (mem_record.mp hu) with hfield | hmem
  · exact hnested n hn u hfield k w hw
  · obtain ⟨m, hm, heq⟩ := List.mem_map.mp hmem
    have hkey : m.1 = n.1 := (Prod.mk.inj heq).1
    exact absurd (hkey ▸ hmodelled) (hextra m hm)

end Activity

end RichPresence
