import RichPresence.Bridge.Effects

namespace RichPresence

open Lib

section

variable (C : Codec) (env : Env) (cmd : ActivityCmd) (s : Shared)

def fingerprint : Option Bytes := (activityFingerprint C env.fingerprintClock cmd).1

def fixed : ActivityCmd := (activityFingerprint C env.fingerprintClock cmd).2

theorem activityFingerprint_eq :
    activityFingerprint C env.fingerprintClock cmd = (fingerprint C env cmd, fixed C env cmd) := rfl

def guardAnswer : Bool × RecentActivities :=
  s.recent.shouldDrop env.walk cmd.applicationId cmd.pid (fingerprint C env cmd) env.instant

def dropped : Bool := (guardAnswer C env cmd s).1

def recorded : Shared := { s with recent := (guardAnswer C env cmd s).2 }

def claimed : Shared :=
  match cmd.applicationId with
  | some app => { s with handoff := s.handoff.notePublish env app cmd.pid }
  | none => s

def released : Shared := { s with handoff := (releaseSlots env cmd s.handoff).2 }

def resumable : List ScannedGame :=
  (releaseSlots env cmd s.handoff).1.filter fun game => env.isProcessAlive game.pid

def sdkCard : Option CachedActivity :=
  (cachedActivity C env.buildClock (fixed C env cmd) (fingerprint C env cmd)).map
    fun payload => { payload with provenance := some ⟨"sdk", none⟩ }

/-- The end of a command: fan out when the cached card differed. -/
def announce (changed : Bool) : Shared :=
  if changed then
    match sdkCard C env cmd with
    | some payload => (broadcastActivity env payload (SocketId.ofPid cmd.pid)).exec s
    | none => s
  else s

end

variable {C : Codec} {env : Env} {cmd : ActivityCmd} {s : Shared}

theorem fixed_argsPid : (fixed C env cmd).args.bind (·.pid) = cmd.args.bind (·.pid) := by
  cases h : cmd.args <;> simp [fixed, activityFingerprint, ActivityCmd.fix, ActivityCmd.mapActivity, h]

theorem fixed_pid : (fixed C env cmd).pid = cmd.pid := activityFingerprint_pid C env.fingerprintClock cmd

theorem fixed_args_isNone : (fixed C env cmd).args.isNone = cmd.args.isNone :=
  activityFingerprint_args_isNone C env.fingerprintClock cmd

theorem fixed_activity : (fixed C env cmd).activity =
    cmd.activity.map fun a => { a.fix env.fingerprintClock with applicationId := cmd.applicationId } :=
  activityFingerprint_activity C env.fingerprintClock cmd

theorem isGenuineClear_fixed : isGenuineClear (fixed C env cmd) = isGenuineClear cmd := by
  simp only [isGenuineClear]
  rw [fixed_argsPid, fixed_activity, Option.isNone_map]

theorem releaseSlots_fixed (h : HandoffState) :
    releaseSlots env (fixed C env cmd) h = releaseSlots env cmd h := by
  rw [releaseSlots]
  rw [fixed_pid]
  rfl

theorem dropped_publish (h : dropped C env cmd s = true) :
    cmd.activity.isSome ∧ recorded C env cmd s = s := by
  obtain ⟨bytes, _, hp, _, _, hr⟩ := RecentActivities.shouldDrop_repeats h
  constructor
  · by_contra hn
    have hf : fingerprint C env cmd = none := activityFingerprint_none (by simpa using hn)
    rw [hf] at hp
    cases hp
  · rw [recorded, guardAnswer]
    rw [hr]

theorem run_floodDropped :
    (floodDropped env (fixed C env cmd) (fingerprint C env cmd)).run s =
      (dropped C env cmd s, recorded C env cmd s) := by
  rw [floodDropped]
  rw [fixed_pid]
  rfl

theorem exec_floodDropped :
    (floodDropped env (fixed C env cmd) (fingerprint C env cmd)).exec s = recorded C env cmd s := by
  rw [Prog.exec, run_floodDropped]

theorem handleSetActivity_dropped (h : dropped C env cmd s = true) :
    (handleSetActivity C env cmd).exec s = s := by
  simp only [handleSetActivity, activityFingerprint_eq, Prog.exec_bind, run_floodDropped, exec_floodDropped, h,
    if_true, Prog.exec_pure]
  exact (dropped_publish h).2

theorem dropped_of_clear (h : cmd.activity = none) : dropped C env cmd s = false := by
  rw [dropped, guardAnswer, fingerprint]
  rw [activityFingerprint_none h]
  rfl

theorem handleSetActivity_kept (h : dropped C env cmd s = false) :
    (handleSetActivity C env cmd).exec s =
      if cmd.args.isNone then recorded C env cmd s
      else announce C env cmd
        ((resumeAfterClear C env (fixed C env cmd)).exec
          ((noteSdkPublish env (fixed C env cmd)).exec (recorded C env cmd s)))
        (differs (s.cache.lookup (SocketId.ofPid cmd.pid)) (fingerprint C env cmd)) := by
  simp only [handleSetActivity, activityFingerprint_eq, Prog.exec_bind, run_floodDropped, exec_floodDropped, h,
    Bool.false_eq_true, if_false, fixed_args_isNone, fixed_pid]
  split
  next => rfl
  next =>
    simp only [activityChanged, Prog.exec_bind, Prog.run_reads, Prog.exec_reads, announce, sdkCard]
    change Prog.exec
      (if differs (s.cache.lookup (SocketId.ofPid cmd.pid)) (fingerprint C env cmd) then _ else _) _ = _
    cases differs (s.cache.lookup (SocketId.ofPid cmd.pid)) (fingerprint C env cmd) with
    | false => rfl
    | true => cases cachedActivity C env.buildClock (fixed C env cmd) (fingerprint C env cmd) <;> rfl

theorem noteSdkPublish_fixed (h : cmd.activity.isSome) :
    (noteSdkPublish env (fixed C env cmd)).exec s = claimed env cmd s := by
  obtain ⟨a, ha⟩ := Option.isSome_iff_exists.mp h
  rw [noteSdkPublish, claimed]
  simp only [fixed_activity, ha, Option.map_some, Option.bind_some, fixed_pid]
  cases cmd.applicationId <;> simp

theorem noteSdkPublish_clear (h : cmd.activity = none) :
    (noteSdkPublish env (fixed C env cmd)).exec s = s := by
  simp [noteSdkPublish, fixed_activity, h]

theorem isGenuineClear_iff : isGenuineClear cmd = true ↔ cmd.pid ≠ 0 ∧ cmd.activity = none := by
  rw [isGenuineClear, ActivityCmd.pid]
  cases cmd.args.bind (·.pid) <;> simp

theorem resumeAfterClear_publish (h : isGenuineClear cmd = false) :
    (resumeAfterClear C env (fixed C env cmd)).exec s = s := by
  simp [resumeAfterClear, isGenuineClear_fixed, h]

theorem resumeAfterClear_genuine (h : isGenuineClear cmd = true) :
    (resumeAfterClear C env (fixed C env cmd)).exec s =
      (forM (resumable env cmd s) (resumeGeneric C env)).exec (released env cmd s) := by
  simp only [resumeAfterClear, isGenuineClear_fixed, h, Bool.not_true, Bool.false_eq_true, if_false,
    Prog.exec_bind, Prog.run_locked, Prog.exec_locked, releaseSlots_fixed]
  rfl

theorem handleSetActivity_publish (ha : cmd.activity.isSome) (hd : dropped C env cmd s = false) :
    (handleSetActivity C env cmd).exec s =
      announce C env cmd (claimed env cmd (recorded C env cmd s))
        (differs (s.cache.lookup (SocketId.ofPid cmd.pid)) (fingerprint C env cmd)) := by
  have hargs : cmd.args.isNone = false := by
    cases h : cmd.args with
    | none => simp [ActivityCmd.activity, h] at ha
    | some args => rfl
  have hg : isGenuineClear cmd = false := by
    rw [Bool.eq_false_iff, ne_eq, isGenuineClear_iff]
    rintro ⟨_, hn⟩
    simp [hn] at ha
  rw [handleSetActivity_kept hd, hargs, if_neg Bool.false_ne_true, noteSdkPublish_fixed ha,
    resumeAfterClear_publish hg]

theorem handleSetActivity_clear (ha : cmd.activity = none) (hargs : cmd.args.isSome) :
    (handleSetActivity C env cmd).exec s =
      announce C env cmd ((resumeAfterClear C env (fixed C env cmd)).exec (recorded C env cmd s))
        (differs (s.cache.lookup (SocketId.ofPid cmd.pid)) none) := by
  have hfp : fingerprint C env cmd = none := activityFingerprint_none ha
  rw [handleSetActivity_kept (dropped_of_clear ha), if_neg (by simp [Option.isSome_iff_ne_none.mp hargs]),
    noteSdkPublish_clear ha, hfp]

theorem handleSetActivity_noArgs (hargs : cmd.args = none) :
    (handleSetActivity C env cmd).exec s = recorded C env cmd s := by
  have ha : cmd.activity = none := by simp [ActivityCmd.activity, hargs]
  rw [handleSetActivity_kept (dropped_of_clear ha), hargs]
  rfl

@[simp] theorem announce_handoff (changed : Bool) : (announce C env cmd s changed).handoff = s.handoff := by
  rw [announce]
  split
  next => split <;> simp
  next => rfl

@[simp] theorem announce_lastProcess (changed : Bool) :
    (announce C env cmd s changed).lastProcess = s.lastProcess := by
  rw [announce]
  split
  next => split <;> simp
  next => rfl

theorem announce_cache_sub {changed : Bool} {k : SocketId} {v : CachedActivity × UInt64}
    (h : (announce C env cmd s changed).cache.lookup k = some v) :
    (k = SocketId.ofPid cmd.pid ∧ sdkCard C env cmd = some v.1 ∧ v.1.isClear = false) ∨
      s.cache.lookup k = some v := by
  rw [announce] at h
  split at h
  next =>
    split at h
    next e he =>
      rcases broadcastActivity_cache_sub h with ⟨hk, hv, hc⟩ | hs
      · exact .inl ⟨hk, by rw [hv, he], hv ▸ hc⟩
      · exact .inr hs
    next => exact .inr h
  next => exact .inr h

structure IsSdkCard (C : Codec) (env : Env) (cmd : ActivityCmd) (e : CachedActivity) : Prop where
  provenance : e.provenance = some ⟨"sdk", none⟩
  pid : e.pid = cmd.pid
  isClear : e.isClear = cmd.activity.isNone
  activityJson : cmd.activity.isSome → e.activityJson = (fingerprint C env cmd).getD []

theorem IsSdkCard.not_generic {e : CachedActivity} (h : IsSdkCard C env cmd e) : e.isGeneric = false := by
  rw [CachedActivity.isGeneric, h.provenance]
  rfl

theorem sdkCard_spec {e : CachedActivity} (h : sdkCard C env cmd = some e) : IsSdkCard C env cmd e := by
  obtain ⟨e', he, rfl⟩ := Option.map_eq_some_iff.mp h
  rw [cachedActivity] at he
  simp only [Option.bind_eq_bind, Option.bind_eq_some_iff] at he
  obtain ⟨args, hargs, he⟩ := he
  have hpid : args.pid.getD 0 = cmd.pid := by
    have hfixed : (fixed C env cmd).pid = cmd.pid := fixed_pid
    rw [← hfixed, ← ActivityCmd.mapActivity_pid (·.fix env.buildClock)]
    change _ = ((ActivityCmd.fix env.buildClock (fixed C env cmd)).args.bind (·.pid)).getD 0
    rw [hargs]
    rfl
  have hact : args.activity.isNone = cmd.activity.isNone := by
    have hm := ActivityCmd.mapActivity_activity (·.fix env.buildClock) (fixed C env cmd)
    change ((ActivityCmd.fix env.buildClock (fixed C env cmd)).args.bind (·.activity)) = _ at hm
    rw [hargs, fixed_activity] at hm
    simp only [Option.bind_some] at hm
    simp [hm]
  cases ha : args.activity with
  | none =>
      rw [ha] at he hact
      obtain ⟨hc, _, hp, _⟩ := emptyCached_spec he
      refine ⟨rfl, by rw [hp, hpid], by rw [hc, ← hact]; rfl, fun hs => ?_⟩
      rw [← Option.not_isNone, ← hact] at hs
      cases hs
  | some activity =>
      rw [ha] at he hact
      simp only [Option.bind_eq_some_iff, Option.pure_def, Option.some.injEq] at he
      obtain ⟨_, _, _, _, rfl⟩ := he
      exact ⟨rfl, hpid, hact, fun _ => rfl⟩

theorem sdkCard_isSome (env : Env) (hC : C.Encodes) (hargs : cmd.args.isSome) : ∃ e, sdkCard C env cmd = some e := by
  have hfixed : (fixed C env cmd).args.isSome := by
    rwa [← Option.not_isNone, fixed_args_isNone, Option.not_isNone]
  obtain ⟨e, he⟩ := cachedActivity_isSome hC env.buildClock (fingerprint C env cmd) hfixed
  exact ⟨_, by rw [sdkCard, he, Option.map_some]⟩

theorem fingerprint_eq : fingerprint C env cmd =
    (cmd.activity.map fun a => { a.fix env.fingerprintClock with applicationId := cmd.applicationId }).bind
      C.activity := by
  rw [← fixed_activity (C := C)]
  rfl

theorem fingerprint_activity {bytes : Bytes} (h : fingerprint C env cmd = some bytes) :
    ∃ activity : Activity, activity.applicationId = cmd.applicationId ∧ C.activity activity = some bytes := by
  rw [fingerprint_eq, Option.bind_eq_some_iff] at h
  obtain ⟨activity, ha, hb⟩ := h
  obtain ⟨a, _, rfl⟩ := Option.map_eq_some_iff.mp ha
  exact ⟨_, rfl, hb⟩

theorem fingerprint_isSome (env : Env) (hC : C.Encodes) (ha : cmd.activity.isSome) :
    ∃ bytes, fingerprint C env cmd = some bytes := by
  obtain ⟨a, ha⟩ := Option.isSome_iff_exists.mp ha
  rw [fingerprint_eq, ha]
  exact Option.isSome_iff_exists.mp (hC.activity _)

theorem args_of_activity (ha : cmd.activity.isSome) : cmd.args.isSome := by
  cases h : cmd.args with
  | none => simp [ActivityCmd.activity, h] at ha
  | some args => rfl

theorem announce_showsGeneric {changed : Bool} {app : AppId}
    (h : (announce C env cmd s changed).showsGeneric app = true) : s.showsGeneric app = true := by
  obtain ⟨v, hv, hg⟩ := showsGeneric_iff.mp h
  rcases announce_cache_sub hv with ⟨_, he, _⟩ | hs
  · rw [(sdkCard_spec he).not_generic] at hg
    cases hg
  · exact showsGeneric_iff.mpr ⟨v, hs, hg⟩

@[simp] theorem claimed_cache : (claimed env cmd s).cache = s.cache := by
  rw [claimed]
  split <;> rfl

@[simp] theorem claimed_consumers : (claimed env cmd s).consumers = s.consumers := by
  rw [claimed]
  cases cmd.applicationId <;> rfl

@[simp] theorem claimed_lastProcess : (claimed env cmd s).lastProcess = s.lastProcess := by
  rw [claimed]
  cases cmd.applicationId <;> rfl

@[simp] theorem claimed_lastScans : (claimed env cmd s).handoff.lastScans = s.handoff.lastScans := by
  rw [claimed]
  cases cmd.applicationId <;> rfl

theorem claimed_owner {app : AppId} {owner : Nat}
    (h : (claimed env cmd s).handoff.liveIpc.lookup app = some owner) :
    (cmd.applicationId = some app ∧ owner = cmd.pid) ∨ s.handoff.liveIpc.lookup app = some owner := by
  rw [claimed] at h
  split at h
  next a ha =>
    rcases Table.lookup_insertBounded h with ⟨rfl, rfl⟩ | h
    · exact .inl ⟨ha, rfl⟩
    · exact .inr h
  next => exact .inr h

theorem released_owner {app : AppId} {owner : Nat}
    (h : (released env cmd s).handoff.liveIpc.lookup app = some owner) :
    s.handoff.liveIpc.lookup app = some owner ∧ ¬(Releases cmd app ∧ owner = cmd.pid) := by
  have hl := releaseSlots_liveIpc env cmd s.handoff app
  change (releaseSlots env cmd s.handoff).2.liveIpc.lookup app = some owner at h
  rw [hl] at h
  split at h
  next => cases h
  next hn => exact ⟨h, fun ⟨hr, ho⟩ => hn ⟨hr, by rw [h, ho]⟩⟩

theorem resumed_handoff (h : isGenuineClear cmd = true) :
    ((resumeAfterClear C env (fixed C env cmd)).exec s).handoff = (released env cmd s).handoff := by
  rw [resumeAfterClear_genuine h]
  exact Prog.exec_forM_induction (fun t : Shared => t.handoff = (released env cmd s).handoff) rfl
    fun _ _ _ ht => by rw [resumeGeneric_handoff, ht]

end RichPresence
