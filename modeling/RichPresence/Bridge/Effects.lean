import RichPresence.Bridge.ProcPump

namespace RichPresence

open Lib

theorem lookup_evictOldest {w : Walk} {cache : ReplayCache} {k : SocketId} {v : CachedActivity × UInt64}
    (h : (evictOldest w cache).lookup k = some v) : cache.lookup k = some v := by
  rw [evictOldest] at h
  split at h
  next key _ =>
    rw [Table.lookup_erase_eq] at h
    split at h
    next => cases h
    next => exact h
  next => exact h

theorem lookup_pruneCache {w : Walk} {cache : ReplayCache} {k : SocketId} {v : CachedActivity × UInt64}
    (h : (pruneCache w cache).lookup k = some v) : cache.lookup k = some v := by
  rw [pruneCache] at h
  generalize Table.size cache - maxCachedActivities = n at h
  induction n generalizing cache with
  | zero => exact h
  | succ n ih => exact lookup_evictOldest (ih h)

theorem pruneCache_of_le {w : Walk} {cache : ReplayCache} (h : Table.size cache ≤ maxCachedActivities) :
    pruneCache w cache = cache := by
  rw [pruneCache, Nat.sub_eq_zero_of_le h, Function.iterate_zero, id]

/-- A card the scanner published; every card of an SDK client says `sdk`. -/
def CachedActivity.isGeneric (e : CachedActivity) : Bool := e.provenance.any fun p => p.source != "sdk"

def Shared.showsGeneric (s : Shared) (app : AppId) : Bool :=
  (s.cache.lookup (SocketId.ofApp app)).any fun e => e.1.isGeneric

theorem showsGeneric_iff {s : Shared} {app : AppId} :
    s.showsGeneric app = true ↔
      ∃ v, s.cache.lookup (SocketId.ofApp app) = some v ∧ v.1.isGeneric = true := by
  rw [Shared.showsGeneric]
  cases s.cache.lookup (SocketId.ofApp app) <;> simp

theorem cacheEntryPid_ofPid {e : CachedActivity} {p pid : Nat} (he : e.pid = p)
    (h : cacheEntryPid (SocketId.ofPid p) e = some pid) : pid = p ∧ p ≠ 0 := by
  rw [cacheEntryPid] at h
  rw [he] at h
  by_cases hp : p = 0
  · subst hp
    rw [parseU64_ofPid 0 (by decide)] at h
    cases h
  · rw [if_pos hp] at h
    exact ⟨(Option.some.inj h).symm, hp⟩

namespace Shared

variable (env : Env) (payload : CachedActivity) (socketId : SocketId) (s : Shared)

@[simp] theorem updateCache_handoff : (s.updateCache env payload socketId).handoff = s.handoff := by
  rw [updateCache]
  split <;> rfl

@[simp] theorem updateCache_lastProcess : (s.updateCache env payload socketId).lastProcess = s.lastProcess := by
  rw [updateCache]
  split <;> rfl

@[simp] theorem updateCache_recent : (s.updateCache env payload socketId).recent = s.recent := by
  rw [updateCache]
  split <;> rfl

@[simp] theorem updateCache_consumers : (s.updateCache env payload socketId).consumers = s.consumers := by
  rw [updateCache]
  split <;> rfl

theorem updateCache_clear (h : payload.isClear = true) :
    (s.updateCache env payload socketId).cache = s.cache.erase socketId := by
  rw [updateCache, if_pos h]

theorem updateCache_card (h : payload.isClear = false) :
    (s.updateCache env payload socketId).cache =
      pruneCache env.walk (s.cache.insert socketId (payload, s.activitySeq + 1)) := by
  rw [updateCache, if_neg (by simp [h])]

end Shared

section Broadcast

variable (env : Env) (payload : CachedActivity) (socketId : SocketId) (s : Shared)

@[simp] theorem broadcastActivity_handoff :
    ((broadcastActivity env payload socketId).exec s).handoff = s.handoff := by
  simp [broadcastActivity, Shared.setDirty, Shared.sendToAll]

@[simp] theorem broadcastActivity_lastProcess :
    ((broadcastActivity env payload socketId).exec s).lastProcess = s.lastProcess := by
  simp [broadcastActivity, Shared.setDirty, Shared.sendToAll]

@[simp] theorem broadcastActivity_recent :
    ((broadcastActivity env payload socketId).exec s).recent = s.recent := by
  simp [broadcastActivity, Shared.setDirty, Shared.sendToAll]

@[simp] theorem broadcastActivity_cache :
    ((broadcastActivity env payload socketId).exec s).cache =
      (s.updateCache env payload socketId).cache := by
  simp [broadcastActivity, Shared.setDirty, Shared.sendToAll]

end Broadcast

theorem broadcastActivity_cache_sub {env : Env} {payload : CachedActivity} {socketId k : SocketId} {s : Shared}
    {v : CachedActivity × UInt64}
    (h : ((broadcastActivity env payload socketId).exec s).cache.lookup k = some v) :
    (k = socketId ∧ v.1 = payload ∧ payload.isClear = false) ∨ s.cache.lookup k = some v := by
  rw [broadcastActivity_cache] at h
  cases hc : payload.isClear with
  | true =>
      rw [Shared.updateCache_clear env payload socketId s hc, Table.lookup_erase_eq] at h
      split at h
      next => cases h
      next => exact .inr h
  | false =>
      rw [Shared.updateCache_card env payload socketId s hc] at h
      have hi := lookup_pruneCache h
      rw [Table.lookup_insert_eq] at hi
      split at hi
      next hk =>
        cases hi
        exact .inl ⟨hk, rfl, rfl⟩
      next => exact .inr hi

section Sources

variable (C : Codec) (env : Env)

@[simp] theorem broadcastClear_handoff (pid : Nat) (socketId : SocketId) (s : Shared) :
    ((broadcastClear C env pid socketId).exec s).handoff = s.handoff := by
  rw [broadcastClear]
  split <;> simp [Shared.countDropped]

@[simp] theorem broadcastClear_lastProcess (pid : Nat) (socketId : SocketId) (s : Shared) :
    ((broadcastClear C env pid socketId).exec s).lastProcess = s.lastProcess := by
  rw [broadcastClear]
  split <;> simp [Shared.countDropped]

@[simp] theorem broadcastClear_recent (pid : Nat) (socketId : SocketId) (s : Shared) :
    ((broadcastClear C env pid socketId).exec s).recent = s.recent := by
  rw [broadcastClear]
  split <;> simp [Shared.countDropped]

@[simp] theorem resumeGeneric_handoff (game : ScannedGame) (s : Shared) :
    ((resumeGeneric C env game).exec s).handoff = s.handoff := by
  rw [resumeGeneric]
  rw [Prog.exec_bind]
  split <;> simp [Shared.countDropped]

@[simp] theorem resumeGeneric_lastProcess (game : ScannedGame) (s : Shared) :
    ((resumeGeneric C env game).exec s).lastProcess =
      trackProcessPublication env game.id game.pid s.lastProcess := by
  rw [resumeGeneric]
  rw [Prog.exec_bind]
  split <;> simp [Shared.countDropped]

end Sources

theorem broadcastClear_cache_sub {C : Codec} {env : Env} {pid : Nat} {socketId k : SocketId} {s : Shared}
    {v : CachedActivity × UInt64}
    (h : ((broadcastClear C env pid socketId).exec s).cache.lookup k = some v) : s.cache.lookup k = some v := by
  rw [broadcastClear] at h
  split at h
  next payload hp =>
    rcases broadcastActivity_cache_sub h with ⟨_, _, hc⟩ | hs
    · rw [(emptyCached_spec hp).1] at hc
      cases hc
    · exact hs
  next => exact h

theorem resumeGeneric_cache_sub {C : Codec} {env : Env} {game : ScannedGame} {k : SocketId} {s : Shared}
    {v : CachedActivity × UInt64}
    (h : ((resumeGeneric C env game).exec s).cache.lookup k = some v) :
    (k = SocketId.ofApp game.id ∧ genericPayload C env game = some v.1) ∨ s.cache.lookup k = some v := by
  rw [resumeGeneric] at h
  rw [Prog.exec_bind] at h
  split at h
  next payload hp =>
    rcases broadcastActivity_cache_sub h with ⟨hk, hv, _⟩ | hs
    · exact .inl ⟨hk, by rw [hv, hp]⟩
    · exact .inr hs
  next => exact .inr h

theorem asStr_ne_sdk (source : DetectSource) : (source.asStr != "sdk") = true := by
  cases source <;> decide

theorem genericPayload_spec {C : Codec} {env : Env} {game : ScannedGame} {e : CachedActivity}
    (h : genericPayload C env game = some e) :
    e.isClear = false ∧ e.isGeneric = true ∧ e.pid = game.pid := by
  simp only [genericPayload, Option.bind_eq_bind, Option.bind_eq_some_iff, Option.pure_def,
    Option.some.injEq] at h
  obtain ⟨_, _, _, _, _, _, rfl⟩ := h
  exact ⟨rfl, asStr_ne_sdk game.source, rfl⟩

theorem genericPayload_isSome {C : Codec} (hC : C.Encodes) (env : Env) (game : ScannedGame) :
    ∃ e, genericPayload C env game = some e := by
  obtain ⟨a, ha⟩ := Option.isSome_iff_exists.mp (hC.processActivity (processActivity game))
  obtain ⟨j, hj⟩ := Option.isSome_iff_exists.mp
    (hC.processJson ⟨processActivity game, game.pid, SocketId.ofApp game.id⟩)
  obtain ⟨m, hm⟩ := Option.isSome_iff_exists.mp
    (hC.processMsgpack ⟨processActivity game, game.pid, SocketId.ofApp game.id⟩)
  exact ⟨⟨j, m, false, a, some ⟨game.source.asStr, game.processStartMs.map (env.nowMs - ·)⟩, game.pid⟩,
    by simp [genericPayload, ha, hj, hm]⟩

def Releases (cmd : ActivityCmd) (app : AppId) : Prop := cmd.applicationId = none ∨ cmd.applicationId = some app

instance (cmd : ActivityCmd) (app : AppId) : Decidable (Releases cmd app) :=
  inferInstanceAs (Decidable (_ ∨ _))

theorem releaseSlots_lastScans (env : Env) (cmd : ActivityCmd) (h : HandoffState) :
    (releaseSlots env cmd h).2.lastScans = h.lastScans := by
  simp only [releaseSlots, HandoffState.noteClear, HandoffState.noteClearPid]
  cases cmd.applicationId with
  | none => rfl
  | some app => by_cases ho : h.liveIpc.lookup app = some cmd.pid <;> simp [ho]

theorem releaseSlots_liveIpc (env : Env) (cmd : ActivityCmd) (h : HandoffState) (a : AppId) :
    (releaseSlots env cmd h).2.liveIpc.lookup a =
      if Releases cmd a ∧ h.liveIpc.lookup a = some cmd.pid then none else h.liveIpc.lookup a := by
  have hr : Releases cmd a ↔ cmd.applicationId = none ∨ cmd.applicationId = some a := Iff.rfl
  simp only [releaseSlots, HandoffState.noteClear, HandoffState.noteClearPid]
  cases happ : cmd.applicationId with
  | none =>
      simp only [Table.lookup_retain, hr, happ, true_or, true_and]
      cases hl : h.liveIpc.lookup a with
      | none => simp
      | some owner => by_cases ho : owner = cmd.pid <;> simp [ho]
  | some app =>
      by_cases ho : h.liveIpc.lookup app = some cmd.pid
      · simp only [ho, if_true, Table.lookup_erase_eq, hr, happ]
        by_cases ha : a = app
        · subst ha
          simp [ho]
        · simp [ha, Ne.symm ha]
      · simp only [ho, if_false, hr, happ]
        by_cases ha : app = a
        · subst ha
          simp [ho]
        · simp [ha]

theorem mem_releaseSlots {env : Env} {cmd : ActivityCmd} {h : HandoffState} {g : ScannedGame} :
    g ∈ (releaseSlots env cmd h).1 ↔
      Releases cmd g.id ∧ h.liveIpc.lookup g.id = some cmd.pid ∧ h.lastScans.lookup g.id = some g := by
  simp only [releaseSlots, HandoffState.noteClear, HandoffState.noteClearPid, HandoffState.resumeFor, Releases]
  cases happ : cmd.applicationId with
  | none =>
      simp only [List.mem_filterMap, env.walk.mem_order, Table.mem_keys_iff_lookup, Table.lookup_retain,
        Option.filter_eq_some_iff, beq_iff_eq, true_or, true_and]
      constructor
      · rintro ⟨a, ⟨owner, ho, rfl⟩, hg⟩
        have hid := h.keyed a g hg
        subst hid
        exact ⟨ho, hg⟩
      · rintro ⟨ho, hg⟩
        exact ⟨g.id, ⟨cmd.pid, ho, rfl⟩, hg⟩
  | some app =>
      by_cases ho : h.liveIpc.lookup app = some cmd.pid
      · simp only [ho, if_true, Option.mem_toList]
        constructor
        · intro hg
          have hid := h.keyed app g hg
          subst hid
          exact ⟨.inr rfl, ho, hg⟩
        · rintro ⟨ha | ha, _, hg⟩
          · cases ha
          · cases ha
            exact hg
      · simp only [ho, if_false, List.not_mem_nil, false_iff]
        rintro ⟨ha | ha, ho', _⟩
        · cases ha
        · cases ha
          exact ho ho'

end RichPresence
