import RichPresence.Bridge.Commands
import RichPresence.Bridge.Scanner

namespace RichPresence

open Lib

def Shared.HasRoom (s : Shared) : Prop :=
  Table.size s.cache < maxCachedActivities ∧ Table.size s.lastProcess < maxHandoffEntries ∧
    Table.size s.handoff.liveIpc < maxHandoffEntries ∧ Table.size s.handoff.lastScans < maxHandoffEntries ∧
    Table.size s.recent.entries < s.recent.cap

instance : DecidablePred Shared.HasRoom := fun _ => inferInstanceAs (Decidable (_ ∧ _))

/-- Every section an input runs starts with room in every table. -/
def StartsWithRoom (C : Codec) (s : Shared) (e : Event) : Prop := (handle C e).Through Shared.HasRoom s

instance (C : Codec) (s : Shared) (e : Event) : Decidable (StartsWithRoom C s e) :=
  inferInstanceAs (Decidable ((handle C e).Through Shared.HasRoom s))

variable {C : Codec} {env : Env} {cmd : ActivityCmd} {s : Shared}

theorem StartsWithRoom.here {e : Event} (h : StartsWithRoom C s e) : s.HasRoom := by
  obtain ⟨env, input⟩ := e
  rcases input with cmd | game | ⟨app, pid⟩ | _ <;>
    simp only [StartsWithRoom, handle, procPump, handleSetActivity, floodDropped, onDetected, onRemoved,
      onCleared, Prog.through_bind, Prog.through_locked, Prog.through_updates] at h <;>
    exact h.1

theorem StartsWithRoom.resumed (h : StartsWithRoom C s ⟨env, .setActivity cmd⟩)
    (hg : isGenuineClear cmd = true) :
    (forM (resumable env cmd (recorded C env cmd s)) (resumeGeneric C env)).Through Shared.HasRoom
      (released env cmd (recorded C env cmd s)) := by
  have ha := (isGenuineClear_iff.mp hg).2
  have hargs : cmd.args.isNone = false := by
    cases hc : cmd.args with
    | none => simp [isGenuineClear, hc] at hg
    | some args => rfl
  have hd : dropped C env cmd s = false := dropped_of_clear ha
  simp only [StartsWithRoom, handle, handleSetActivity, activityFingerprint_eq, Prog.through_bind, run_floodDropped,
    exec_floodDropped, hd, Bool.false_eq_true, if_false, fixed_args_isNone, hargs, activityChanged,
    Prog.exec_reads] at h
  obtain ⟨_, _, _, hres, _⟩ := h
  rw [noteSdkPublish_clear ha] at hres
  simp only [resumeAfterClear, isGenuineClear_fixed, hg, Bool.not_true, Bool.false_eq_true, if_false,
    Prog.through_bind, Prog.run_locked, Prog.exec_locked, releaseSlots_fixed] at hres
  exact hres.2

theorem resumeGeneric_hasRoom {game : ScannedGame} (h : (resumeGeneric C env game).Through Shared.HasRoom s) :
    s.HasRoom := by
  simp only [resumeGeneric, Prog.through_bind, Prog.through_updates] at h
  exact h.1

theorem broadcastActivity_fits {payload : CachedActivity} (env : Env) (socketId k : SocketId)
    (hc : payload.isClear = false)
    (hr : Table.size (s.cache.insert socketId (payload, s.activitySeq + 1)) ≤ maxCachedActivities) :
    ((broadcastActivity env payload socketId).exec s).cache.lookup k =
      if k = socketId then some (payload, s.activitySeq + 1) else s.cache.lookup k := by
  rw [broadcastActivity_cache, Shared.updateCache_card _ _ _ _ hc, pruneCache_of_le hr, Table.lookup_insert_eq]

theorem broadcastActivity_card {payload : CachedActivity} (env : Env) (socketId k : SocketId)
    (hc : payload.isClear = false) (hr : Table.size s.cache < maxCachedActivities) :
    ((broadcastActivity env payload socketId).exec s).cache.lookup k =
      if k = socketId then some (payload, s.activitySeq + 1) else s.cache.lookup k :=
  broadcastActivity_fits env socketId k hc
    ((Table.size_insert_le s.cache socketId (payload, s.activitySeq + 1)).trans hr)

theorem broadcastActivity_clear {payload : CachedActivity} {socketId k : SocketId}
    (hc : payload.isClear = true) :
    ((broadcastActivity env payload socketId).exec s).cache.lookup k =
      if k = socketId then none else s.cache.lookup k := by
  rw [broadcastActivity_cache, Shared.updateCache_clear _ _ _ _ hc, Table.lookup_erase_eq]

theorem broadcastClear_other {pid : Nat} {socketId k : SocketId} (hk : k ≠ socketId) :
    ((broadcastClear C env pid socketId).exec s).cache.lookup k = s.cache.lookup k := by
  rw [broadcastClear]
  split
  next payload hp => rw [broadcastActivity_clear (emptyCached_spec hp).1, if_neg hk]
  next => rfl

theorem broadcastClear_own (hC : C.Encodes) (pid : Nat) (socketId : SocketId) :
    ((broadcastClear C env pid socketId).exec s).cache.lookup socketId = none := by
  obtain ⟨payload, hp⟩ := emptyCached_isSome hC pid socketId
  rw [broadcastClear, hp]
  exact (broadcastActivity_clear (emptyCached_spec hp).1).trans (if_pos rfl)

theorem clears_other {α : Type} (pid : α → Nat) {socketId : α → SocketId} {l : List α} {k : SocketId}
    (hk : ∀ a ∈ l, k ≠ socketId a) :
    ((forM l fun a => broadcastClear C env (pid a) (socketId a)).exec s).cache.lookup k = s.cache.lookup k :=
  Prog.exec_forM_induction (fun t : Shared => t.cache.lookup k = s.cache.lookup k) rfl fun a ha _ ht =>
    (broadcastClear_other (hk a ha)).trans ht

theorem clears_own {α : Type} (hC : C.Encodes) (pid : α → Nat) (socketId : α → SocketId) {l : List α} {a : α}
    (ha : a ∈ l) :
    ((forM l fun a => broadcastClear C env (pid a) (socketId a)).exec s).cache.lookup (socketId a) = none := by
  induction l generalizing s with
  | nil => cases ha
  | cons b l ih =>
      rw [List.forM_cons, Prog.exec_bind]
      by_cases hl : a ∈ l
      · exact ih hl
      · obtain rfl : a = b := by simpa [hl] using ha
        cases hn : ((forM l fun a => broadcastClear C env (pid a) (socketId a)).exec
            ((broadcastClear C env (pid a) (socketId a)).exec s)).cache.lookup (socketId a) with
        | none => rfl
        | some v =>
            have hv := (clears_dimmed pid socketId l _).cache _ v hn
            rw [broadcastClear_own hC] at hv
            cases hv

theorem resumeGeneric_own (hC : C.Encodes) (env : Env) (game : ScannedGame)
    (hr : Table.size s.cache < maxCachedActivities) :
    ∃ v, ((resumeGeneric C env game).exec s).cache.lookup (SocketId.ofApp game.id) = some v ∧
      v.1.isGeneric = true := by
  obtain ⟨payload, hp⟩ := genericPayload_isSome hC env game
  obtain ⟨hc, hg, _⟩ := genericPayload_spec hp
  have hl := broadcastActivity_card env (SocketId.ofApp game.id) (SocketId.ofApp game.id)
    (s := { s with lastProcess := trackProcessPublication env game.id game.pid s.lastProcess }) hc hr
  rw [if_pos rfl] at hl
  refine ⟨(payload, s.activitySeq + 1), ?_, hg⟩
  rw [resumeGeneric, hp, Prog.exec_bind]
  exact hl

theorem resumeGeneric_other {game : ScannedGame} {k : SocketId}
    (hr : Table.size s.cache < maxCachedActivities) (hk : k ≠ SocketId.ofApp game.id) :
    ((resumeGeneric C env game).exec s).cache.lookup k = s.cache.lookup k := by
  rw [resumeGeneric]
  rw [Prog.exec_bind]
  split
  next payload hp =>
    have hl := broadcastActivity_card env (SocketId.ofApp game.id) k
      (s := { s with lastProcess := trackProcessPublication env game.id game.pid s.lastProcess })
      (genericPayload_spec hp).1 hr
    rwa [if_neg hk] at hl
  next => rfl

def CardFits (cmd : ActivityCmd) (s : Shared) : Prop :=
  ∀ v, Table.size (s.cache.insert (SocketId.ofPid cmd.pid) v) ≤ maxCachedActivities

theorem cardFits_of_room (hr : Table.size s.cache < maxCachedActivities) : CardFits cmd s :=
  fun v => (Table.size_insert_le s.cache (SocketId.ofPid cmd.pid) v).trans hr

theorem announce_other {changed : Bool} {k : SocketId} (hr : CardFits cmd s) (hk : k ≠ SocketId.ofPid cmd.pid) :
    (announce C env cmd s changed).cache.lookup k = s.cache.lookup k := by
  rw [announce]
  split
  next =>
    split
    next e he =>
      cases hc : e.isClear with
      | false => rw [broadcastActivity_fits env _ _ hc (hr _), if_neg hk]
      | true => rw [broadcastActivity_clear hc, if_neg hk]
    next => rfl
  next => rfl

theorem announce_clear_other {changed : Bool} {k : SocketId} (ha : cmd.activity = none)
    (hk : k ≠ SocketId.ofPid cmd.pid) :
    (announce C env cmd s changed).cache.lookup k = s.cache.lookup k := by
  rw [announce]
  split
  next =>
    split
    next e he => rw [broadcastActivity_clear (by rw [(sdkCard_spec he).isClear, ha]; rfl), if_neg hk]
    next => rfl
  next => rfl

theorem announce_publish (env : Env) (hC : C.Encodes) (ha : cmd.activity.isSome) (hr : CardFits cmd s) :
    ∃ v, (announce C env cmd s (differs (s.cache.lookup (SocketId.ofPid cmd.pid))
        (fingerprint C env cmd))).cache.lookup (SocketId.ofPid cmd.pid) = some v ∧
      v.1.isClear = false ∧ fingerprint C env cmd = some v.1.activityJson := by
  obtain ⟨bytes, hfp⟩ := fingerprint_isSome env hC ha
  obtain ⟨e, he⟩ := sdkCard_isSome env hC (args_of_activity ha)
  have hs := sdkCard_spec he
  have hc : e.isClear = false := by
    rw [hs.isClear, ← Option.not_isSome, ha]
    rfl
  have hj : e.activityJson = bytes := by
    rw [hs.activityJson ha, hfp]
    rfl
  cases hd : differs (s.cache.lookup (SocketId.ofPid cmd.pid)) (fingerprint C env cmd) with
  | true =>
      rw [announce, if_pos rfl, he]
      exact ⟨_, (broadcastActivity_fits env _ _ hc (hr _)).trans (if_pos rfl), hc, by rw [hfp, hj]⟩
  | false =>
      rw [hfp] at hd ⊢
      cases hl : s.cache.lookup (SocketId.ofPid cmd.pid) with
      | none => simp [hl, differs] at hd
      | some v =>
          simp only [hl, differs, Bool.or_eq_false_iff, bne_eq_false_iff_eq] at hd
          exact ⟨v, hl, hd.1, by rw [hd.2]⟩

end RichPresence
