import RichPresence.Bridge.Effects

namespace RichPresence

open Lib

def scanned (env : Env) (game : Option ScannedGame) (s : Shared) : Shared :=
  { s with handoff := s.handoff.noteScan env game }

def unscanned (appId : AppId) (pid : Nat) (s : Shared) : Shared :=
  { s with handoff := (s.handoff.noteRemove appId pid).2 }

variable {C : Codec} {env : Env} {s : Shared}

theorem onDetected_owned {game : ScannedGame} {owner : Nat}
    (h : s.handoff.liveIpc.lookup game.id = some owner) :
    (onDetected C env game).exec s =
      match s.lastProcess.lookup game.id with
      | some pid => (broadcastClear C env pid (SocketId.ofApp game.id)).exec
          { scanned env (some game) s with lastProcess := s.lastProcess.erase game.id }
      | none => { scanned env (some game) s with lastProcess := s.lastProcess.erase game.id } := by
  simp only [onDetected, withdrawGeneric, HandoffState.ownerOf, Prog.exec_bind, Prog.exec_updates, Prog.run_locked,
    Prog.exec_locked, HandoffState.noteScan_liveIpc, h, Option.isSome_some, if_true, Prog.exec_pure]
  cases s.lastProcess.lookup game.id <;> rfl

theorem onDetected_shown {game : ScannedGame} {pid : Nat} (h : s.handoff.liveIpc.lookup game.id = none)
    (hp : s.lastProcess.lookup game.id = some pid) :
    (onDetected C env game).exec s = scanned env (some game) s := by
  simp only [onDetected, HandoffState.ownerOf, Prog.exec_bind, Prog.exec_updates, Prog.run_reads, Prog.run_locked,
    Prog.exec_locked, Prog.exec_reads, HandoffState.noteScan_liveIpc, h, Option.isSome_none, Bool.false_eq_true,
    if_false, hp, Option.isSome_some, if_true, Prog.exec_pure]
  rfl

theorem onDetected_fresh {game : ScannedGame} (h : s.handoff.liveIpc.lookup game.id = none)
    (hp : s.lastProcess.lookup game.id = none) :
    (onDetected C env game).exec s = (resumeGeneric C env game).exec (scanned env (some game) s) := by
  simp only [onDetected, HandoffState.ownerOf, Prog.exec_bind, Prog.exec_updates, Prog.run_reads, Prog.run_locked,
    Prog.exec_locked, Prog.exec_reads, HandoffState.noteScan_liveIpc, h, Option.isSome_none, Bool.false_eq_true,
    if_false, hp]
  rfl

theorem onRemoved_match {appId : AppId} {pid : Nat} (h : s.lastProcess.lookup appId = some pid) :
    (onRemoved C env appId pid).exec s =
      (broadcastClear C env pid (SocketId.ofApp appId)).exec
        { unscanned appId pid s with lastProcess := s.lastProcess.erase appId } := by
  simp only [onRemoved, takeMatchingProcess, Prog.exec_bind, Prog.exec_updates, Prog.run_locked,
    Prog.exec_locked, h, if_true]
  rfl

theorem onRemoved_stale {appId : AppId} {pid : Nat} (h : s.lastProcess.lookup appId ≠ some pid) :
    (onRemoved C env appId pid).exec s = unscanned appId pid s := by
  simp only [onRemoved, takeMatchingProcess, Prog.exec_bind, Prog.exec_updates, Prog.run_locked,
    Prog.exec_locked, h, if_false]
  rfl

def emptied (C : Codec) (env : Env) (s : Shared) : Shared :=
  (forM (takeProcessClear s.lastProcess).1 fun p : Nat × AppId =>
    broadcastClear C env p.1 (SocketId.ofApp p.2)).exec { scanned env none s with lastProcess := ∅ }

theorem onCleared_exec :
    (onCleared C env).exec s =
      (forM (ghosts env (emptied C env s).cache) fun g : SocketId × Nat =>
        broadcastClear C env g.2 g.1).exec (emptied C env s) := by
  simp only [onCleared, takeProcessClear, Prog.exec_bind, Prog.exec_updates, Prog.run_locked,
    Prog.exec_locked, Prog.run_reads, Prog.exec_reads]
  rfl

theorem mem_takeProcessClear {t : Table AppId Nat} {p : Nat × AppId} :
    p ∈ (takeProcessClear t).1 ↔ t.lookup p.2 = some p.1 := by
  rw [takeProcessClear]
  rw [List.mem_insertionSort, List.mem_map]
  constructor
  · rintro ⟨⟨a, pid⟩, he, rfl⟩
    exact AList.mem_lookup_iff.mpr he
  · intro h
    exact ⟨⟨p.2, p.1⟩, AList.mem_lookup_iff.mp h, rfl⟩

theorem mem_ghosts {cache : ReplayCache} {k : SocketId} {pid : Nat} :
    (k, pid) ∈ ghosts env cache ↔ ∃ v, cache.lookup k = some v ∧ cacheEntryPid k v.1 = some pid ∧
      env.isProcessAlive pid = false := by
  simp only [ghosts, List.mem_filterMap, Option.map_eq_some_iff, Option.filter_eq_some_iff, env.walk.mem_order,
    Bool.not_eq_true']
  constructor
  · rintro ⟨⟨k', v⟩, hm, pid', ⟨hp, hd⟩, he⟩
    obtain ⟨rfl, rfl⟩ := Prod.mk.inj he
    exact ⟨v, AList.mem_lookup_iff.mpr hm, hp, hd⟩
  · rintro ⟨v, hl, hp, hd⟩
    exact ⟨⟨k, v⟩, AList.mem_lookup_iff.mp hl, pid, ⟨hp, hd⟩, rfl⟩

theorem nodup_filterMap_keys {V W : Type} {l : List (Sigma fun _ : SocketId => V)} (h : l.keys.Nodup)
    (f : (Sigma fun _ : SocketId => V) → Option W) : (l.filterMap fun e => (f e).map (e.1, ·)).Nodup := by
  induction l with
  | nil => exact List.nodup_nil
  | cons e l ih =>
      obtain ⟨hn, hl⟩ := List.nodup_cons.mp h
      cases he : f e with
      | none => simpa [List.filterMap_cons, he] using ih hl
      | some x =>
          rw [List.filterMap_cons, he]
          refine List.nodup_cons.mpr ⟨fun hm => hn ?_, ih hl⟩
          obtain ⟨e', hm', hx⟩ := List.mem_filterMap.mp hm
          obtain ⟨y, _, hy⟩ := Option.map_eq_some_iff.mp hx
          exact (Prod.mk.inj hy).1 ▸ List.mem_keys_of_mem hm'

theorem ghosts_nodup (env : Env) (cache : ReplayCache) : (ghosts env cache).Nodup :=
  nodup_filterMap_keys (((env.walk.perm cache.entries).map Sigma.fst).nodup_iff.mpr cache.keys_nodup) _

structure Dimmed (s s' : Shared) : Prop where
  handoff : s'.handoff = s.handoff
  lastProcess : s'.lastProcess = s.lastProcess
  recent : s'.recent = s.recent
  cache : ∀ k v, s'.cache.lookup k = some v → s.cache.lookup k = some v

theorem Dimmed.refl (s : Shared) : Dimmed s s := ⟨rfl, rfl, rfl, fun _ _ h => h⟩

theorem Dimmed.trans {s t u : Shared} (h : Dimmed s t) (h' : Dimmed t u) : Dimmed s u :=
  ⟨h'.handoff.trans h.handoff, h'.lastProcess.trans h.lastProcess, h'.recent.trans h.recent,
    fun k v hv => h.cache k v (h'.cache k v hv)⟩

theorem Dimmed.showsGeneric {s s' : Shared} (h : Dimmed s s') {app : AppId} (hg : s'.showsGeneric app = true) :
    s.showsGeneric app = true := by
  obtain ⟨v, hv, hgen⟩ := showsGeneric_iff.mp hg
  exact showsGeneric_iff.mpr ⟨v, h.cache _ v hv, hgen⟩

theorem broadcastClear_dimmed (pid : Nat) (socketId : SocketId) (s : Shared) :
    Dimmed s ((broadcastClear C env pid socketId).exec s) :=
  ⟨broadcastClear_handoff .., broadcastClear_lastProcess .., broadcastClear_recent ..,
    fun _ _ => broadcastClear_cache_sub⟩

theorem clears_dimmed {α : Type} (pid : α → Nat) (socketId : α → SocketId) (l : List α) (s : Shared) :
    Dimmed s ((forM l fun a => broadcastClear C env (pid a) (socketId a)).exec s) :=
  Prog.exec_forM_induction (Dimmed s) (.refl s) fun _ _ _ h => h.trans (broadcastClear_dimmed ..)

theorem onCleared_dimmed :
    Dimmed { scanned env none s with lastProcess := ∅ } ((onCleared C env).exec s) := by
  rw [onCleared_exec]
  exact (clears_dimmed (fun p : Nat × AppId => p.1) _ _ _).trans
    (clears_dimmed (fun g : SocketId × Nat => g.2) _ _ _)

end RichPresence
