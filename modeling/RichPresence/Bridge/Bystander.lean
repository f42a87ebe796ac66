import RichPresence.Bridge.Eviction
import RichPresence.Bridge.ConsumerView

namespace RichPresence

open Lib

def resumed (env : Env) (cmd : ActivityCmd) (s : Shared) : List ScannedGame :=
  if isGenuineClear cmd then resumable env cmd s else []

variable {C : Codec} {env : Env} {cmd : ActivityCmd} {s : Shared} {k : SocketId} {a : AppId}

theorem mem_resumed {game : ScannedGame} (h : game ∈ resumed env cmd s) :
    isGenuineClear cmd = true ∧ Releases cmd game.id ∧ s.handoff.ownerOf game.id = some cmd.pid := by
  rw [resumed] at h
  split at h
  next hg =>
      obtain ⟨hr, ho, -⟩ := mem_releaseSlots.mp (List.mem_of_mem_filter h)
      exact ⟨hg, hr, ho⟩
  next => cases h

theorem mem_shows (h : k ∈ Event.shows C s ⟨env, .setActivity cmd⟩) :
    k = SocketId.ofPid cmd.pid ∨ ∃ game ∈ resumed env cmd s, k = SocketId.ofApp game.id := by
  simp only [Event.shows] at h
  split at h
  next =>
      split at h
      next => cases h
      next => exact .inl (List.mem_singleton.mp h)
  next =>
      split at h
      next hg =>
          obtain ⟨game, hm, rfl⟩ := List.mem_map.mp h
          exact .inr ⟨game, by rwa [resumed, if_pos hg], rfl⟩
      next => cases h

theorem announce_outlived {changed : Bool} (h : Outlives s.cache [SocketId.ofPid cmd.pid] k)
    (hk : k ≠ SocketId.ofPid cmd.pid) :
    (announce C env cmd s changed).cache.lookup k = s.cache.lookup k := by
  rw [announce]
  split
  next =>
      split
      next e he =>
          cases hc : e.isClear with
          | false => exact (h.broadcastActivity env hk hc).2
          | true => rw [broadcastActivity_clear hc, if_neg hk]
      next => rfl
  next => rfl

theorem handleSetActivity_spares (hk : k ≠ SocketId.ofPid cmd.pid)
    (hs : k ∉ Event.shows C s ⟨env, .setActivity cmd⟩)
    (h : Outlives s.cache (Event.shows C s ⟨env, .setActivity cmd⟩) k) :
    ((handleSetActivity C env cmd).exec s).cache.lookup k = s.cache.lookup k := by
  by_cases hargs : cmd.args = none
  · rw [handleSetActivity_noArgs hargs]
    rfl
  · cases ha : cmd.activity with
    | none =>
        rw [handleSetActivity_clear ha (Option.isSome_iff_ne_none.mpr hargs), announce_clear_other ha hk]
        cases hg : isGenuineClear cmd with
        | false =>
            rw [resumeAfterClear_publish hg]
            rfl
        | true =>
            rw [shows_clear hg] at h hs
            rw [resumeAfterClear_genuine hg]
            exact h.resumes (s := released env cmd (recorded C env cmd s)) C env hs
    | some activity =>
        cases hd : dropped C env cmd s with
        | true => rw [handleSetActivity_dropped hd]
        | false =>
            have hsome : cmd.activity.isSome := by simp [ha]
            rw [shows_publish hsome hd] at h
            have hcache : (claimed env cmd (recorded C env cmd s)).cache = s.cache := claimed_cache
            rw [handleSetActivity_publish hsome hd, announce_outlived (by rwa [hcache]) hk, hcache]

theorem resumes_lastProcess {games : List ScannedGame} (ha : ∀ game ∈ games, game.id ≠ a)
    (hroom : Table.size s.lastProcess + games.length ≤ maxHandoffEntries) :
    ((forM games (resumeGeneric C env)).exec s).lastProcess.lookup a = s.lastProcess.lookup a := by
  induction games generalizing s with
  | nil => rfl
  | cons game games ih =>
      have hlast : ((resumeGeneric C env game).exec s).lastProcess = s.lastProcess.insert game.id game.pid := by
        rw [resumeGeneric_lastProcess, trackProcessPublication, Table.insertBounded_of_room]
        rw [List.length_cons] at hroom
        omega
      have hsize := Table.size_insert_le s.lastProcess game.id game.pid
      rw [List.forM_cons, Prog.exec_bind, ih (fun g hg => ha g (by simp [hg])), hlast, Table.lookup_insert_eq,
        if_neg (ha game (by simp)).symm]
      rw [hlast]
      rw [List.length_cons] at hroom
      omega

theorem handleSetActivity_lastProcess (ha : ∀ game ∈ resumed env cmd s, game.id ≠ a)
    (hroom : resumed env cmd s ≠ [] →
      Table.size s.lastProcess + (resumed env cmd s).length ≤ maxHandoffEntries) :
    ((handleSetActivity C env cmd).exec s).lastProcess.lookup a = s.lastProcess.lookup a := by
  by_cases hargs : cmd.args = none
  · rw [handleSetActivity_noArgs hargs]
    rfl
  · cases hact : cmd.activity with
    | none =>
        rw [handleSetActivity_clear hact (Option.isSome_iff_ne_none.mpr hargs), announce_lastProcess]
        cases hg : isGenuineClear cmd with
        | false =>
            rw [resumeAfterClear_publish hg]
            rfl
        | true =>
            have hres : resumed env cmd s = resumable env cmd (recorded C env cmd s) := by
              rw [resumed, if_pos hg]
              rfl
            rw [hres] at ha hroom
            rw [resumeAfterClear_genuine hg]
            by_cases hnil : resumable env cmd (recorded C env cmd s) = []
            · rw [hnil]
              rfl
            · exact resumes_lastProcess (s := released env cmd (recorded C env cmd s)) ha (hroom hnil)
    | some activity =>
        cases hd : dropped C env cmd s with
        | true => rw [handleSetActivity_dropped hd]
        | false =>
            rw [handleSetActivity_publish (by simp [hact]) hd, announce_lastProcess, claimed_lastProcess]
            rfl

/-- A command that neither names an application, nor has its id as a pid, nor
gives back the pid's slots with it among them, leaves its generic card alone,
unless the card is among the oldest that make room; its publication stays as
long as those of the games the command resumes fit in. -/
theorem unnamed_generic_untouched (C : Codec) (env : Env) {cmd : ActivityCmd} {s : Shared} {a : AppId}
    (hname : cmd.applicationId ≠ some a) (hpid : SocketId.ofPid cmd.pid ≠ SocketId.ofApp a)
    (howner : ¬(isGenuineClear cmd = true ∧ cmd.applicationId = none ∧ s.handoff.ownerOf a = some cmd.pid)) :
    (Outlives s.cache (Event.shows C s ⟨env, .setActivity cmd⟩) (SocketId.ofApp a) →
      ((handleSetActivity C env cmd).exec s).cache.lookup (SocketId.ofApp a) =
        s.cache.lookup (SocketId.ofApp a)) ∧
    ((resumed env cmd s ≠ [] → Table.size s.lastProcess + (resumed env cmd s).length ≤ maxHandoffEntries) →
      ((handleSetActivity C env cmd).exec s).lastProcess.lookup a = s.lastProcess.lookup a) := by
  have hresumed : ∀ game ∈ resumed env cmd s, game.id ≠ a := by
    rintro game hm rfl
    obtain ⟨hg, hr, ho⟩ := mem_resumed hm
    rcases hr with hr | hr
    · exact howner ⟨hg, hr, ho⟩
    · exact hname hr
  refine ⟨fun hout => handleSetActivity_spares hpid.symm (fun hm => ?_) hout,
    handleSetActivity_lastProcess hresumed⟩
  rcases mem_shows hm with hk | ⟨game, hg, hk⟩
  · exact hpid hk.symm
  · exact hresumed game hg (SocketId.ofApp_injective hk).symm

def calmAt (instant : Nat) : Env := .calm (fun _ => true) instant

def besides : ActivityCmd := .publish ⟨"480"⟩ 77 "In the menu"

def detectedHades : Shared := run Serde.codec [.detected (calmAt 0) hades]

theorem unnamed_generic_untouched_hades :
    detectedHades.showsGeneric hades.id = true ∧
      ((handleSetActivity Serde.codec (calmAt 1) besides).exec detectedHades).cache.lookup
          (SocketId.ofApp hades.id) = detectedHades.cache.lookup (SocketId.ofApp hades.id) ∧
      ((handleSetActivity Serde.codec (calmAt 1) besides).exec detectedHades).lastProcess.lookup hades.id =
        detectedHades.lastProcess.lookup hades.id := by
  have h := @unnamed_generic_untouched Serde.codec (calmAt 1) besides detectedHades hades.id (by decide)
    (by decide +kernel) (by decide +kernel)
  have hfits : Outlives detectedHades.cache (Event.shows Serde.codec detectedHades ⟨calmAt 1, .setActivity besides⟩)
      (SocketId.ofApp hades.id) := by
    intro v _
    have hcard : (sockets detectedHades.cache
        (Event.shows Serde.codec detectedHades ⟨calmAt 1, .setActivity besides⟩)).card ≤ maxCachedActivities := by
      decide +kernel
    omega
  exact ⟨by decide +kernel, h.1 hfits, h.2 (by decide +kernel)⟩

def crowded : Shared := run Serde.codec (.detected (calmAt 0) hades :: crowd 1 49)

/-- The fiftieth client's card pushes out the oldest card, the one of a game it does not name. -/
theorem full_cache_evicts_bystander :
    crowded.showsGeneric hades.id = true ∧ (crowded.lastProcess.lookup hades.id).isSome = true ∧
      besides.applicationId ≠ some hades.id ∧
      ((handleSetActivity Serde.codec (calmAt 60) besides).exec crowded).showsGeneric hades.id = false := by
  decide +kernel

end RichPresence
