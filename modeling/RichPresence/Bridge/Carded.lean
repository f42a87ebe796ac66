import RichPresence.Bridge.Placement
import RichPresence.Bridge.Published

namespace RichPresence

open Lib

/-- The published slots are those with a generic card. -/
def Carded (s : Shared) : Prop := ∀ a, (s.published a).isSome = s.showsGeneric a

variable {C : Codec} {env : Env} {cmd : ActivityCmd} {s s' : Shared}

theorem showsGeneric_congr {a : AppId}
    (h : s'.cache.lookup (SocketId.ofApp a) = s.cache.lookup (SocketId.ofApp a)) :
    s'.showsGeneric a = s.showsGeneric a := by
  rw [Shared.showsGeneric, h, Shared.showsGeneric]

theorem showsGeneric_none {a : AppId} (h : s.cache.lookup (SocketId.ofApp a) = none) :
    s.showsGeneric a = false := by
  rw [Shared.showsGeneric, h]
  rfl

namespace Carded

theorem of_same (h : Carded s) (hl : s'.lastProcess = s.lastProcess) (hc : s'.cache = s.cache) : Carded s' := by
  intro a
  have ha := h a
  rwa [Shared.published, Shared.showsGeneric, hl, hc]

theorem comesUp (h : Carded s) {game : ScannedGame} (hl : Table.size s.lastProcess < maxHandoffEntries)
    (hown : ((RichPresence.resumeGeneric C env game).exec s).showsGeneric game.id = true)
    (hother : ∀ a, a ≠ game.id → s.showsGeneric a = true →
      ((RichPresence.resumeGeneric C env game).exec s).showsGeneric a = true) :
    Carded ((RichPresence.resumeGeneric C env game).exec s) := by
  intro a
  rw [Shared.published, resumeGeneric_lastProcess, trackProcessPublication,
    Table.insertBounded_of_room hl, Table.lookup_insert_eq]
  by_cases ha : a = game.id
  · rw [if_pos ha, ha, hown]
    rfl
  · have hs : (s.lastProcess.lookup a).isSome = s.showsGeneric a := h a
    rw [if_neg ha, hs, Bool.eq_iff_iff]
    refine ⟨hother a ha, fun hg => ?_⟩
    obtain ⟨v, hv, hgen⟩ := showsGeneric_iff.mp hg
    rcases resumeGeneric_cache_sub hv with ⟨hk, -⟩ | hv
    · exact absurd (SocketId.ofApp_injective hk) ha
    · exact showsGeneric_iff.mpr ⟨v, hv, hgen⟩

theorem resumeGeneric (hC : C.Encodes) (h : Carded s) (game : ScannedGame)
    (hc : Table.size s.cache < maxCachedActivities) (hl : Table.size s.lastProcess < maxHandoffEntries) :
    Carded ((resumeGeneric C env game).exec s) := by
  refine h.comesUp hl (showsGeneric_iff.mpr (resumeGeneric_own hC env game hc)) fun a ha hg => ?_
  rwa [showsGeneric_congr (resumeGeneric_other hc fun hk => ha (SocketId.ofApp_injective hk))]

theorem freed (hC : C.Encodes) (h : Carded s) (app : AppId) (pid : Nat) :
    Carded ((broadcastClear C env pid (SocketId.ofApp app)).exec
      { s with lastProcess := s.lastProcess.erase app }) := by
  intro a
  rw [Shared.published, broadcastClear_lastProcess, Table.lookup_erase_eq]
  by_cases ha : a = app
  · subst ha
    rw [if_pos rfl, showsGeneric_none (broadcastClear_own hC pid _)]
    rfl
  · rw [if_neg ha, showsGeneric_congr (broadcastClear_other fun hk => ha (SocketId.ofApp_injective hk))]
    exact h a

theorem detected (hC : C.Encodes) (h : Carded s) {game : ScannedGame}
    (hfresh : s.handoff.liveIpc.lookup game.id = none → s.lastProcess.lookup game.id = none →
      Carded ((RichPresence.resumeGeneric C env game).exec (scanned env (some game) s))) :
    Carded ((onDetected C env game).exec s) := by
  have hs : Carded (scanned env (some game) s) := h.of_same rfl rfl
  cases ho : s.handoff.liveIpc.lookup game.id with
  | some owner =>
      rw [onDetected_owned ho]
      cases hp : s.lastProcess.lookup game.id with
      | some pid => exact hs.freed hC game.id pid
      | none =>
          intro a
          have ha := hs a
          rw [Shared.published, Table.lookup_erase_eq]
          by_cases hg : a = game.id
          · subst hg
            rw [if_pos rfl]
            rw [Shared.published, scanned, hp] at ha
            exact ha
          · rw [if_neg hg]
            exact ha
  | none =>
      cases hp : s.lastProcess.lookup game.id with
      | some pid =>
          rw [onDetected_shown ho hp]
          exact hs
      | none =>
          rw [onDetected_fresh ho hp]
          exact hfresh ho hp

theorem removed (hC : C.Encodes) (h : Carded s) (app : AppId) (pid : Nat) :
    Carded ((onRemoved C env app pid).exec s) := by
  have hs : Carded (unscanned app pid s) := h.of_same rfl rfl
  by_cases hp : s.lastProcess.lookup app = some pid
  · rw [onRemoved_match hp]
    exact hs.freed hC app pid
  · rw [onRemoved_stale hp]
    exact hs

theorem cleared (hC : C.Encodes) (h : Carded s) : Carded ((onCleared C env).exec s) := by
  intro a
  have hnone : ((onCleared C env).exec s).published a = none := by
    rw [Shared.published, onCleared_dimmed.lastProcess]
    rfl
  rw [hnone, Option.isSome_none]
  by_contra hg
  have hg : ((onCleared C env).exec s).showsGeneric a = true := by simpa using Ne.symm hg
  have hs : s.showsGeneric a = true := onCleared_dimmed.showsGeneric hg
  obtain ⟨pid, hp⟩ := Option.isSome_iff_exists.mp ((h a).trans hs)
  have hgone : (emptied C env s).cache.lookup (SocketId.ofApp a) = none :=
    clears_own hC (fun p : Nat × AppId => p.1) (fun p => SocketId.ofApp p.2) (a := (pid, a))
      (mem_takeProcessClear.mpr hp)
  rw [onCleared_exec] at hg
  have he := (clears_dimmed (fun g : SocketId × Nat => g.2) (fun g => g.1)
    (ghosts env (emptied C env s).cache) (emptied C env s)).showsGeneric hg
  rw [showsGeneric_none hgone] at he
  cases he

theorem proc (hC : C.Encodes) (h : Carded s) (input : ProcInput) (hr : s.HasRoom) :
    Carded ((procPump C env input).exec s) := by
  cases input with
  | detected game =>
      have hs : Carded (scanned env (some game) s) := h.of_same rfl rfl
      exact h.detected hC fun _ _ => hs.resumeGeneric hC game hr.1 hr.2.1
  | removed app pid => exact h.removed hC app pid
  | cleared => exact h.cleared hC

theorem announce (h : Carded s) {changed : Bool}
    (hother : ∀ a, s.showsGeneric a = true → (announce C env cmd s changed).showsGeneric a = true) :
    Carded (announce C env cmd s changed) := by
  intro a
  have ha : (s.lastProcess.lookup a).isSome = s.showsGeneric a := h a
  rw [Shared.published, announce_lastProcess, ha, Bool.eq_iff_iff]
  exact ⟨hother a, announce_showsGeneric⟩

variable {Sdk : Nat → Prop} {Scan : AppId → Prop}

theorem announce_keeps (hp : Placed Sdk Scan s)
    (hsep : ∀ a, Scan a → SocketId.ofPid cmd.pid ≠ SocketId.ofApp a) {changed : Bool}
    (hother : ∀ k, k ≠ SocketId.ofPid cmd.pid →
      (RichPresence.announce C env cmd s changed).cache.lookup k = s.cache.lookup k) (a : AppId)
    (hg : s.showsGeneric a = true) : (RichPresence.announce C env cmd s changed).showsGeneric a = true := by
  obtain ⟨v, hv, hgen⟩ := showsGeneric_iff.mp hg
  rwa [showsGeneric_congr (hother _ (hsep a (hp.generic hv hgen)).symm)]

theorem resumes (hC : C.Encodes) (h : Carded s) {games : List ScannedGame}
    (ht : (forM games (RichPresence.resumeGeneric C env)).Through Shared.HasRoom s) :
    Carded ((forM games (RichPresence.resumeGeneric C env)).exec s) := by
  apply Prog.through_forM_induction Carded h ht
  intro game _ t hc hr
  have hroom := resumeGeneric_hasRoom hr
  exact hc.resumeGeneric hC game hroom.1 hroom.2.1

theorem setActivity (hC : C.Encodes) (h : Carded s) (hp : Placed Sdk Scan s)
    (hsep : ∀ a, Scan a → SocketId.ofPid cmd.pid ≠ SocketId.ofApp a) (hsdk : Sdk cmd.pid)
    (hr : StartsWithRoom C s ⟨env, .setActivity cmd⟩) :
    Carded ((handleSetActivity C env cmd).exec s) := by
  have hrec : Carded (recorded C env cmd s) := h.of_same rfl rfl
  by_cases hargs : cmd.args = none
  · rw [handleSetActivity_noArgs hargs]
    exact hrec
  · cases ha : cmd.activity with
    | none =>
        rw [handleSetActivity_clear ha (Option.isSome_iff_ne_none.mpr hargs)]
        refine announce ?_ (announce_keeps hp.recorded.resumed hsep fun k hk => announce_clear_other ha hk)
        cases hg : isGenuineClear cmd with
        | false =>
            rw [resumeAfterClear_publish hg]
            exact hrec
        | true =>
            rw [resumeAfterClear_genuine hg]
            have hrel : Carded (released env cmd (recorded C env cmd s)) := hrec.of_same rfl rfl
            exact hrel.resumes hC (hr.resumed hg)
    | some activity =>
        cases hd : dropped C env cmd s with
        | true =>
            rw [handleSetActivity_dropped hd]
            exact h
        | false =>
            rw [handleSetActivity_publish (by simp [ha]) hd]
            have hfits : CardFits cmd (claimed env cmd (recorded C env cmd s)) := by
              apply cardFits_of_room
              rw [claimed_cache]
              exact hr.here.1
            refine announce ?_ (announce_keeps (hp.recorded.claimed hsdk) hsep fun k hk => announce_other hfits hk)
            exact hrec.of_same claimed_lastProcess claimed_cache

end Carded

end RichPresence
