import RichPresence.Bridge.Commands
import RichPresence.Bridge.Scanner
import RichPresence.Lib.Run

namespace RichPresence

open Lib

def Event.sdkPid (e : Event) : Option Nat :=
  match e.input with
  | .setActivity cmd => some cmd.pid
  | .proc _ => none

def Event.scannedApp (e : Event) : Option AppId :=
  match e.input with
  | .proc (.detected game) => some game.id
  | _ => none

/-- No client's pid, written out, is the application id of a detected game. -/
def Separate (es : List Event) : Prop :=
  ∀ p ∈ es.filterMap Event.sdkPid, ∀ a ∈ es.filterMap Event.scannedApp, SocketId.ofPid p ≠ SocketId.ofApp a

instance (es : List Event) : Decidable (Separate es) :=
  inferInstanceAs (Decidable (∀ p ∈ es.filterMap Event.sdkPid, ∀ a ∈ es.filterMap Event.scannedApp, _))

def Event.Within (Sdk : Nat → Prop) (Scan : AppId → Prop) (e : Event) : Prop :=
  (∀ p, e.sdkPid = some p → Sdk p) ∧ ∀ a, e.scannedApp = some a → Scan a

theorem within_run {es : List Event} : ∀ e ∈ es,
    e.Within (· ∈ es.filterMap Event.sdkPid) (· ∈ es.filterMap Event.scannedApp) :=
  fun e he => ⟨fun _ hp => List.mem_filterMap.mpr ⟨e, he, hp⟩, fun _ ha => List.mem_filterMap.mpr ⟨e, he, ha⟩⟩

variable (Sdk : Nat → Prop) (Scan : AppId → Prop)

def SdkCardAt (k : SocketId) (e : CachedActivity) : Prop :=
  ∃ p, Sdk p ∧ k = SocketId.ofPid p ∧ e.pid = p ∧ e.isClear = false ∧ e.provenance = some ⟨"sdk", none⟩

def GenericCardAt (k : SocketId) (e : CachedActivity) : Prop :=
  ∃ a, Scan a ∧ k = SocketId.ofApp a ∧ e.isClear = false ∧ e.isGeneric = true

/-- Where everything in the tables comes from: owners are clients, scanned and
published slots are detected games, and a card stands under the id of whoever
sent it. -/
structure Placed (s : Shared) : Prop where
  owners : ∀ a p, s.handoff.liveIpc.lookup a = some p → Sdk p
  scans : ∀ a g, s.handoff.lastScans.lookup a = some g → Scan a
  published : ∀ a p, s.lastProcess.lookup a = some p → Scan a
  cards : ∀ k v, s.cache.lookup k = some v → SdkCardAt Sdk k v.1 ∨ GenericCardAt Scan k v.1

variable {Sdk Scan} {C : Codec} {env : Env} {cmd : ActivityCmd} {s s' : Shared}

namespace Placed

theorem start : Placed Sdk Scan {} := by
  constructor <;> intro _ _ h <;> simp at h

theorem generic (h : Placed Sdk Scan s) {a : AppId} {v : CachedActivity × UInt64}
    (hv : s.cache.lookup (SocketId.ofApp a) = some v) (hg : v.1.isGeneric = true) : Scan a := by
  rcases h.cards _ v hv with ⟨p, _, _, _, _, hprov⟩ | ⟨b, hb, hk, _⟩
  · rw [CachedActivity.isGeneric, hprov] at hg
    cases hg
  · rwa [SocketId.ofApp_injective hk]

theorem dimmed (h : Placed Sdk Scan s) (hd : Dimmed s s') : Placed Sdk Scan s' where
  owners a p ha := h.owners a p (hd.handoff ▸ ha)
  scans a g ha := h.scans a g (hd.handoff ▸ ha)
  published a p ha := h.published a p (hd.lastProcess ▸ ha)
  cards k v hv := h.cards k v (hd.cache k v hv)

theorem resumeGeneric (h : Placed Sdk Scan s) {game : ScannedGame} (hg : Scan game.id) :
    Placed Sdk Scan ((resumeGeneric C env game).exec s) where
  owners a p ha := h.owners a p (by rwa [resumeGeneric_handoff] at ha)
  scans a g ha := h.scans a g (by rwa [resumeGeneric_handoff] at ha)
  published a p ha := by
    rw [resumeGeneric_lastProcess] at ha
    rcases Table.lookup_insertBounded ha with ⟨rfl, _⟩ | ha
    · exact hg
    · exact h.published a p ha
  cards k v hv := by
    rcases resumeGeneric_cache_sub hv with ⟨hk, hp⟩ | hv
    · obtain ⟨hc, hgen, _⟩ := genericPayload_spec hp
      exact .inr ⟨game.id, hg, hk, hc, hgen⟩
    · exact h.cards k v hv

theorem announce (h : Placed Sdk Scan s) (hp : Sdk cmd.pid) (changed : Bool) :
    Placed Sdk Scan (announce C env cmd s changed) where
  owners a p ha := h.owners a p (by rwa [announce_handoff] at ha)
  scans a g ha := h.scans a g (by rwa [announce_handoff] at ha)
  published a p ha := h.published a p (by rwa [announce_lastProcess] at ha)
  cards k v hv := by
    rcases announce_cache_sub hv with ⟨hk, he, hc⟩ | hv
    · have hs := sdkCard_spec he
      exact .inl ⟨cmd.pid, hp, hk, hs.pid, hc, hs.provenance⟩
    · exact h.cards k v hv

theorem claimed (h : Placed Sdk Scan s) (hp : Sdk cmd.pid) : Placed Sdk Scan (claimed env cmd s) := by
  rw [RichPresence.claimed]
  split
  next app _ =>
    refine ⟨fun a p ha => ?_, h.scans, h.published, h.cards⟩
    rcases Table.lookup_insertBounded ha with ⟨_, rfl⟩ | ha
    · exact hp
    · exact h.owners a p ha
  next => exact h

theorem released (h : Placed Sdk Scan s) : Placed Sdk Scan (released env cmd s) where
  owners a p ha := by
    have hl := releaseSlots_liveIpc env cmd s.handoff a
    change (releaseSlots env cmd s.handoff).2.liveIpc.lookup a = some p at ha
    rw [hl] at ha
    split at ha
    next => cases ha
    next => exact h.owners a p ha
  scans a g ha := by
    change (releaseSlots env cmd s.handoff).2.lastScans.lookup a = some g at ha
    rw [releaseSlots_lastScans] at ha
    exact h.scans a g ha
  published := h.published
  cards := h.cards

theorem resumable (h : Placed Sdk Scan s) {game : ScannedGame} (hm : game ∈ resumable env cmd s) :
    Scan game.id :=
  h.scans game.id game (mem_releaseSlots.mp (List.mem_of_mem_filter hm)).2.2

theorem resumed (h : Placed Sdk Scan s) : Placed Sdk Scan ((resumeAfterClear C env (fixed C env cmd)).exec s) := by
  cases hg : isGenuineClear cmd with
  | false =>
      rw [resumeAfterClear_publish hg]
      exact h
  | true =>
      rw [resumeAfterClear_genuine hg]
      exact Prog.exec_forM_induction _ h.released fun game hm _ ht => ht.resumeGeneric (h.resumable hm)

theorem recorded (h : Placed Sdk Scan s) : Placed Sdk Scan (recorded C env cmd s) :=
  ⟨h.owners, h.scans, h.published, h.cards⟩

theorem setActivity (h : Placed Sdk Scan s) (hp : Sdk cmd.pid) :
    Placed Sdk Scan ((handleSetActivity C env cmd).exec s) := by
  by_cases hargs : cmd.args = none
  · rw [handleSetActivity_noArgs hargs]
    exact h.recorded
  · cases ha : cmd.activity with
    | none =>
        rw [handleSetActivity_clear ha (Option.isSome_iff_ne_none.mpr hargs)]
        exact h.recorded.resumed.announce hp _
    | some a =>
        cases hd : dropped C env cmd s with
        | true =>
            rw [handleSetActivity_dropped hd]
            exact h
        | false =>
            rw [handleSetActivity_publish (by simp [ha]) hd]
            exact (h.recorded.claimed hp).announce hp _

theorem scanned (h : Placed Sdk Scan s) {game : Option ScannedGame} (hg : ∀ g, game = some g → Scan g.id) :
    Placed Sdk Scan (scanned env game s) := by
  refine ⟨fun a p ha => h.owners a p ?_, fun a g ha => ?_, h.published, h.cards⟩
  · rwa [RichPresence.scanned, HandoffState.noteScan_liveIpc] at ha
  · cases game with
    | none => cases ha
    | some known =>
        rcases Table.lookup_insertBounded ha with ⟨rfl, _⟩ | ha
        · exact hg known rfl
        · exact h.scans a g ha

theorem unscanned (h : Placed Sdk Scan s) (app : AppId) (pid : Nat) : Placed Sdk Scan (unscanned app pid s) := by
  refine ⟨fun a p ha => h.owners a p ?_, fun a g ha => ?_, h.published, h.cards⟩
  · rwa [RichPresence.unscanned, HandoffState.noteRemove_liveIpc] at ha
  · rw [RichPresence.unscanned, HandoffState.noteRemove] at ha
    split at ha
    next =>
      rw [Table.lookup_erase_eq] at ha
      split at ha
      next => cases ha
      next => exact h.scans a g ha
    next => exact h.scans a g ha

theorem unpublished (h : Placed Sdk Scan s) (app : AppId) :
    Placed Sdk Scan { s with lastProcess := s.lastProcess.erase app } := by
  refine ⟨h.owners, h.scans, fun a p ha => ?_, h.cards⟩
  rw [Table.lookup_erase_eq] at ha
  split at ha
  next => cases ha
  next => exact h.published a p ha

theorem detected (h : Placed Sdk Scan s) {game : ScannedGame} (hg : Scan game.id) :
    Placed Sdk Scan ((onDetected C env game).exec s) := by
  have hs : Placed Sdk Scan (RichPresence.scanned env (some game) s) := h.scanned fun _ he => by
    cases he
    exact hg
  cases ho : s.handoff.liveIpc.lookup game.id with
  | some owner =>
      rw [onDetected_owned ho]
      cases s.lastProcess.lookup game.id with
      | some pid => exact (hs.unpublished game.id).dimmed (broadcastClear_dimmed ..)
      | none => exact hs.unpublished game.id
  | none =>
      cases hp : s.lastProcess.lookup game.id with
      | some pid =>
          rw [onDetected_shown ho hp]
          exact hs
      | none =>
          rw [onDetected_fresh ho hp]
          exact hs.resumeGeneric hg

theorem removed (h : Placed Sdk Scan s) (app : AppId) (pid : Nat) :
    Placed Sdk Scan ((onRemoved C env app pid).exec s) := by
  by_cases hp : s.lastProcess.lookup app = some pid
  · rw [onRemoved_match hp]
    exact ((h.unscanned app pid).unpublished app).dimmed (broadcastClear_dimmed ..)
  · rw [onRemoved_stale hp]
    exact h.unscanned app pid

theorem unlisted (h : Placed Sdk Scan s) :
    Placed Sdk Scan { RichPresence.scanned env none s with lastProcess := ∅ } := by
  have hs : Placed Sdk Scan (RichPresence.scanned env none s) := h.scanned fun _ he => by cases he
  exact ⟨hs.owners, hs.scans, fun _ _ ha => by simp at ha, hs.cards⟩

theorem emptied (h : Placed Sdk Scan s) : Placed Sdk Scan (emptied C env s) :=
  h.unlisted.dimmed (clears_dimmed ..)

theorem cleared (h : Placed Sdk Scan s) : Placed Sdk Scan ((onCleared C env).exec s) :=
  h.unlisted.dimmed onCleared_dimmed

theorem step (h : Placed Sdk Scan s) {e : Event} (he : e.Within Sdk Scan) : Placed Sdk Scan (step C s e) := by
  obtain ⟨env, input⟩ := e
  rcases input with cmd | game | ⟨app, pid⟩ | _
  · exact h.setActivity (he.1 _ rfl)
  · exact h.detected (he.2 _ rfl)
  · exact h.removed app pid
  · exact h.cleared

end Placed

end RichPresence
