import Mathlib.Data.List.Dedup
import RichPresence.Bridge.CardRace
import RichPresence.Bridge.Placement
import RichPresence.Bridge.ProcCommit
import RichPresence.Lib.Commit

namespace RichPresence

open Lib

namespace Event

def cmds (e : Event) : List ActivityCmd :=
  match e.input with
  | .setActivity cmd => [cmd]
  | .proc _ => []

def claims (e : Event) : List AppId :=
  match e.input with
  | .setActivity cmd => if cmd.activity.isSome then cmd.applicationId.toList else []
  | .proc _ => []

def raises (s : Shared) (e : Event) : List AppId :=
  match e.input with
  | .setActivity cmd => if isGenuineClear cmd then (resumable e.env cmd s).map (·.id) else []
  | .proc (.detected game) => [game.id]
  | .proc _ => []

def fills (s : Shared) (e : Event) : List SocketId :=
  (e.cmds.filter (·.activity.isSome)).map (fun cmd => SocketId.ofPid cmd.pid) ++ (e.raises s).map SocketId.ofApp

end Event

/-- The keys of the tables of `s` and those the inputs may add. -/
def Bounds.of (s : Shared) (es : List Event) : Bounds where
  cards := (s.cache.keys ++ es.flatMap (Event.fills s)).dedup
  slots := (s.lastProcess.keys ++ es.flatMap (Event.raises s)).dedup
  scans := (s.handoff.lastScans.keys ++ es.filterMap Event.scannedApp).dedup
  owners := (s.handoff.liveIpc.keys ++ es.flatMap Event.claims).dedup

/-- The tables have room for everything the inputs may add. -/
def RoomFor (s : Shared) (es : List Event) : Prop :=
  (Bounds.of s es).cards.length ≤ maxCachedActivities ∧ (Bounds.of s es).slots.length < maxHandoffEntries ∧
    (Bounds.of s es).scans.length < maxHandoffEntries ∧ (Bounds.of s es).owners.length < maxHandoffEntries

instance (s : Shared) (es : List Event) : Decidable (RoomFor s es) := inferInstanceAs (Decidable (_ ∧ _))

/-- A publish and a clear from one pid, where the clear gives back the slot the
publish takes. -/
def Crosses (cmd c : ActivityCmd) : Prop :=
  cmd.activity.isSome ∧ isGenuineClear c = true ∧ c.pid = cmd.pid ∧ ∃ app ∈ cmd.applicationId, Releases c app

namespace Meeting

def of (s : Shared) (es : List Event) (h : RoomFor s es) : Meeting where
  start := s
  bounds := .of s es
  cmds := es.flatMap Event.cmds
  cards := h.1
  slots := h.2.1
  scans := h.2.2.1
  owners := h.2.2.2

variable {s : Shared} {es : List Event} {hroom : RoomFor s es} {env : Env} {cmd : ActivityCmd}

theorem mem_kept {α : Type} [DecidableEq α] {l added : List α} {x : α} (h : x ∈ l) : x ∈ (l ++ added).dedup :=
  List.mem_dedup.mpr (List.mem_append_left _ h)

theorem mem_added {α : Type} [DecidableEq α] {l : List α} {f : Event → List α} {x : α} {e : Event} (he : e ∈ es)
    (h : x ∈ f e) : x ∈ (l ++ es.flatMap f).dedup :=
  List.mem_dedup.mpr (List.mem_append_right _ (List.mem_flatMap.mpr ⟨e, he, h⟩))

theorem of_holds (s : Shared) (es : List Event) (hroom : RoomFor s es) : (of s es hroom).Holds s where
  places i hi := by
    obtain ⟨v, hv⟩ := Option.isSome_iff_exists.mp hi
    cases i with
    | scan app => exact mem_kept (Table.mem_keys_iff_lookup.mpr ⟨v, hv⟩)
    | shown app => exact mem_kept (Table.mem_keys_iff_lookup.mpr ⟨v, hv⟩)
    | card k =>
        obtain ⟨card, hcard, _⟩ := Option.map_eq_some_iff.mp hv
        exact mem_kept (Table.mem_keys_iff_lookup.mpr ⟨card, hcard⟩)
    | guard => trivial
  owners app ho := by
    obtain ⟨pid, hpid⟩ := Option.isSome_iff_exists.mp ho
    exact mem_kept (Table.mem_keys_iff_lookup.mpr ⟨pid, hpid⟩)
  held c _ app _ _ ho := ⟨ho, .inl rfl⟩

theorem of_invites (hm : ⟨env, .setActivity cmd⟩ ∈ es) (hcross : ∀ c ∈ es.flatMap Event.cmds, ¬Crosses cmd c) :
    (of s es hroom).Invites env cmd where
  listed := List.mem_flatMap.mpr ⟨_, hm, by simp [Event.cmds]⟩
  card hact := mem_added hm (by simp [Event.fills, Event.cmds, hact])
  owner hact app ha := mem_added hm (by simp [Event.claims, hact, ha])
  rivals hact app ha c hc hg hr hpid := hcross c hc ⟨hact, hg, hpid, app, ha, hr⟩
  games hg game hgame := by
    have hraise : game.id ∈ Event.raises s ⟨env, .setActivity cmd⟩ := by
      simp only [Event.raises, hg, if_true]
      exact List.mem_map_of_mem hgame
    exact ⟨mem_added hm hraise, mem_added hm (List.mem_append_right _ (List.mem_map_of_mem hraise))⟩

theorem of_detected {game : ScannedGame} (hm : ⟨env, .proc (.detected game)⟩ ∈ es) :
    game.id ∈ (of s es hroom).bounds.scans ∧ game.id ∈ (of s es hroom).bounds.slots ∧
      SocketId.ofApp game.id ∈ (of s es hroom).bounds.cards := by
  refine ⟨?_, mem_added hm (by simp [Event.raises]), mem_added hm (by simp [Event.fills, Event.raises])⟩
  exact List.mem_dedup.mpr (List.mem_append_right _ (List.mem_filterMap.mpr ⟨_, hm, rfl⟩))

section Owners

variable {env' : Env} {cmd' : ActivityCmd} {start : Shared} {move move' : Owners → Owners}
  {final final' : Owners → Contents} {o : Owners} {game : ScannedGame}

theorem releases_of_resumable (h : game ∈ resumable env cmd start) : Releases cmd game.id :=
  (mem_releaseSlots.mp (List.mem_of_mem_filter h)).1

theorem owned_before (hrival : ¬Crosses cmd' cmd) (h' : Effect env' cmd' start move' final')
    (hg : isGenuineClear cmd = true) (hm : game ∈ resumable env cmd start)
    (ho : move' o game.id = some cmd.pid) : o game.id = some cmd.pid := by
  rcases h'.kind with rfl | ⟨hact, rfl⟩ | ⟨_, rfl⟩
  · exact ho
  · rw [claim_apply] at ho
    split at ho
    next happ =>
      have hpid := (Option.some.inj ho).symm
      exact absurd ⟨hact, hg, hpid, game.id, happ, releases_of_resumable hm⟩ hrival
    next => exact ho
  · rw [release] at ho
    split at ho
    next => cases ho
    next => exact ho

theorem given_less (hrival : ¬Crosses cmd' cmd) (h' : Effect env' cmd' start move' final') :
    given env cmd start (move' o) ⊆ given env cmd start o := by
  rintro i ⟨hg, game, hm, ho, hi⟩
  exact ⟨hg, game, hm, owned_before hrival h' hg hm ho, hi⟩

theorem slot_of_place {app app' : AppId} {i : Place} (h : i ∈ slotPlaces app) (h' : i ∈ slotPlaces app') :
    app = app' := by
  simp only [slotPlaces, Set.mem_insert_iff, Set.mem_singleton_iff] at h h'
  rcases h with rfl | rfl | rfl
  · simpa using h'
  · simpa using h'
  · simpa [SocketId.ofApp_injective.eq_iff] using h'

theorem given_first (h : Effect env cmd start move final) :
    Disjoint (given env cmd start o) (given env' cmd' start (move o)) := by
  rw [Set.disjoint_left]
  rintro i ⟨hg, game, hm, ho, hi⟩ ⟨_, game', _, ho', hi'⟩
  rw [h.clear hg, ← slot_of_place hi hi', release, if_pos ⟨releases_of_resumable hm, ho⟩] at ho'
  cases ho'

theorem owned_iff (hpid : cmd'.pid = cmd.pid) (hact : cmd'.activity.isSome) (hrival : ¬Crosses cmd' cmd)
    (h' : Effect env' cmd' start move' final') (hg : isGenuineClear cmd = true)
    (hm : game ∈ resumable env cmd start) : move' o game.id = some cmd.pid ↔ o game.id = some cmd.pid := by
  refine ⟨owned_before hrival h' hg hm, fun ho => ?_⟩
  rcases h'.kind with rfl | ⟨_, rfl⟩ | ⟨hg', _⟩
  · exact ho
  · rw [claim_apply]
    split
    next => rw [hpid]
    next => exact ho
  · simp [(isGenuineClear_iff.mp hg').2] at hact

theorem claim_comm (hpid : cmd.pid = cmd'.pid) : claim cmd (claim cmd' o) = claim cmd' (claim cmd o) := by
  funext a
  simp only [claim_apply, hpid]
  split <;> split <;> rfl

theorem claim_release_comm (hpid : cmd.pid = cmd'.pid) (hact : cmd.activity.isSome)
    (hg : isGenuineClear cmd' = true) (hrival : ¬Crosses cmd cmd') :
    claim cmd (release cmd' o) = release cmd' (claim cmd o) := by
  funext a
  rw [claim_apply, release, release, claim_apply]
  by_cases happ : cmd.applicationId = some a
  · have hkeep : ¬Releases cmd' a := fun hr => hrival ⟨hact, hg, hpid.symm, a, happ, hr⟩
    simp [happ, hkeep]
  · simp [happ]

theorem release_comm : release cmd (release cmd' o) = release cmd' (release cmd o) := by
  funext a
  simp only [release]
  split <;> split <;> simp_all

theorem moves_comm (h : Effect env cmd start move final) (h' : Effect env' cmd' start move' final')
    (hpid : cmd.pid = cmd'.pid) (hcross : ¬Crosses cmd cmd') (hcross' : ¬Crosses cmd' cmd) :
    move (move' o) = move' (move o) := by
  rcases h.kind with rfl | ⟨hact, rfl⟩ | ⟨hg, rfl⟩
  · rfl
  · rcases h'.kind with rfl | ⟨_, rfl⟩ | ⟨hg', rfl⟩
    · rfl
    · exact claim_comm hpid
    · exact claim_release_comm hpid hact hg' hcross
  · rcases h'.kind with rfl | ⟨hact', rfl⟩ | ⟨_, rfl⟩
    · rfl
    · exact (claim_release_comm hpid.symm hact' hg hcross').symm
    · exact release_comm

end Owners

end Meeting

end RichPresence
