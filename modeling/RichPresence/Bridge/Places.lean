import RichPresence.Bridge.Published
import RichPresence.Lib.Layout

namespace RichPresence

open Lib

/-- Where the bridge keeps something, the owners of the slots apart. -/
inductive Place
  | scan (app : AppId)
  | shown (app : AppId)
  | card (socketId : SocketId)
  | guard
  deriving DecidableEq

abbrev Place.Value : Place → Type
  | scan _ => ScannedGame
  | shown _ => Nat
  | card _ => CachedActivity
  | guard => RecentActivities

abbrev Contents := (i : Place) → Option i.Value

/-- The places of one application's generic presence. -/
def slotPlaces (app : AppId) : Set Place := {.scan app, .shown app, .card (SocketId.ofApp app)}

section Slot

variable {app : AppId} {P : Set Place} (hP : slotPlaces app ⊆ P)

include hP

theorem scan_mem : Place.scan app ∈ P := hP (by simp [slotPlaces])

theorem shown_mem : Place.shown app ∈ P := hP (by simp [slotPlaces])

theorem card_mem : Place.card (SocketId.ofApp app) ∈ P := hP (by simp [slotPlaces])

end Slot

abbrev Owners := AppId → Option Nat

open Classical in
/-- The contents of `T` in `Z` and of `w` everywhere else. -/
noncomputable def Contents.patch (T : Contents) (Z : Set Place) (w : Contents) : Contents :=
  fun i => if i ∈ Z then T i else w i

def Contents.empty : Contents := fun _ => none

namespace Contents

variable {T w : Contents} {Z Z' : Set Place} {i : Place}

theorem patch_of_mem (h : i ∈ Z) : Contents.patch T Z w i = T i := if_pos h

theorem patch_of_notMem (h : i ∉ Z) : Contents.patch T Z w i = w i := if_neg h

theorem patch_congr (h : i ∈ Z ↔ i ∈ Z') : Contents.patch T Z w i = Contents.patch T Z' w i := by
  by_cases hz : i ∈ Z
  · rw [patch_of_mem hz, patch_of_mem (h.mp hz)]
  · rw [patch_of_notMem hz, patch_of_notMem (mt h.mpr hz)]

theorem patch_empty : Contents.patch T ∅ w = w := by
  funext i
  exact patch_of_notMem (Set.notMem_empty i)

theorem patch_patch : Contents.patch T Z' (Contents.patch T Z w) = Contents.patch T (Z ∪ Z') w := by
  funext i
  by_cases h' : i ∈ Z'
  · rw [patch_of_mem h', patch_of_mem (Set.mem_union_right Z h')]
  · by_cases h : i ∈ Z
    · rw [patch_of_notMem h', patch_of_mem h, patch_of_mem (Set.mem_union_left Z' h)]
    · rw [patch_of_notMem h', patch_of_notMem h, patch_of_notMem (by simp [h, h'])]

theorem foldl_patch {α : Type} (f : α → Set Place) (l : List α) :
    l.foldl (fun w x => Contents.patch T (f x) w) w = Contents.patch T {i | ∃ x ∈ l, i ∈ f x} w := by
  induction l generalizing w with
  | nil => simp [patch_empty]
  | cons x l ih =>
      rw [List.foldl_cons, ih, patch_patch]
      congr 1
      ext i
      simp

theorem update_eq_patch : Function.update w i (T i) = Contents.patch T {i} w := by
  symm
  rw [Function.eq_update_iff]
  exact ⟨patch_of_mem (Set.mem_singleton i), fun j hj => patch_of_notMem hj⟩

theorem agree_patch {P : Set Place} {w' : Contents} (h : Agree P w w') (Z : Set Place) :
    Agree P (Contents.patch T Z w) (Contents.patch T Z w') := by
  intro i hi
  by_cases hz : i ∈ Z
  · rw [patch_of_mem hz, patch_of_mem hz]
  · rw [patch_of_notMem hz, patch_of_notMem hz]
    exact h i hi

end Contents

def Shared.look (s : Shared) : Contents
  | .scan app => s.handoff.lastScans.lookup app
  | .shown app => s.lastProcess.lookup app
  | .card socketId => (s.cache.lookup socketId).map (·.1)
  | .guard => some s.recent

theorem Shared.owners_congr {s s' : Shared} (h : s'.handoff = s.handoff) : s'.owners = s.owners := by
  funext app
  rw [owners, owners, h]

namespace Shared

variable (env : Env) (s : Shared)

theorem look_updateCache_card {payload : CachedActivity} {socketId : SocketId} (hc : payload.isClear = false)
    (hs : Table.size (s.cache.insert socketId (payload, s.activitySeq + 1)) ≤ maxCachedActivities) :
    (s.updateCache env payload socketId).look = Function.update s.look (.card socketId) (some payload) := by
  refine Function.eq_update_iff.mpr ⟨?_, fun i hi => ?_⟩
  · simp [look, updateCache_card _ _ _ _ hc, pruneCache_of_le hs]
  · cases i with
    | card k =>
        have hk : k ≠ socketId := fun h => hi (h ▸ rfl)
        simp [look, updateCache_card _ _ _ _ hc, pruneCache_of_le hs, hk]
    | _ => simp [look]

theorem look_updateCache_clear {payload : CachedActivity} {socketId : SocketId} (hc : payload.isClear = true) :
    (s.updateCache env payload socketId).look = Function.update s.look (.card socketId) none := by
  refine Function.eq_update_iff.mpr ⟨?_, fun i hi => ?_⟩
  · simp [look, updateCache_clear _ _ _ _ hc]
  · cases i with
    | card k =>
        have hk : k ≠ socketId := fun h => hi (h ▸ rfl)
        simp [look, updateCache_clear _ _ _ _ hc, hk]
    | _ => simp [look]

theorem look_track {app : AppId} {pid : Nat} (hs : Table.size s.lastProcess < maxHandoffEntries) :
    ({ s with lastProcess := trackProcessPublication env app pid s.lastProcess } : Shared).look =
      Function.update s.look (.shown app) (some pid) := by
  refine Function.eq_update_iff.mpr ⟨?_, fun i hi => ?_⟩
  · simp [look, trackProcessPublication, Table.insertBounded_of_room hs]
  · cases i with
    | shown a =>
        have ha : a ≠ app := fun h => hi (h ▸ rfl)
        simp [look, trackProcessPublication, Table.insertBounded_of_room hs, ha]
    | _ => rfl

theorem look_untrack (app : AppId) :
    ({ s with lastProcess := s.lastProcess.erase app } : Shared).look = Function.update s.look (.shown app) none := by
  refine Function.eq_update_iff.mpr ⟨?_, fun i hi => ?_⟩
  · simp [look]
  · cases i with
    | shown a =>
        have ha : a ≠ app := fun h => hi (h ▸ rfl)
        simp [look, ha]
    | _ => rfl

theorem look_noteScan {game : ScannedGame} (hs : Table.size s.handoff.lastScans < maxHandoffEntries) :
    ({ s with handoff := s.handoff.noteScan env (some game) } : Shared).look =
      Function.update s.look (.scan game.id) (some game) := by
  refine Function.eq_update_iff.mpr ⟨?_, fun i hi => ?_⟩
  · simp [look, HandoffState.noteScan, Table.insertBounded_of_room hs]
  · cases i with
    | scan a =>
        have ha : a ≠ game.id := fun h => hi (h ▸ rfl)
        simp [look, HandoffState.noteScan, Table.insertBounded_of_room hs, ha]
    | _ => rfl

theorem look_forgetScans :
    ({ s with handoff := s.handoff.noteScan env none } : Shared).look =
      Contents.patch .empty {i | ∃ app, i = .scan app} s.look := by
  funext i
  cases i with
  | scan app =>
      symm
      apply Contents.patch_of_mem
      exact ⟨app, rfl⟩
  | _ =>
      symm
      apply Contents.patch_of_notMem
      simp

theorem look_drain :
    ({ s with lastProcess := ∅ } : Shared).look = Contents.patch .empty {i | ∃ app, i = .shown app} s.look := by
  funext i
  cases i with
  | shown app =>
      symm
      apply Contents.patch_of_mem
      exact ⟨app, rfl⟩
  | _ =>
      symm
      apply Contents.patch_of_notMem
      simp

theorem look_noteRemove (app : AppId) (pid : Nat) :
    ({ s with handoff := (s.handoff.noteRemove app pid).2 } : Shared).look =
      Function.update s.look (.scan app)
        (if (s.look (.scan app)).map (·.pid) = some pid then none else s.look (.scan app)) := by
  refine Function.eq_update_iff.mpr ⟨?_, fun i hi => ?_⟩
  · by_cases hp : (s.handoff.lastScans.lookup app).map (·.pid) = some pid
    · simp only [look, HandoffState.noteRemove, if_pos hp, AList.lookup_erase]
      exact (if_pos hp).symm
    · simp only [look, HandoffState.noteRemove, if_neg hp]
      exact (if_neg hp).symm
  · cases i with
    | scan a =>
        have ha : a ≠ app := fun h => hi (h ▸ rfl)
        simp only [look, HandoffState.noteRemove]
        split
        next => simp [ha]
        next => rfl
    | _ => rfl

theorem look_recorded (C : Codec) (cmd : ActivityCmd) : (recorded C env cmd s).look =
    Function.update s.look .guard (some (guardAnswer C env cmd s).2) := by
  refine Function.eq_update_iff.mpr ⟨rfl, fun i hi => ?_⟩
  cases i with
  | guard => exact absurd rfl hi
  | _ => rfl

end Shared

structure Bounds where
  cards : List SocketId
  slots : List AppId
  scans : List AppId
  owners : List AppId

def Bounds.Has (B : Bounds) : Place → Prop
  | .scan app => app ∈ B.scans
  | .shown app => app ∈ B.slots
  | .card socketId => socketId ∈ B.cards
  | .guard => True

/-- What two operations that start in one state agree on: the keys either may
use, few enough for every table, and the commands among them. -/
structure Meeting where
  start : Shared
  bounds : Bounds
  cmds : List ActivityCmd
  cards : bounds.cards.length ≤ maxCachedActivities
  slots : bounds.slots.length < maxHandoffEntries
  scans : bounds.scans.length < maxHandoffEntries
  owners : bounds.owners.length < maxHandoffEntries

namespace Meeting

variable (M : Meeting)

/-- No key outside the bounds is in use, and a slot a clear can still give back
was its own from the start, with the game it had then or none. -/
structure Fair (w : Contents) (o : Owners) : Prop where
  places : ∀ i, (w i).isSome → M.bounds.Has i
  owners : ∀ app, (o app).isSome → app ∈ M.bounds.owners
  held : ∀ c ∈ M.cmds, ∀ app, isGenuineClear c = true → Releases c app → o app = some c.pid →
    M.start.owners app = some c.pid ∧
      (w (.scan app) = M.start.look (.scan app) ∨ w (.scan app) = none)

def Holds (s : Shared) : Prop := M.Fair s.look s.owners

def layout (W : Set Place) : Layout Shared Place Owners (fun i => Option i.Value) where
  look := Shared.look
  pivot := Shared.owners
  holds := M.Holds
  watched := W

def Unclaimed (app : AppId) : Prop :=
  ∀ c ∈ M.cmds, isGenuineClear c = true → Releases c app → M.start.owners app ≠ some c.pid

variable {M} {w : Contents} {o : Owners}

theorem Fair.update (h : M.Fair w o) {i : Place} {v : Option i.Value} (hv : v.isSome → M.bounds.Has i)
    (hscan : ∀ app, i = .scan app → v = none ∨ M.Unclaimed app) : M.Fair (Function.update w i v) o where
  places j hj := by
    by_cases hji : j = i
    · subst hji
      rw [Function.update_self] at hj
      exact hv hj
    · rw [Function.update_of_ne hji] at hj
      exact h.places j hj
  owners := h.owners
  held c hc app hg hr ho := by
    obtain ⟨hstart, hw⟩ := h.held c hc app hg hr ho
    refine ⟨hstart, ?_⟩
    by_cases hi : Place.scan app = i
    · subst hi
      rw [Function.update_self]
      exact (hscan app rfl).elim .inr fun hu => absurd hstart (hu c hc hg hr)
    · rwa [Function.update_of_ne hi]

theorem Fair.emptied (h : M.Fair w o) (Z : Set Place) : M.Fair (Contents.patch .empty Z w) o where
  places i hi := by
    by_cases hz : i ∈ Z
    · rw [Contents.patch_of_mem hz] at hi
      cases hi
    · rw [Contents.patch_of_notMem hz] at hi
      exact h.places i hi
  owners := h.owners
  held c hc app hg hr ho := by
    obtain ⟨hstart, hw⟩ := h.held c hc app hg hr ho
    refine ⟨hstart, ?_⟩
    by_cases hz : .scan app ∈ Z
    · exact .inr (Contents.patch_of_mem hz)
    · rwa [Contents.patch_of_notMem hz]

end Meeting

end RichPresence
