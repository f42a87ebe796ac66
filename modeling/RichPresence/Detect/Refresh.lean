import RichPresence.Detect.ContentHash
import RichPresence.Detect.Probing
import RichPresence.Detect.Trim
import RichPresence.Lib.Guarded

namespace RichPresence.Detect

open Lib

/-- A call of one of the functions that change the detection database. -/
inductive Update
  | updateMainDetectables (detectable : List DetectableActivity)
  | appendDetectables (detectable : List DetectableActivity)
  | removeDetectableByName (name : String)

namespace Update

-- An empty main list is turned away before the lock is taken.
def refused : Update → Bool
  | updateMainDetectables detectable => detectable.isEmpty
  | _ => false

def main : Update → Option (List ScannedEntry)
  | updateMainDetectables detectable => some (detectable.map .fromActivity)
  | _ => none

def editCustom : Update → List ScannedEntry → List ScannedEntry
  | updateMainDetectables _, custom => custom
  | appendDetectables detectable, custom => custom ++ detectable.map .fromActivity
  | removeDetectableByName name, custom => custom.filter (·.name != name)

/-- The next generation, from the one that was loaded. -/
def rebuild (platform : Platform) : Update → DetectablesBundle → DetectablesBundle
  | updateMainDetectables detectable, current =>
      buildBundle platform (detectable.map .fromActivity) current.custom
  | update, current => buildBundle platform current.list (update.editCustom current.custom)

end Update

abbrev Database := Guarded Update DetectablesBundle

def DetectablesBundle.empty : DetectablesBundle where
  list := []
  ac := []
  indexes := []
  protonAc := none
  protonIndexes := []
  steamMap := {}
  nameMap := {}
  nameMapNodot := {}
  custom := []
  customAc := none
  customIndexes := []

def initialBundle (platform : Platform) (builds : Bool) (detectable custom : List DetectableActivity) :
    DetectablesBundle :=
  if builds then buildBundle platform (detectable.map .fromActivity) (custom.map .fromActivity) else .empty

def Database.run (platform : Platform) (initial : DetectablesBundle) (steps : List (Nat × WriterStep Update)) :
    Database :=
  steps.foldl (Guarded.step Update.refused (Update.rebuild platform)) { cell := initial }

/-- Each index names an executable that is there and is no launcher, and belongs to
one pattern. -/
def Resolving (entries : List ScannedEntry) (ac : List Path) (indexes : List PatternIndex) : Prop :=
  ac.length = indexes.length ∧ ∀ index ∈ indexes, ∃ obj exe, entries[index.1]? = some obj ∧
    obj.executables[index.2]? = some exe ∧ exe.isLauncher = false

structure DetectablesBundle.Consistent (bundle : DetectablesBundle) : Prop where
  native : Resolving bundle.list bundle.ac bundle.indexes
  proton : Resolving bundle.list (bundle.protonAc.getD []) bundle.protonIndexes
  custom : Resolving bundle.custom (bundle.customAc.getD []) bundle.customIndexes

section Indexes

theorem resolving_collectPatterns (eligible : ScannedExe → Bool) (entries : List ScannedEntry) :
    Resolving entries ((collectPatterns eligible entries).map Prod.fst)
      ((collectPatterns eligible entries).map Prod.snd) := by
  refine ⟨by rw [List.length_map, List.length_map], fun index hindex => ?_⟩
  obtain ⟨⟨pattern, _⟩, hmem, rfl⟩ := List.mem_map.mp hindex
  obtain ⟨obj, exe, hobj, hidx, _⟩ := mem_collectPatterns.mp hmem
  exact ⟨obj, exe, hobj, hidx.executable, hidx.noLauncher⟩

theorem resolving_optional {entries : List ScannedEntry} {patterns : List (Path × PatternIndex)} {none? : Bool}
    (hnone : none? = true → patterns = [])
    (h : Resolving entries (patterns.map Prod.fst) (patterns.map Prod.snd)) :
    Resolving entries ((if none? then none else some (patterns.map Prod.fst)).getD []) (patterns.map Prod.snd) := by
  cases none? with
  | false => exact h
  | true =>
      rw [hnone rfl] at h ⊢
      exact h

theorem buildBundle_consistent (platform : Platform) (detectable custom : List ScannedEntry) :
    (buildBundle platform detectable custom).Consistent where
  native := resolving_collectPatterns _ _
  proton := resolving_optional List.isEmpty_iff.mp (resolving_collectPatterns _ _)
  custom := by
    refine resolving_optional (fun hnone => ?_) (resolving_collectPatterns _ _)
    rw [List.isEmpty_iff.mp hnone]
    rfl

end Indexes

section Runs

variable (platform : Platform)

theorem initialBundle_eq (builds : Bool) (detectable custom : List DetectableActivity) :
    ∃ main edited, initialBundle platform builds detectable custom = buildBundle platform main edited := by
  cases builds with
  | false => exact ⟨[], [], rfl⟩
  | true => exact ⟨_, _, rfl⟩

theorem rebuild_buildBundle (update : Update) (main custom : List ScannedEntry) :
    update.rebuild platform (buildBundle platform main custom) =
      buildBundle platform (update.main.getD main) (update.editCustom custom) := by
  cases update with
  | updateMainDetectables | appendDetectables | removeDetectableByName => rfl

theorem foldl_rebuild (updates : List Update) (main custom : List ScannedEntry) :
    updates.foldl (fun bundle update => update.rebuild platform bundle) (buildBundle platform main custom) =
      buildBundle platform ((updates.filterMap Update.main).getLast?.getD main)
        (updates.foldl (fun custom update => update.editCustom custom) custom) := by
  induction updates generalizing main custom with
  | nil => rfl
  | cons update updates ih =>
      rw [List.foldl_cons, rebuild_buildBundle, ih, List.foldl_cons]
      cases hmain : update.main with
      | none => rw [List.filterMap_cons_none hmain, Option.getD_none]
      | some new => rw [List.filterMap_cons_some hmain, List.getLast?_cons, Option.getD_some, Option.getD_some]

theorem linear_run (initial : DetectablesBundle) (steps : List (Nat × WriterStep Update)) :
    Guarded.Linear (Update.rebuild platform) initial (Database.run platform initial steps) := by
  refine Along.invariant (P := fun _ _ => True) (Guarded.Linear (Update.rebuild platform) initial)
    (fun s e h _ => h.step e) (Guarded.linear_init initial) (Along.of_forall fun _ _ => trivial)

end Runs

/-- Whatever the writers' steps interleave to: with no writer in its section the
bundle has the last accepted main list and every accepted edit of the custom list,
in the order of the lock; and every bundle that can be loaded on the way is built
from one pair of lists, its indexes resolved. -/
theorem writers_lose_nothing (platform : Platform) (builds : Bool) (detectable custom : List DetectableActivity)
    (steps : List (Nat × WriterStep Update)) :
    let initial := initialBundle platform builds detectable custom
    let database := Database.run platform initial steps
    ((∀ thread, ¬Guarded.InSection (database.phase thread)) →
      database.cell.custom =
        (accepted database.log).foldl (fun custom update => update.editCustom custom) initial.custom ∧
      database.cell.list = ((accepted database.log).filterMap Update.main).getLast?.getD initial.list) ∧
    ∀ past, past <+: steps →
      (∃ main custom, (Database.run platform initial past).cell = buildBundle platform main custom) ∧
        (Database.run platform initial past).cell.Consistent := by
  obtain ⟨main, edited, hinitial⟩ := initialBundle_eq platform builds detectable custom
  rw [hinitial]
  refine ⟨fun hquiet => ?_, fun past _ => ?_⟩
  · rw [(linear_run platform _ steps).settled hquiet, Guarded.replay, foldl_rebuild]
    exact ⟨rfl, rfl⟩
  · obtain ⟨log, _, hcell⟩ := (linear_run platform (buildBundle platform main edited) past).cell_eq
    rw [hcell, Guarded.replay, foldl_rebuild]
    exact ⟨⟨_, _, rfl⟩, buildBundle_consistent ..⟩

section Overlap

def namedActivity (name : String) : DetectableActivity := { hook := false, id := name, name }

/-- An append and a refresh that want the lock at the same time, and a removal whose
build fails. -/
def overlappingWriters : List (Nat × WriterStep Update) :=
  [(0, .call (.appendDetectables [namedActivity "Hades"])),
    (1, .call (.updateMainDetectables [namedActivity "Portal"])),
    (0, .lock), (1, .lock), (0, .load), (1, .load), (0, .build true), (0, .store), (1, .lock), (0, .unlock),
    (1, .lock), (1, .load), (0, .call (.removeDetectableByName "Hades")), (1, .build true), (1, .store),
    (1, .unlock), (0, .lock), (0, .load), (0, .build false), (0, .unlock)]

theorem overlappingWriters_lose_nothing :
    let database := Database.run .linux (initialBundle .linux true [] []) overlappingWriters
    database.cell.custom = [.fromActivity (namedActivity "Hades")] ∧
      database.cell.list = [.fromActivity (namedActivity "Portal")] := by
  refine (writers_lose_nothing .linux true [] [] overlappingWriters).1 fun thread => ?_
  match thread with
  | 0 => exact id
  | 1 => exact id
  | _ + 2 => exact id

end Overlap

/-- What the refresh takes from libraries: the reader of JSON text, the text form of
a value, and the hasher's last step. -/
structure Source where
  readJson : String → Option Value
  display : Display
  finish : Bytes → UInt64

namespace Source

variable (S : Source)

def bodyHash (body : String) : UInt64 := S.finish (hashStr body)

def parseBody (body : String) : Except RsrpcError (List DetectableActivity) :=
  match S.readJson body with
  | none => .error .invalidJson
  | some value => (parseDatabase S.display value).map Prod.fst

def contentHashOf (parsed : List DetectableActivity) : UInt64 := canonicalContentHash S.finish parsed

def contentHashes (rawBody : String) (parsed : List DetectableActivity) : UInt64 × UInt64 :=
  (S.bodyHash rawBody, S.contentHashOf parsed)

end Source

inductive Answer
  | notModified
  | served (etag : Option String) (body : String)
  | failed

inductive FetchError
  | http
  | database (error : RsrpcError)
  deriving DecidableEq, Repr

inductive FetchOutcome
  | unchanged
  | sameContent (etag : Option String) (contentHash trimmedHash : UInt64)
  | updated (etag : Option String) (contentHash trimmedHash : UInt64) (detectable : List DetectableActivity)

structure Validators where
  etag : Option String := none
  contentHash : Option UInt64 := none
  trimmedHash : Option UInt64 := none
  deriving DecidableEq, Repr

structure RefreshConfig where
  etag : Option String := none
  contentHash : Option (UInt64 × UInt64) := none

def RefreshConfig.seeds (config : RefreshConfig) : Validators :=
  ⟨config.etag, config.contentHash.map Prod.fst, config.contentHash.map Prod.snd⟩

def finishFetch (S : Source) (etag : Option String) (contentHash : UInt64) (knownTrimmed : Option UInt64)
    (detectable : List DetectableActivity) : FetchOutcome :=
  let trimmedHash := S.contentHashOf detectable
  if knownTrimmed = some trimmedHash then .sameContent etag contentHash trimmedHash
  else .updated etag contentHash trimmedHash detectable

/-- The answer is the server's to the request that carries the known ETag. -/
def fetchDetectableEtag (S : Source) (knownRaw knownTrimmed : Option UInt64) :
    Answer → Except FetchError FetchOutcome
  | .failed => .error .http
  | .notModified => .ok .unchanged
  | .served etag body =>
      let contentHash := S.bodyHash body
      if knownRaw = some contentHash then .ok (.sameContent etag contentHash (knownTrimmed.getD contentHash))
      else
        match S.parseBody body with
        | .error error => .error (.database error)
        | .ok parsed => .ok (finishFetch S etag contentHash knownTrimmed parsed)

def updateMainDetectables (platform : Platform) (builds : Bool) (detectable : List DetectableActivity)
    (bundle : DetectablesBundle) : Bool × DetectablesBundle :=
  let update := Update.updateMainDetectables detectable
  if update.refused || !builds then (false, bundle) else (true, update.rebuild platform bundle)

structure Refresh where
  bundle : DetectablesBundle
  known : Validators

/-- One hourly check: the body the server has, what it answers, and whether a bundle
built from it would build. -/
structure Check where
  current : String
  answer : Answer
  builds : Bool

inductive CheckResult
  | unchanged
  | sameContent
  | updated
  | refused
  | failed (error : FetchError)
  deriving DecidableEq, Repr

namespace Refresh

variable (S : Source) (platform : Platform)

def check (s : Refresh) (c : Check) : CheckResult × Refresh :=
  match fetchDetectableEtag S s.known.contentHash s.known.trimmedHash c.answer with
  | .ok .unchanged => (.unchanged, s)
  | .ok (.sameContent etag contentHash trimmedHash) =>
      (.sameContent, { s with known := ⟨etag, some contentHash, some trimmedHash⟩ })
  | .ok (.updated etag contentHash trimmedHash detectable) =>
      let (swapped, bundle) := updateMainDetectables platform c.builds detectable s.bundle
      -- a refused swap leaves the validators behind
      if swapped then (.updated, ⟨bundle, ⟨etag, some contentHash, some trimmedHash⟩⟩) else (.refused, s)
  | .error error => (.failed error, s)

inductive Event
  | check (c : Check)
  | edit (update : Update)

/-- Other threads edit the custom list between two checks; the main list is changed
by the refresh only. -/
def step (s : Refresh) : Event → Refresh
  | .check c => (s.check S platform c).2
  | .edit update => if update.main.isSome then s else { s with bundle := update.rebuild platform s.bundle }

end Refresh

end RichPresence.Detect
