import RichPresence.Detect.Database
import RichPresence.Detect.Naming
import RichPresence.Lib.Bisect
import Mathlib.Data.List.Sort

namespace RichPresence.Detect

open Lib

/-- What the build is for; any other system takes every tag. -/
inductive Platform
  | windows
  | macos
  | linux
  | other
  deriving DecidableEq, Repr

def osMatches : Platform → String → Bool
  | .windows, os => os = "win32"
  | .macos, os => os = "darwin"
  | .linux, os => os = "linux"
  | .other, _ => true

structure SortedIndex where
  entries : List (String × Nat) := []
  deriving Repr

namespace SortedIndex

/-- Of the entries with one key the first is kept. -/
def dedupKeys : List (String × Nat) → List (String × Nat)
  | [] => []
  | e :: rest => e :: (dedupKeys rest).dropWhile fun f => f.1 = e.1

def build (entries : List (String × Nat)) : SortedIndex :=
  ⟨dedupKeys (entries.insertionSort fun a b => a.1 ≤ b.1)⟩

def get (index : SortedIndex) (key : String) : Option Nat :=
  match binarySearchBy (fun e => compareOfLessAndEq e.1 key) index.entries with
  | .ok idx => (index.entries[idx]?).map Prod.snd
  | .error _ => none

end SortedIndex

def forbiddenNameChars : List Char := ['<', '>', ':', '"', '/', '\\', '|', '?', '*']

def joinWords (words : List Path) : Path := [' '].intercalate (words.filter (!·.isEmpty))

def normalizeName (name : String) : String :=
  let plain := (lower (trim name.toList)).map fun c => if forbiddenNameChars.contains c then ' ' else c
  String.ofList (joinWords (plain.splitOnP isWhiteSpace))

def normalizeLowered (name : Path) : Path :=
  joinWords (name.splitOnP fun c => isWhiteSpace c || forbiddenNameChars.contains c)

def normalizeLoweredDedotted (name : Path) : Path :=
  joinWords (name.splitOnP fun c => isWhiteSpace c || c = '.' || forbiddenNameChars.contains c)

def nameMatchable (normalized : Path) : Bool := normalized.contains ' ' && 6 ≤ normalized.length

def dedot (name : String) : String :=
  String.ofList (joinWords ((name.toList.map fun c => if c = '.' then ' ' else c).splitOnP isWhiteSpace))

def collectNames (detectables : List ScannedEntry) : List (String × Nat) :=
  detectables.zipIdx.flatMap fun activity =>
    ((activity.1.name :: activity.1.aliases).map normalizeName).filterMap fun normalized =>
      if nameMatchable normalized.toList then some (normalized, activity.2) else none

def collectSteamIds (detectables : List ScannedEntry) : List (String × Nat) :=
  detectables.zipIdx.flatMap fun activity =>
    (activity.1.steamIds.filter (· ≠ "")).map fun id => (id, activity.2)

def undottedNames (nameMap : SortedIndex) : SortedIndex :=
  let dotted := (nameMap.entries.filter fun e => e.1.toList.contains '.').insertionSort fun a b => a.2 ≤ b.2
  .build (dotted.map fun e => (dedot e.1, e.2))

/-- A declared name as a reversed pattern with a leading separator. -/
def normalizeExePattern (name : Path) : Path :=
  let execName := match name.map foldSeparator with
    | '>' :: rest => '/' :: rest
    | '/' :: rest => '/' :: rest
    | name => '/' :: name
  execName.reverse

/-- Where a pattern comes from: the entry and, in it, the executable. -/
abbrev PatternIndex := Nat × Nat

/-- The patterns of the executables that no launcher flag and no `eligible`
rules out. A name that comes down to a separator would match every path. -/
def collectPatterns (eligible : ScannedExe → Bool) (detectables : List ScannedEntry) :
    List (Path × PatternIndex) :=
  detectables.zipIdx.flatMap fun activity =>
    activity.1.executables.zipIdx.filterMap fun executable =>
      let pattern := normalizeExePattern executable.1.name.toList
      if executable.1.isLauncher || !eligible executable.1 || pattern = ['/'] then none
      else some (pattern, (activity.2, executable.2))

def nativePatterns (platform : Platform) : List ScannedEntry → List (Path × PatternIndex) :=
  collectPatterns fun exe => exe.os = .empty || osMatches platform exe.os.asStr

def protonPatterns (platform : Platform) : List ScannedEntry → List (Path × PatternIndex) :=
  collectPatterns fun exe => platform = .linux && exe.os = .win32

def customPatterns : List ScannedEntry → List (Path × PatternIndex) := collectPatterns fun _ => true

structure DetectablesBundle where
  list : List ScannedEntry
  ac : List Path
  indexes : List PatternIndex
  protonAc : Option (List Path)
  protonIndexes : List PatternIndex
  steamMap : SortedIndex
  nameMap : SortedIndex
  nameMapNodot : SortedIndex
  custom : List ScannedEntry
  customAc : Option (List Path)
  customIndexes : List PatternIndex

def buildBundle (platform : Platform) (detectable custom : List ScannedEntry) : DetectablesBundle :=
  let native := nativePatterns platform detectable
  let proton := protonPatterns platform detectable
  let nameMap := SortedIndex.build (collectNames detectable)
  { list := detectable
    ac := native.map Prod.fst
    indexes := native.map Prod.snd
    protonAc := if proton.isEmpty then none else some (proton.map Prod.fst)
    protonIndexes := proton.map Prod.snd
    steamMap := .build (collectSteamIds detectable)
    nameMap := nameMap
    nameMapNodot := undottedNames nameMap
    custom := custom
    customAc := if custom.isEmpty then none else some ((customPatterns custom).map Prod.fst)
    customIndexes := (customPatterns custom).map Prod.snd }

def markers : List Path := ["64".toList, ".x64".toList, "x64".toList, "_64".toList]

/-- Every occurrence of the marker is cut out; the counter passes over the one
that was just found. -/
def removeMarker (marker : Path) : Nat → Path → Path
  | _, [] => []
  | skip + 1, _ :: rest => removeMarker marker skip rest
  | 0, c :: rest =>
      if marker.isPrefixOf (c :: rest) then removeMarker marker (marker.length - 1) rest
      else c :: removeMarker marker 0 rest

def pathVariants (path : Path) : List Path :=
  markers.foldl (fun filled marker =>
    let candidate := removeMarker marker 0 path
    if marker <:+: path ∧ candidate ≠ path ∧ candidate ∉ filled then filled ++ [candidate] else filled) [path]

theorem pathVariants_cons (path : Path) : ∃ stripped, pathVariants path = path :: stripped := by
  have hfold (ms : List Path) (filled : List Path) :
      ∃ stripped, ms.foldl (fun filled marker =>
        let candidate := removeMarker marker 0 path
        if marker <:+: path ∧ candidate ≠ path ∧ candidate ∉ filled then filled ++ [candidate] else filled)
        (path :: filled) = path :: stripped := by
    induction ms generalizing filled with
    | nil => exact ⟨filled, rfl⟩
    | cons marker ms ih =>
        rw [List.foldl_cons]
        dsimp only
        split
        · exact ih (filled ++ [removeMarker marker 0 path])
        · exact ih filled
  exact hfold markers []

def bareExe (normalizedPath : Path) : Option Path :=
  let trimmed := match normalizedPath with
    | '/' :: rest => rest
    | path => path
  if trimmed.isEmpty || trimmed.contains '/' then none else some trimmed

end RichPresence.Detect
