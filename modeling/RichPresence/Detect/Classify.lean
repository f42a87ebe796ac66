import RichPresence.Detect.Bundle
import RichPresence.Detect.SnapshotLane
import RichPresence.Lib.Deletion
import RichPresence.Lib.Matcher

namespace RichPresence.Detect

open Lib

structure Exec where
  pid : Nat
  path : String
  arguments : Option String := none
  deriving DecidableEq, Repr

/-- The regular expressions are given by what they match. -/
structure Exclusions where
  executables : List String := []
  patterns : Option (String → Bool) := none

def Exclusions.isExcluded (exclusions : Exclusions) (basename : String) : Bool :=
  exclusions.executables.contains basename || exclusions.patterns.any (· basename)

/-- What the scanner asks of its surroundings. Each tier asks for itself whether
the process is suspended. -/
structure Host where
  matcher : Matcher Char.toLower
  exclusions : Exclusions := {}
  readCwd : Nat → Option String
  cachedAppId : Nat → Option AppId
  isSuspended : Nat → DetectSource → Bool
  steamPrefixAppId : Path → Option String
  epochMs : Nat

def steamSidecarBasenames : List String :=
  ["steamapprun", "fossilize", "wineserver", "wineboot", "proton", "protonfixes", "pressure-vessel",
    "pressure-vessel-arm64", "bwrap", "steamwebhelper", "steam-runtime", "pv-wrap", "run-in-soldier"]

def matchesSidecarFamily (basename base : Path) : Bool :=
  base.isPrefixOf basename && ((basename.drop base.length).head?.any fun c => c = '-' || c = '_')

def isSteamSidecar (basename : Path) : Bool :=
  steamSidecarBasenames.contains (String.ofList basename) || matchesSidecarFamily basename "fossilize".toList ||
    matchesSidecarFamily basename "steam-runtime".toList || matchesSidecarFamily basename "pv-wrap".toList

def isShortcutId (appId : String) : Bool :=
  (parseU64 appId).any fun id => id < 2 ^ 32 && 2 ^ 31 ≤ id

def appIdToken : Path := "AppId=".toList

/-- The turns of the search for an id: every token cuts the text behind it, whether or not it gives
one. -/
def appIdLoop : Nat → Path → Option Path
  | 0, _ => none
  | fuel + 1, rest =>
      match findSub appIdToken rest with
      | none => none
      | some pos =>
          let boundary := pos == 0 || (rest.take pos).getLast?.all fun c => !c.isAlphanum
          let rest := rest.drop (pos + appIdToken.length)
          if !boundary then appIdLoop fuel rest
          else
            let digits := rest.takeWhile Char.isDigit
            if 0 < digits.length then some digits else appIdLoop fuel rest

def appIdFromArgs (arguments : Option String) : Option AppId := do
  let args ← arguments
  let digits ← appIdLoop args.toList.length args.toList
  return ⟨String.ofList digits⟩

def exeStem (normalizedPath : Path) : Path :=
  let base := (components normalizedPath).getLast?.getD normalizedPath
  match (base.reverse.dropWhile (· ≠ '.')).tail with
  | [] => base
  | stem => stem.reverse

def argvNamesAnExecutable (processPath : Path) (obj : ScannedEntry) : Bool :=
  obj.executables.isEmpty ||
    (obj.executables.filter fun exe => !exe.isLauncher).any fun exe => exeNamesPath processPath exe.name.toList

/-- Declared arguments have to occur in the command line. -/
def hasArguments (process : Exec) (executable : ScannedExe) : Bool :=
  executable.arguments.all fun declared => process.arguments.any fun args => decide (declared.toList <:+: args.toList)

namespace Host

variable (host : Host) (bundle : DetectablesBundle)

def liveOrNone (obj : ScannedEntry) (pid : Nat) (source : DetectSource) : Option ScannedHit :=
  if host.isSuspended pid source then none else some ⟨obj, pid, host.epochMs, source⟩

def finishDirectHit (obj : ScannedEntry) (exeIndex : Nat) (process : Exec) (source : DetectSource) :
    Option ScannedHit := do
  let executable ← obj.executables[exeIndex]?
  if hasArguments process executable then host.liveOrNone obj process.pid source else none

def matchSteamId (pid : Nat) (appId : Option String) (processPath : Path) (source : DetectSource) :
    Option ScannedHit := do
  let appId ← appId
  match bundle.steamMap.get appId with
  | some index => do
      let obj ← bundle.list[index]?
      if argvNamesAnExecutable processPath obj then host.liveOrNone obj pid source else none
  | none => do
      let obj ← bundle.custom.find? fun obj => obj.steamIds.contains appId && argvNamesAnExecutable processPath obj
      host.liveOrNone obj pid source

def lookupName (map : SortedIndex) (name : Path) : Option ScannedEntry :=
  if nameMatchable name then (map.get (String.ofList name)).bind fun index => bundle.list[index]? else none

/-- The stem of the executable, then its folders from the nearest on; those with
a dot in their name come last. -/
def matchNameOrFolder (processPath : Path) (pid : Nat) : Option ScannedHit :=
  let folders := (components processPath).reverse.drop 1
  match lookupName bundle bundle.nameMap (exeStem processPath) with
  | some obj => host.liveOrNone obj pid .exeStem
  | none =>
      let plain := folders.findSome? fun folder =>
        if folder.contains '.' then none else lookupName bundle bundle.nameMap (normalizeLowered folder)
      let dotted := folders.findSome? fun folder =>
        if folder.contains '.' then lookupName bundle bundle.nameMapNodot (normalizeLoweredDedotted folder) else none
      (plain.or dotted).bind fun obj => host.liveOrNone obj pid .folder

end Host

inductive MatchOutcome
  | corroborated (obj : ScannedEntry) (exeIndex : Nat)
  | refused
  | noMatch
  deriving DecidableEq, Repr

namespace MatchOutcome

def takeHit : MatchOutcome → Option (ScannedEntry × Nat)
  | corroborated obj exeIndex => some (obj, exeIndex)
  | _ => none

def isRefused : MatchOutcome → Bool
  | refused => true
  | _ => false

end MatchOutcome

def namedBy (variant : Path) (candidate : ScannedEntry × Nat) : Bool :=
  candidate.1.executables[candidate.2]?.any fun exe => exeNamesPath variant exe.name.toList

/-- The first match that names the string; others are refused on the way. -/
def firstHitNamingPath (probe : List (ScannedEntry × Nat)) (variant : Path) : MatchOutcome :=
  match probe.find? (namedBy variant) with
  | some (obj, exeIndex) => .corroborated obj exeIndex
  | none => if probe.isEmpty then .noMatch else .refused

/-- A walk over several outcomes ends at the first hit and remembers a refusal. -/
def settle : List MatchOutcome → MatchOutcome
  | [] => .noMatch
  | .corroborated obj exeIndex :: _ => .corroborated obj exeIndex
  | .noMatch :: rest => settle rest
  | .refused :: rest =>
      match settle rest with
      | .noMatch => .refused
      | outcome => outcome

namespace Host

variable (host : Host) (bundle : DetectablesBundle)

def probe (patterns : List Path) (indexes : List PatternIndex) (entries : List ScannedEntry) (variant : Path) :
    List (ScannedEntry × Nat) :=
  (host.matcher.find patterns variant.reverse).filterMap fun found => do
    let pair ← indexes[found.pattern]?
    let obj ← entries[pair.1]?
    some (obj, pair.2)

def mainProbe (variant : Path) : List (ScannedEntry × Nat) :=
  host.probe bundle.ac bundle.indexes bundle.list variant

def customProbe (variant : Path) : List (ScannedEntry × Nat) :=
  bundle.customAc.elim [] fun ac => host.probe ac bundle.customIndexes bundle.custom variant

def protonProbe (variant : Path) : List (ScannedEntry × Nat) :=
  bundle.protonAc.elim [] fun ac => host.probe ac bundle.protonIndexes bundle.list variant

/-- Automata outside, variants inside: the main database comes before the
overrides for every variant. -/
def probeVariants (path : Path) (proton : Bool) : MatchOutcome :=
  let passes :=
    if proton then [host.protonProbe bundle]
    else if bundle.customAc.isNone then [host.mainProbe bundle]
    else [host.mainProbe bundle, host.customProbe bundle]
  settle (passes.flatMap fun probe =>
    (pathVariants path).map fun variant => firstHitNamingPath (probe variant) variant)

structure DirectProbe where
  found : MatchOutcome
  refused : Bool
  source : DetectSource
  joined : Option Path

/-- The path as it is and, for a bare executable that it does not settle, joined
with the working directory. -/
def directProbe (pid : Nat) (path : Path) : DirectProbe :=
  let found := host.probeVariants bundle path false
  match found.takeHit, bareExe path, host.readCwd pid with
  | none, some exe, some cwd =>
      let candidate := cwd.toList ++ '/' :: exe
      let again := host.probeVariants bundle candidate false
      let refused := found.isRefused || again.isRefused
      if again.takeHit.isSome then ⟨again, refused, .cwdJoined, none⟩
      else ⟨again, refused, .automaton, some candidate⟩
  | _, _, _ => ⟨found, found.isRefused, .automaton, none⟩

end Host

end RichPresence.Detect
