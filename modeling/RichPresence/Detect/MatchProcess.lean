import RichPresence.Detect.Classify

namespace RichPresence.Detect

open Lib

/-- The path of a process with one kind of separator and one in front. -/
def slashed (path : Path) : Path :=
  match path.map foldSeparator with
  | '/' :: rest => '/' :: rest
  | path => '/' :: path

def Exec.processPath (process : Exec) : Path := slashed process.path.toList

def Exec.basename (process : Exec) : Path :=
  lower ((components process.processPath).getLast?.getD process.processPath)

namespace Host

variable (host : Host) (bundle : DetectablesBundle) (process : Exec)

def appId : Option AppId := (host.cachedAppId process.pid).or (appIdFromArgs process.arguments)

def nonSteam : Bool := (host.appId process).any fun id => isShortcutId id.text

def storeHit (source : DetectSource) (appId : Option String) : Option ScannedHit :=
  host.matchSteamId bundle process.pid appId (lower process.processPath) source

def nameHit : Option ScannedHit := host.matchNameOrFolder bundle (lower process.processPath) process.pid

/-- The tiers behind the Proton automaton: where Steam has installed the game,
then its name. -/
def lastTiers : Option ScannedHit :=
  match host.storeHit bundle process .steamLibrary (host.steamPrefixAppId (lower process.processPath)) with
  | some hit => some hit
  | none => if host.nonSteam process then none else host.nameHit bundle process

def protonTier (refused : Bool) (joined : Option Path) : Option ScannedHit :=
  let proton := host.probeVariants bundle (joined.getD process.processPath) true
  match proton.takeHit with
  | some (obj, exeIndex) => host.finishDirectHit obj exeIndex process .protonAutomaton
  | none => if refused || proton.isRefused then none else host.lastTiers bundle process

/-- What follows when no path has settled the process: the store id and, for a
shortcut, the name before the Proton automaton. -/
def tailTiers (refused : Bool) (joined : Option Path) : Option ScannedHit :=
  match host.storeHit bundle process .steamAppId ((host.appId process).map AppId.text) with
  | some hit => some hit
  | none =>
      match if refused then none else if host.nonSteam process then host.nameHit bundle process else none with
      | some hit => some hit
      | none => host.protonTier bundle process refused joined

theorem tailTiers_eq_or (refused : Bool) (joined : Option Path) :
    host.tailTiers bundle process refused joined =
      (host.storeHit bundle process .steamAppId ((host.appId process).map AppId.text)).or
        ((if refused then none else if host.nonSteam process then host.nameHit bundle process else none).or
          (host.protonTier bundle process refused joined)) := by
  have hor (first second : Option ScannedHit) :
      (match first with | some hit => some hit | none => second) = first.or second := by cases first <;> rfl
  rw [tailTiers, hor, hor]

def classify : Option ScannedHit :=
  let direct := host.directProbe bundle process.pid process.processPath
  match direct.found.takeHit with
  | some (obj, exeIndex) => host.finishDirectHit obj exeIndex process direct.source
  | none => host.tailTiers bundle process direct.refused direct.joined

def skips : Bool :=
  host.exclusions.isExcluded (String.ofList process.basename) || isSteamSidecar process.basename

/-- One process is classified; on the way it is noted whether it is OBS. -/
def matchProcess (obsOpen : Bool) : Option ScannedHit × Bool :=
  if host.skips process then (none, obsOpen)
  else (host.classify bundle process,
    obsOpen || decide ("obs64".toList <:+: process.processPath) ||
      decide ("streamlabs".toList <:+: process.processPath))

def candidatePath : Option Path :=
  (bareExe process.processPath).bind fun exe =>
    (host.readCwd process.pid).map fun cwd => cwd.toList ++ '/' :: exe

def probedStrings : List Path :=
  pathVariants process.processPath ++ ((host.candidatePath process).map pathVariants).getD []

section Direct

variable {host bundle process}

theorem directProbe_joined {candidate : Path}
    (hfound : (host.probeVariants bundle process.processPath false).takeHit = none)
    (hcandidate : host.candidatePath process = some candidate) :
    host.directProbe bundle process.pid process.processPath =
      let again := host.probeVariants bundle candidate false
      let refused := (host.probeVariants bundle process.processPath false).isRefused || again.isRefused
      if again.takeHit.isSome then ⟨again, refused, .cwdJoined, none⟩
      else ⟨again, refused, .automaton, some candidate⟩ := by
  obtain ⟨exe, hexe, hjoin⟩ := Option.bind_eq_some_iff.mp hcandidate
  obtain ⟨cwd, hcwd, rfl⟩ := Option.map_eq_some_iff.mp hjoin
  rw [directProbe]
  simp only [hfound, hexe, hcwd]

theorem directProbe_plain
    (h : (host.probeVariants bundle process.processPath false).takeHit ≠ none ∨ host.candidatePath process = none) :
    host.directProbe bundle process.pid process.processPath =
      ⟨host.probeVariants bundle process.processPath false,
        (host.probeVariants bundle process.processPath false).isRefused, .automaton, none⟩ := by
  rw [directProbe]
  dsimp only
  split
  next hfound hexe hcwd =>
      rw [candidatePath, hexe, Option.bind_some, hcwd] at h
      rcases h with h | h
      · exact absurd hfound h
      · cases h
  next => rfl

end Direct

def bare : Host where
  matcher := .naive Char.toLower
  readCwd _ := none
  cachedAppId _ := none
  isSuspended _ _ := false
  steamPrefixAppId _ := none
  epochMs := 1763199000000

end Host

end RichPresence.Detect
