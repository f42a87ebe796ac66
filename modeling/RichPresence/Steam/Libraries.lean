import RichPresence.Lib.Merge
import RichPresence.Lib.Uniq
import RichPresence.Steam.Mounts
import RichPresence.Steam.Scan

namespace RichPresence.Steam

open Lib

namespace Path

def parent (path : Path) : Option Path :=
  if path.components.isEmpty then none
  else path.inits.find? fun front =>
    front.isAbsolute == path.isAbsolute && front.components == path.components.dropLast

def fileName (path : Path) : Option Path :=
  path.components.getLast?.filter fun name => name ≠ ".".toList && name ≠ "..".toList

end Path

/-- The machine at one moment: its files and the environment of the process. No entry of a
directory has an empty name. -/
structure World extends Files where
  var : String → Option Path
  named : ∀ dir entries, readDir dir = some entries → some [] ∉ entries

def addPath (paths : List Path) (path : Path) : List Path := if paths.any path.same then paths else paths ++ [path]

def foldersFile : Path := "libraryfolders.vdf".toList

namespace World

variable (world : World)

def customRoot : Option Path := do
  let custom ← world.var "RSRPC_STEAM_ROOT"
  if world.isDir custom then some custom else none

def walkUp : Nat → Option Path → Option Path
  | 0, _ | _, none => none
  | turns + 1, some dir => if world.isDir (dir.join steamapps) then some dir else walkUp turns dir.parent

def walkUpForSteamapps (start : Path) : Option Path := world.walkUp 6 (some start)

def addAbove (roots : List Path) (binary : Path) : List Path :=
  match binary.parent.bind world.walkUpForSteamapps with
  | some root => addPath roots root
  | none => roots

def binaries : List Path := ["steam".toList, "steamcmd".toList]

def procDir : Path := "/proc".toList

def runningSteamRoots : List Path :=
  ((world.names procDir).getD []).foldl
    (fun roots pid =>
      if !isNumber pid then roots
      else
        match world.readLink ((procDir.join pid).join "exe".toList) with
        | none => roots
        | some exe => if exe.fileName.getD [] ∉ binaries then roots else world.addAbove roots exe) []

def pathSteamRoots : List Path :=
  let paths : List Path := ((world.var "PATH").map (·.splitOnP (· == ':'))).getD []
  (paths.flatMap fun dir => binaries.map dir.join).foldl
    (fun roots candidate =>
      if !world.isFile candidate then roots
      else world.addAbove roots ((world.canonicalize candidate).getD candidate)) []

def mountLibraryRoots : List Path :=
  match world.readLimited "/proc/mounts".toList maxFoldersBytes with
  | some mounts => (mountLibraryRootsFor world.isDir mounts.toList).roots
  | none => []

def homes : List Path :=
  ["/.steam/steam".toList, "/.local/share/Steam".toList, "/.steam/root".toList,
    "/.var/app/com.valvesoftware.Steam/data/Steam".toList]

def fallbackSteamRoots : List Path :=
  match world.var "HOME" with
  | some home =>
      (homes.map (home ++ ·)).foldl
        (fun roots path => if world.isDir (path.join steamapps) then addPath roots path else roots) []
  | none => []

/-- A root counts by the path that its links lead to. -/
def pushValidRoot (roots : List Path) (root : Path) : List Path :=
  let canonical := (world.canonicalize root).getD root
  if world.isDir (canonical.join steamapps) then addPath roots canonical else roots

def listedRoots : List Path :=
  match world.var "RSRPC_STEAM_LIBRARIES" with
  | some extra => ((extra.splitOnP (· == ':')).map trim).filter (· ≠ [])
  | none => []

def collectRoots : List Path :=
  match world.customRoot with
  | some custom => [custom]
  | none =>
      let candidates := world.listedRoots ++ world.runningSteamRoots ++ world.pathSteamRoots ++
        world.mountLibraryRoots ++ world.fallbackSteamRoots
      let roots := candidates.foldl world.pushValidRoot []
      if roots.isEmpty then world.fallbackSteamRoots.foldl world.pushValidRoot [] else roots

end World

namespace Path

/-- Components in the order of their kinds: the root, `.`, `..` and names, which are compared
by their characters. -/
def componentKey (name : Path) : List Nat :=
  (if name = ".".toList then 1 else if name = "..".toList then 2 else 3) :: name.map Char.toNat

def sortKey (path : Path) : List (List Nat) :=
  (if path.isAbsolute then [[0]] else []) ++ path.components.map componentKey

end Path

/-- `sort` and `dedup`: paths are compared by their components. -/
def sortDedup (paths : List Path) : List Path := sortUniq Path.sortKey (fun a b => a.same b = false) paths

/-- The path of a library stands under `path`, or is itself the value. -/
def libraryPath : Vdf → Option Path
  | .str path => some path.toList
  | .map folder =>
      match folder.lookup "path" with
      | some (.str path) => some path.toList
      | _ => none

def libraryPaths (w : Walk) (doc : VdfMap) : List Path :=
  match (doc.lookup "libraryfolders").or (doc.lookup "LibraryFolders") with
  | some (.map inner) => (w.order inner).filterMap fun folder => libraryPath folder.2
  | _ => []

def Files.rootLibraries (files : Files) (w : Walk) (root : Path) : List Path × Option Path :=
  let apps := root.join steamapps
  if !files.isDir apps then ([], none)
  else
    let listed :=
      match files.readLimited (apps.join foldersFile) maxFoldersBytes with
      | some body => libraryPaths w (parseVdfStr body)
      | none => []
    (sortDedup (root :: listed), some (apps.join foldersFile))

def Files.libraryFingerprint (files : Files) (library : Path) : Option Fingerprint :=
  files.dirFingerprint (library.join steamapps)

structure CachedLibrary where
  fingerprint : Fingerprint
  dirs : Dirs

abbrev Cached := Table Path CachedLibrary

structure SteamLibraries where
  watched : List Path := []
  mtimes : List (Path × Int) := []
  dirs : Dirs := ∅
  fingerprints : Table Path Fingerprint := ∅
  roots : List Path := []
  exclusive : Bool := false
  ticks : Nat := 0

namespace SteamLibraries

variable (fold : CaseFold) (w : Walk) (s : SteamLibraries)

def mtimeOf (file : Path) : Option Int := (s.mtimes.find? fun mark => mark.1.same file).map Prod.snd

def markMtime (file : Path) (mtime : Int) : SteamLibraries :=
  { s with
    mtimes :=
      if s.mtimes.any fun mark => mark.1.same file then
        s.mtimes.map fun mark => if mark.1.same file then (mark.1, mtime) else mark
      else s.mtimes ++ [(file, mtime)] }

def watch (files : Files) (file : Path) : SteamLibraries :=
  let s := match files.modified file with
    | some mtime => s.markMtime file mtime
    | none => s
  { s with watched := addPath s.watched file }

def watchRoot (files : Files) : Option Path → SteamLibraries
  | some file => s.watch files file
  | none => s

def scanLibrary (files : Files) (library : Path) : SteamLibraries :=
  let s := { s with dirs := files.scanLibraryInto fold library s.dirs }
  match files.libraryFingerprint library with
  | some fingerprint => { s with fingerprints := s.fingerprints.insert library fingerprint }
  | none => s

def cachedDirs (cached : Cached) (library : Path) (live : Option Fingerprint) : Option Dirs := do
  let live ← live
  let entry ← cached.lookup library
  if entry.fingerprint = live then some entry.dirs else none

/-- A library that a root lists is taken from the cache or read, once. -/
def addLibrary (files : Files) (cached : Cached) (library : Path) : SteamLibraries :=
  let live := files.libraryFingerprint library
  match cachedDirs cached library live with
  | some dirs =>
      if library ∈ s.fingerprints then s
      else
        { s with
          dirs := Table.adopt w s.dirs dirs
          fingerprints :=
            match live with
            | some live => s.fingerprints.insert library live
            | none => s.fingerprints }
  | none => if library ∈ s.fingerprints then s else s.scanLibrary fold files library

def addRoot (files : Files) (cached : Cached) (root : Path) : SteamLibraries :=
  let (libs, file) := files.rootLibraries w root
  libs.foldl (fun s library => s.addLibrary fold w files cached library) (s.watchRoot files file)

def discover (world : World) (cached : Cached) : SteamLibraries :=
  let roots := world.collectRoots
  roots.foldl (fun s root => s.addRoot fold w world.toFiles cached root)
    { roots := roots, exclusive := world.customRoot.isSome }

end SteamLibraries

/-- What a refresh puts together before it replaces the state. -/
structure Fresh where
  changed : Bool := false
  dirs : Dirs := ∅
  fingerprints : Table Path Fingerprint := ∅

namespace SteamLibraries

variable (fold : CaseFold) (w : Walk) (s : SteamLibraries)

def ticked : SteamLibraries := { s with ticks := min (s.ticks + 1) (2 ^ 64 - 1) }

def foldersChanged (files : Files) : Bool := s.watched.any fun file => files.modified file ≠ s.mtimeOf file

/-- The libraries are resolved again after a change of a folders file, and on every 120th tick. -/
def isDue (files : Files) : Bool := s.foldersChanged files || s.ticks % 120 == 0

def rootsAt (world : World) : List Path := if s.exclusive then s.roots else world.collectRoots

def resolveRoot (files : Files) (acc : SteamLibraries × List Path) (root : Path) : SteamLibraries × List Path :=
  let (rootLibs, file) := files.rootLibraries w root
  (acc.1.watchRoot files file, acc.2 ++ rootLibs)

/-- The marks of roots that hold no Steam layout any more. -/
def pruned (files : Files) : SteamLibraries :=
  let liveApps := (s.roots.map fun root => root.join steamapps).filter files.isDir
  let liveFiles := liveApps.map fun apps => apps.join foldersFile
  { s with
    watched := s.watched.filter fun file => liveFiles.any file.same
    mtimes := s.mtimes.filter fun mark => liveFiles.any mark.1.same }

def reresolve (world : World) : SteamLibraries × List Path :=
  let roots := s.rootsAt world
  let (s, libs) := roots.foldl (resolveRoot w world.toFiles) (s, [])
  let s := if s.exclusive then s else { s with roots := roots }
  (s.pruned world.toFiles, sortDedup libs)

def isCurrent (files : Files) (library : Path) : Bool :=
  match files.libraryFingerprint library, s.fingerprints.lookup library with
  | some live, some known => live == known
  | _, _ => false

/-- A library that has not changed keeps its directories, which are told by their prefix. -/
def refreshLibrary (files : Files) (fresh : Fresh) (library : Path) : Fresh :=
  match files.libraryFingerprint library with
  | none => { fresh with changed := true }
  | some live =>
      if s.fingerprints.lookup library = some live then
        { fresh with
          dirs := Table.overwrite w (libraryOwnsPrefix fold library) fresh.dirs s.dirs
          fingerprints := fresh.fingerprints.insert library live }
      else
        { changed := true
          dirs := files.scanLibraryInto fold library fresh.dirs
          fingerprints := fresh.fingerprints.insert library live }

/-- The state for these libraries, and whether it is saved. -/
def revalidate (files : Files) (libs : List Path) : SteamLibraries × Bool :=
  if libs.length = Table.size s.fingerprints ∧ libs.all (s.isCurrent files) then (s, false)
  else
    let fresh := libs.foldl (s.refreshLibrary fold w files) {}
    let s' := { s with fingerprints := fresh.fingerprints }
    if fresh.changed || Table.size fresh.dirs != Table.size s.dirs then ({ s' with dirs := fresh.dirs }, true)
    else (s', false)

def refreshIfStale (world : World) : SteamLibraries × Bool :=
  let s := s.ticked
  let (s, libs) := if s.isDue world.toFiles then s.reresolve w world else (s, w.order s.fingerprints.keys)
  s.revalidate fold w world.toFiles libs

end SteamLibraries

def Files.fullScan (files : Files) (fold : CaseFold) (libs : List Path) : Dirs :=
  libs.foldl (fun dirs library => files.scanLibraryInto fold library dirs) ∅

end RichPresence.Steam
