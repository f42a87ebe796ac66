import RichPresence.Steam.Prefixes
import RichPresence.Steam.Vdf

namespace RichPresence.Steam

open Lib

/-- What a process can learn from the file system at one moment. Times are counted from the
epoch, in nanoseconds; an entry of a directory may fail to be read. -/
structure Files where
  isDir : Path → Bool
  isFile : Path → Bool
  readDir : Path → Option (List (Option Path))
  read : Path → Option (List UInt8)
  modified : Path → Option Int
  readLink : Path → Option Path
  canonicalize : Path → Option Path

structure Fingerprint where
  dirMtimeMs : UInt64
  manifests : UInt64
  newestManifestMs : UInt64
  compatMtimeMs : UInt64
  deriving DecidableEq, Repr

def maxFoldersBytes : Nat := 4 * 1024 * 1024

def maxManifestBytes : Nat := 1024 * 1024

def maxScanEntries : Nat := 4096

def isManifest (name : Path) : Bool := "appmanifest_".toList.isPrefixOf name && ".acf".toList.isSuffixOf name

def isNumber (name : Path) : Bool := name.all fun c => '0' ≤ c && c ≤ '9'

namespace Files

variable (files : Files)

def names (dir : Path) : Option (List Path) := (files.readDir dir).map (·.filterMap id)

def readLimited (path : Path) (limit : Nat) : Option String := do
  let bytes ← files.read path
  if bytes.length > limit then none else (decodeUtf8 bytes).map String.ofList

def fileMtimeMs (path : Path) : Option UInt64 := do
  let modified ← files.modified path
  if modified < 0 then none
  else if 2 ^ 64 ≤ modified.toNat / 10 ^ 6 then none else some (.ofNat (modified.toNat / 10 ^ 6))

/-- One entry of `steamapps` moves the marks of the library. -/
def markEntry (appsDir : Path) (print : Fingerprint) (name : Path) : Fingerprint :=
  if isManifest name then
    { print with
      manifests := print.manifests + 1
      newestManifestMs := max print.newestManifestMs ((files.fileMtimeMs (appsDir.join name)).getD 0) }
  else if name = "compatdata".toList then
    { print with compatMtimeMs := max print.compatMtimeMs ((files.fileMtimeMs (appsDir.join name)).getD 0) }
  else print

def dirFingerprint (appsDir : Path) : Option Fingerprint := do
  let dirMtimeMs ← files.fileMtimeMs appsDir
  return ((files.names appsDir).getD []).foldl (files.markEntry appsDir) ⟨dirMtimeMs, 0, 0, 0⟩

variable (fold : CaseFold)

/-- The directory and the id that an entry of `steamapps` stands for. -/
def entryDir (library name : Path) : Option (Path × String) :=
  let path := (library.join steamapps).join name
  if isNumber name && files.isDir (path.join "pfx".toList) then
    some (canonicalSteamPath fold (library ++ "/steamapps/compatdata/".toList ++ name ++ ['/']), String.ofList name)
  else if !isManifest name then none
  else do
    let body ← files.readLimited path maxManifestBytes
    let (appid, installdir) ← manifestIds (parseVdfStr body)
    return (commonPrefix fold library installdir.toList, appid)

def scanned (library : Path) : List Path := ((files.names (library.join steamapps)).getD []).take maxScanEntries

def scanLibraryInto (library : Path) (dirs : Dirs) : Dirs :=
  (files.scanned library).foldl
    (fun dirs name =>
      match files.entryDir fold library name with
      | some dir => Table.orInsert dirs dir
      | none => dirs) dirs

def found (library : Path) : List (Path × String) := (files.scanned library).filterMap (files.entryDir fold library)

variable {files fold}

theorem scanLibraryInto_eq (library : Path) (dirs : Dirs) :
    files.scanLibraryInto fold library dirs = (files.found fold library).foldl Table.orInsert dirs := by
  rw [scanLibraryInto, found, List.foldl_filterMap]
  congr 1
  funext dirs name
  cases files.entryDir fold library name <;> rfl

theorem lookup_scanLibraryInto (library : Path) (dirs : Dirs) (key : Path) :
    (files.scanLibraryInto fold library dirs).lookup key =
      (dirs.lookup key).or ((files.found fold library).lookup key) := by
  rw [scanLibraryInto_eq, Table.lookup_orInserts]

end Files

end RichPresence.Steam
