import RichPresence.Lib.Crash
import RichPresence.Protocol.Payload

namespace RichPresence.Update

open Lib

/-- A file by the components of its directory and its name. -/
structure FilePath where
  dir : List String
  name : String
  deriving DecidableEq, Repr

namespace FilePath

/-- The name up to its last dot, if one stands behind another character. -/
def stemOf (name : List Char) : List Char :=
  match name.reverse.dropWhile (· ≠ '.') with
  | [] => name
  | _ :: [] => name
  | _ :: before => before.reverse

def fileStem (path : FilePath) : String := String.ofList (stemOf path.name.toList)

def withExtension (path : FilePath) (extension : String) : FilePath :=
  { path with name := path.fileStem ++ "." ++ extension }

def components (path : FilePath) : List String := path.dir ++ [path.name]

def lastChar (path : FilePath) : Option Char := path.name.toList.getLast?

end FilePath

inductive IoError
  | crossesDevices
  | other
  deriving DecidableEq, Repr

inductive FileOp
  | removeFile (path : FilePath)
  | rename (source target : FilePath)
  | copy (source target : FilePath)
  | setPermissions (path : FilePath)
  | read (path : FilePath)
  | write (path : FilePath) (bytes : Bytes)
  | download (path : FilePath) (body : Bytes)
  | isFile (path : FilePath)
  | createDir (dir : List String)
  | readonly (dir : List String)
  | currentExe
  deriving DecidableEq, Repr

abbrev FileOp.Answer : FileOp → Type
  | removeFile _ | write _ _ => Unit
  | rename _ _ | copy _ _ | setPermissions _ => Except IoError Unit
  | read _ => Option Bytes
  | download _ _ | isFile _ | createDir _ | readonly _ | currentExe => Bool

/-- What becomes of a file operation. A write that fails may leave something at its
target. -/
inductive Verdict
  | succeeds
  | crosses
  | fails (left : Option Bytes)
  deriving DecidableEq, Repr

abbrev Disk := FilePath → Option Bytes

namespace Disk

def move (disk : Disk) (source target : FilePath) : Disk :=
  Function.update (Function.update disk source none) target (disk source)

def spill (disk : Disk) (target : FilePath) : Option Bytes → Disk
  | some left => Function.update disk target (some left)
  | none => disk

variable (disk : Disk) {source target other : FilePath}

theorem move_target : disk.move source target target = disk source := Function.update_self ..

theorem move_source (h : source ≠ target) : disk.move source target source = none := by
  rw [move, Function.update_of_ne h, Function.update_self]

theorem move_other (hs : other ≠ source) (ht : other ≠ target) : disk.move source target other = disk other := by
  rw [move, Function.update_of_ne ht, Function.update_of_ne hs]

theorem spill_other (left : Option Bytes) (h : other ≠ target) : disk.spill target left other = disk other := by
  cases left with
  | none => rfl
  | some left => exact Function.update_of_ne h _ _

theorem update_isSome {bytes : Bytes} (h : (disk other).isSome) :
    (Function.update disk target (some bytes) other).isSome := by
  by_cases he : other = target
  · rw [he, Function.update_self]
    rfl
  · rwa [Function.update_of_ne he]

theorem spill_isSome (left : Option Bytes) (h : (disk other).isSome) : (disk.spill target left other).isSome := by
  cases left with
  | none => exact h
  | some left => exact disk.update_isSome h

end Disk

/-- The operations on a disk that nobody else writes. -/
def perform (verdict : Verdict) : (o : FileOp) → Disk → o.Answer × Disk
  | .removeFile path, disk =>
      match verdict with
      | .succeeds => ((), Function.update disk path none)
      | _ => ((), disk)
  | .rename source target, disk =>
      match verdict, disk source with
      | .succeeds, some _ => (.ok (), disk.move source target)
      | .crosses, some _ => (.error .crossesDevices, disk)
      | _, _ => (.error .other, disk)
  | .copy source target, disk =>
      match verdict, disk source with
      | .succeeds, some bytes => (.ok (), Function.update disk target (some bytes))
      | .fails left, _ => (.error .other, disk.spill target left)
      | _, _ => (.error .other, disk)
  | .setPermissions path, disk =>
      match verdict, disk path with
      | .succeeds, some _ => (.ok (), disk)
      | _, _ => (.error .other, disk)
  | .read path, disk =>
      match verdict with
      | .succeeds => (disk path, disk)
      | _ => (none, disk)
  | .write path bytes, disk =>
      match verdict with
      | .succeeds => ((), Function.update disk path (some bytes))
      | .fails left => ((), disk.spill path left)
      | .crosses => ((), disk)
  | .download path body, disk =>
      match verdict with
      | .succeeds => (true, Function.update disk path (some body))
      | .fails left => (false, disk.spill path left)
      | .crosses => (false, disk)
  | .isFile path, disk => ((disk path).isSome && verdict matches .succeeds, disk)
  | .createDir _, disk => (verdict matches .succeeds, disk)
  | .readonly _, disk => (!(verdict matches .succeeds), disk)
  | .currentExe, disk => (verdict matches .succeeds, disk)

theorem removeFile_other (v : Verdict) {path other : FilePath} (h : other ≠ path) (disk : Disk) :
    (perform v (.removeFile path) disk).2 other = disk other := by
  cases v with
  | succeeds => exact Function.update_of_ne h _ _
  | crosses | fails => rfl

theorem write_isSome (v : Verdict) (path : FilePath) (bytes : Bytes) {disk : Disk} {other : FilePath}
    (h : (disk other).isSome) : ((perform v (.write path bytes) disk).2 other).isSome := by
  cases v with
  | succeeds => exact disk.update_isSome h
  | fails left => exact disk.spill_isSome left h
  | crosses => exact h

theorem write_other (v : Verdict) {path other : FilePath} (bytes : Bytes) (h : other ≠ path) (disk : Disk) :
    (perform v (.write path bytes) disk).2 other = disk other := by
  cases v with
  | succeeds => exact Function.update_of_ne h _ _
  | fails left => exact disk.spill_other left h
  | crosses => rfl

theorem read_disk (v : Verdict) (path : FilePath) (disk : Disk) : (perform v (.read path) disk).2 = disk := by
  cases v <;> rfl

theorem setPermissions_disk (v : Verdict) (path : FilePath) (disk : Disk) :
    (perform v (.setPermissions path) disk).2 = disk := by
  cases v with
  | succeeds => cases h : disk path <;> simp only [perform, h]
  | crosses | fails => rfl

theorem rename_cases (v : Verdict) (source target : FilePath) (disk : Disk) :
    (v = .succeeds ∧ (disk source).isSome ∧
      perform v (.rename source target) disk = (.ok (), disk.move source target)) ∨
    (v = .crosses ∧ (disk source).isSome ∧
      perform v (.rename source target) disk = (.error .crossesDevices, disk)) ∨
    (¬(v = .succeeds ∧ (disk source).isSome) ∧ ¬(v = .crosses ∧ (disk source).isSome) ∧
      perform v (.rename source target) disk = (.error .other, disk)) := by
  cases hsource : disk source with
  | none =>
      refine .inr (.inr ⟨by simp, by simp, ?_⟩)
      cases v <;> simp only [perform, hsource]
  | some bytes =>
      cases v with
      | succeeds => exact .inl ⟨rfl, rfl, by simp only [perform, hsource]⟩
      | crosses => exact .inr (.inl ⟨rfl, rfl, by simp only [perform, hsource]⟩)
      | fails left => exact .inr (.inr ⟨by simp, by simp, by simp only [perform]⟩)

abbrev Script (α : Type) := Lib.Script FileOp FileOp.Answer α

def op (o : FileOp) : Script o.Answer := Lib.Script.perform o

end RichPresence.Update
