import RichPresence.Protocol.Serde
import RichPresence.Steam.Paths
import RichPresence.Types.Text

namespace RichPresence.Steam

open Lib Serde

/-- How many bytes a character takes that starts with this one. -/
def charWidth (byte : UInt8) : Nat :=
  if byte < 0x80 then 1 else if byte < 0xc2 then 0 else if byte < 0xe0 then 2 else if byte < 0xf0 then 3
  else if byte < 0xf5 then 4 else 0

def isContinuation (byte : UInt8) : Bool := 0x80 ≤ byte && byte < 0xc0

/-- Some first bytes leave less room for the second. -/
def fitsBehind (first second : UInt8) : Bool :=
  isContinuation second && !(first == 0xe0 && second < 0xa0) && !(first == 0xed && 0xa0 ≤ second) &&
    !(first == 0xf0 && second < 0x90) && !(first == 0xf4 && 0x90 ≤ second)

/-- The length of the broken character at the start of these bytes. -/
def brokenLen : Bytes → Nat
  | first :: second :: third :: _ =>
      if 3 ≤ charWidth first && fitsBehind first second then
        if charWidth first = 4 && isContinuation third then 3 else 2
      else 1
  | [first, second] => if 3 ≤ charWidth first && fitsBehind first second then 2 else 1
  | _ => 1

def replaceBroken : Nat → Bytes → List Char
  | 0, _ | _, [] => []
  | fuel + 1, byte :: bytes =>
      match decodeUtf8 ((byte :: bytes).take (charWidth byte)) with
      | some (char :: chars) => char :: chars ++ replaceBroken fuel ((byte :: bytes).drop (charWidth byte))
      | _ => '�' :: replaceBroken fuel ((byte :: bytes).drop (brokenLen (byte :: bytes)))

def fromUtf8Lossy (bytes : Bytes) : List Char := (decodeUtf8 bytes).getD (replaceBroken bytes.length bytes)

def isOctal (c : Char) : Bool := '0' ≤ c && c ≤ '7'

def octalValue (code : List Char) : Nat := code.foldl (fun value digit => value * 8 + (digit.toNat - '0'.toNat)) 0

def unescapeLoop : Nat → List Char → Bytes → Bytes
  | 0, _, out | _, [], out => out
  | fuel + 1, char :: chars, out =>
      if char ≠ '\\' then unescapeLoop fuel chars (out ++ String.utf8EncodeChar char)
      else
        let code := (chars.take 3).takeWhile isOctal
        if code.length = 3 ∧ octalValue code < 256 then
          unescapeLoop fuel (chars.drop 3) (out ++ [UInt8.ofNat (octalValue code)])
        else unescapeLoop fuel (chars.drop code.length) (out ++ utf8 ('\\' :: code))

def unescapeMount (field : List Char) : List Char := fromUtf8Lossy (unescapeLoop field.length field [])

def skipTypes : List String :=
  ["proc", "sysfs", "cgroup", "cgroup2", "tmpfs", "devtmpfs", "devpts", "overlay", "squashfs", "nsfs", "tracefs",
    "debugfs", "securityfs", "configfs", "fusectl", "selinuxfs", "overlayfs", "fuse.portal"]

def layouts : List Path :=
  ["".toList, "SteamLibrary".toList, "Steam".toList, "steam".toList, "Games/SteamLibrary".toList]

def pseudoTrees : List (List Char) := ["/proc/".toList, "/sys/".toList, "/dev/".toList]

/-- The lines of a text. A carriage return in front of the line feed belongs to the line end. -/
def lines (text : List Char) : List (List Char) :=
  let pieces := text.splitOnP (· == '\n')
  let last := pieces.getLast?.getD []
  pieces.dropLast.map (fun line => if line.getLast? = some '\r' then line.dropLast else line) ++
    if last.isEmpty then [] else [last]

/-- The mount point in a line of the table, unless the line is passed over. -/
def mountOf (line : List Char) : Option Path :=
  match words isWhiteSpace line with
  | _device :: mount :: fstype :: _ =>
      if String.ofList fstype ∈ skipTypes then none
      else if pseudoTrees.any (·.isPrefixOf mount) then none
      else some (unescapeMount mount)
  | _ => none

def candidate (mount layout : Path) : Path := if layout.isEmpty then mount else mount.join layout

structure Probes where
  probed : List Path := []
  roots : List Path := []

def probe (isDir : Path → Bool) (s : Probes) (candidate : Path) : Probes :=
  ⟨s.probed ++ [candidate.join steamapps],
    if isDir (candidate.join steamapps) && !s.roots.any candidate.same then s.roots ++ [candidate] else s.roots⟩

def probeLine (isDir : Path → Bool) (s : Probes) (line : List Char) : Probes :=
  match mountOf line with
  | none => s
  | some mount => layouts.foldl (fun s layout => probe isDir s (candidate mount layout)) s

def mountLibraryRootsFor (isDir : Path → Bool) (mounts : List Char) : Probes :=
  (lines mounts).foldl (probeLine isDir) {}

end RichPresence.Steam
