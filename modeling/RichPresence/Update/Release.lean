import Mathlib.Data.List.Infix
import RichPresence.Types.Text
import RichPresence.Update.Files

namespace RichPresence.Update

structure OtaState where
  stagedVersion : Option String := none
  stagedSha256 : Option String := none
  latestSeen : Option String := none
  deriving DecidableEq, Repr

/-- What the updater takes from other crates and from its build: versions and their
text, SHA-256, the check of a signature against the release key, the text form of the
state record, the version it was built as, the target it was built for and the name
of the platform. -/
structure Crates (V : Type) where
  parseVersion : String → Option V
  versionText : V → String
  sha256Hex : Bytes → String
  verifySignature : Bytes → String → Bool
  encodeState : OtaState → Bytes
  decodeState : Bytes → Option OtaState
  currentVersion : V
  targetTriple : Option String
  platform : String

structure Asset where
  name : String
  url : String
  deriving DecidableEq, Repr

structure ReleaseInfo (V : Type) where
  version : V
  tag : String
  assets : List Asset
  deriving DecidableEq

variable {V : Type} (C : Crates V)

def parseVersion (tag : String) : Option V :=
  C.parseVersion (String.ofList (match trim tag.toList with
    | 'v' :: rest => rest
    | rest => rest))

def parseRelease (body : Value) : Option (ReleaseInfo V) := do
  let tag ← (← body.get "tag_name").asStr
  let version ← parseVersion C tag
  let assets := (← (← body.get "assets").asArray).filterMap fun asset => do
    some { name := ← (← asset.get "name").asStr, url := ← (← asset.get "browser_download_url").asStr }
  some { version, tag, assets }

def selectAsset (release : ReleaseInfo V) (fileName : String) : Option Asset :=
  release.assets.find? fun asset => asset.name = fileName

def isHexDigit (c : Char) : Bool := c.isDigit || ('a' ≤ c && c ≤ 'f') || ('A' ≤ c && c ≤ 'F')

def parseChecksumLine (line : List Char) : Option (String × String) :=
  match (line.splitOnP isWhiteSpace).filter (!·.isEmpty) with
  | hex :: name :: _ =>
      let name := name.dropWhile (· = '*')
      if hex.length = 64 ∧ hex.all isHexDigit ∧ ¬name.isEmpty then
        some (String.ofList name, String.ofList (hex.map Char.toLower))
      else none
  | _ => none

def parseChecksums (text : String) : List (String × String) :=
  (text.toList.splitOn '\n').filterMap parseChecksumLine

/-- A later line replaces an earlier one for the same file. -/
def listedDigest (text name : String) : Option String := (parseChecksums text).reverse.lookup name

inductive Refusal
  | devBuild (exe : FilePath)
  | cargoManaged (exe : FilePath)
  | unexpectedName (name : String)
  | notWritable (dir : List String)
  deriving DecidableEq, Repr

def isDevBuild (exe : FilePath) : Bool :=
  exe.components.contains "target" && (exe.dir.getLast? = some "debug" || exe.dir.getLast? = some "release") ||
    (["target", "debug"] <:+: exe.components) || (["target", "release"] <:+: exe.components)

def isCargoManaged (exe : FilePath) : Bool := [".cargo", "bin"] <:+: exe.components

def checkEligibility (exe : FilePath) : Script (Except Refusal Unit) :=
  if isDevBuild exe then pure (.error (.devBuild exe))
  else if isCargoManaged exe then pure (.error (.cargoManaged exe))
  else if exe.fileStem ≠ "rsrpc-cli" then pure (.error (.unexpectedName exe.name))
  else do
    if ← op (.readonly exe.dir) then pure (.error (.notWritable exe.dir)) else pure (.ok ())

structure Available (V : Type) where
  current : V
  latest : V
  tag : String
  assetName : String
  assetUrl : String
  checksumsUrl : Option String
  checksumsSigUrl : Option String

inductive CheckOutcome (V : Type)
  | upToDate (current : V)
  | available (update : Available V)
  | unsupportedTarget (current : V) (triple : String)

inductive CheckError
  | requestFailed
  | noUsableVersion
  deriving DecidableEq, Repr

def assetName (triple : String) : String := "rsrpc-cli-" ++ triple

/-- The body is what the server answers to the request for the latest release. -/
def check [LE V] [DecidableLE V] (body : Option Value) : Except CheckError (CheckOutcome V) :=
  match C.targetTriple with
  | none => .ok (.unsupportedTarget C.currentVersion C.platform)
  | some triple => do
      let json ← body.elim (.error .requestFailed) .ok
      let release ← (parseRelease C json).elim (.error .noUsableVersion) .ok
      if release.version ≤ C.currentVersion then return .upToDate C.currentVersion
      match selectAsset release (assetName triple) with
      | none => return .unsupportedTarget C.currentVersion C.platform
      | some asset => return .available {
          current := C.currentVersion
          latest := release.version
          tag := release.tag
          assetName := asset.name
          assetUrl := asset.url
          checksumsUrl := (selectAsset release "SHA256SUMS.txt").map Asset.url
          checksumsSigUrl := (selectAsset release "SHA256SUMS.txt.minisig").map Asset.url }

end RichPresence.Update
