import RichPresence.Update.Release

namespace RichPresence.Update

structure OtaPaths where
  dir : List String
  deriving DecidableEq, Repr

namespace OtaPaths

def stateFile (paths : OtaPaths) : FilePath := ⟨paths.dir, "ota.json"⟩

def stagedFile (paths : OtaPaths) : FilePath := ⟨paths.dir, "rsrpc-cli.staged"⟩

def partFile (paths : OtaPaths) : FilePath := paths.stagedFile.withExtension "part"

end OtaPaths

def prevPath (exe : FilePath) : FilePath := { exe with name := exe.name ++ ".prev" }

def tmpPath (exe : FilePath) : FilePath := exe.withExtension "ota-tmp"

def swapPath (exe : FilePath) : FilePath := exe.withExtension "ota-swap"

/-- The arm of `swapBinary` for an OTA directory on another filesystem. -/
def copyAcross (exe newImage : FilePath) : Script (Except IoError Unit) := do
  let tmp := tmpPath exe
  match ← op (.copy newImage tmp) with
  | .error err => return .error err
  | .ok () =>
    match ← op (.setPermissions tmp) with
    | .error err => return .error err
    | .ok () =>
      match ← op (.rename tmp exe) with
      | .error err => return .error err
      | .ok () =>
        op (.removeFile newImage)
        return .ok ()

/-- The second half of `swapBinary`, once the previous image is out of the way. -/
def placeImage (exe newImage : FilePath) : Script (Except IoError Unit) := do
  match ← op (.rename newImage exe) with
  | .ok () => return .ok ()
  | .error .crossesDevices => copyAcross exe newImage
  | .error err =>
      -- best effort: the install still boots with the previous image
      let _ ← op (.rename (prevPath exe) exe)
      return .error err

def swapBinary (exe newImage : FilePath) : Script (Except IoError Unit) := do
  let prev := prevPath exe
  op (.removeFile prev)
  match ← op (.rename exe prev) with
  | .error err => return .error err
  | .ok () => placeImage exe newImage

def swapBack (exe prev : FilePath) : Script (Except IoError Unit) := do
  let tmp := swapPath exe
  match ← op (.rename exe tmp) with
  | .error err => return .error err
  | .ok () =>
    match ← op (.rename prev exe) with
    | .error err =>
        let _ ← op (.rename tmp exe)
        return .error err
    | .ok () => op (.rename tmp prev)

variable {V : Type} (C : Crates V) (paths : OtaPaths)

def loadState : Script OtaState := do
  return ((← op (.read paths.stateFile)).bind C.decodeState).getD {}

def saveState (state : OtaState) : Script Unit := do
  if ← op (.createDir paths.dir) then op (.write paths.stateFile (C.encodeState state))

/-- What the server sends for the downloads of one run, by their URL. -/
structure Downloads where
  manifest : String → Option Bytes
  signature : String → Option Bytes
  binary : String → Option Bytes

inductive StageError
  | nothingToStage
  | refused (refusal : Refusal)
  | cannotStage
  | noChecksums
  | noSignature
  | downloadFailed
  | badSignatureText
  | signatureInvalid
  | badChecksums
  | notListed (assetName : String)
  | checksumMismatch (assetName : String)
  deriving DecidableEq, Repr

/-- The digest the signed manifest lists for the asset. -/
def expectedDigest (D : Downloads) (update : Available V) : Except StageError String := do
  let checksumsUrl ← update.checksumsUrl.elim (.error .noChecksums) .ok
  let checksumsSigUrl ← update.checksumsSigUrl.elim (.error .noSignature) .ok
  let manifest ← (D.manifest checksumsUrl).elim (.error .downloadFailed) .ok
  let manifestSig ← (D.signature checksumsSigUrl).elim (.error .downloadFailed) .ok
  let manifestSig ← (String.fromUTF8? ⟨manifestSig.toArray⟩).elim (.error .badSignatureText) .ok
  if C.verifySignature manifest manifestSig then
    let text ← (String.fromUTF8? ⟨manifest.toArray⟩).elim (.error .badChecksums) .ok
    (listedDigest text update.assetName).elim (.error (.notListed update.assetName)) .ok
  else .error .signatureInvalid

/-- The binary is downloaded beside the staged file and takes its place only with the
expected digest. -/
def stageBinary (update : Available V) (expected : String) (body : Bytes) : Script (Except StageError V) := do
  let tmp := paths.partFile
  if !(← op (.download tmp body)) then
    op (.removeFile tmp)
    return .error .downloadFailed
  if C.sha256Hex body ≠ expected then
    op (.removeFile tmp)
    return .error (.checksumMismatch update.assetName)
  match ← op (.setPermissions tmp) with
  | .error _ =>
      op (.removeFile tmp)
      return .error .cannotStage
  | .ok () =>
    match ← op (.rename tmp paths.stagedFile) with
    | .error _ =>
        op (.removeFile tmp)
        return .error .cannotStage
    | .ok () =>
        let latest := C.versionText update.latest
        saveState C paths ⟨some latest, some (C.sha256Hex body), some latest⟩
        return .ok update.latest

def stage (D : Downloads) (exe : FilePath) : CheckOutcome V → Script (Except StageError V)
  | .available update => do
      match ← checkEligibility exe with
      | .error refusal => return .error (.refused refusal)
      | .ok () =>
        if !(← op (.createDir paths.dir)) then return .error .cannotStage
        match expectedDigest C D update with
        | .error err => return .error err
        | .ok expected =>
          match D.binary update.assetUrl with
          | none => do
              op (.removeFile paths.partFile)
              return .error .downloadFailed
          | some body => stageBinary C paths update expected body
  | _ => return .error .nothingToStage

structure Server where
  release : Option Value
  downloads : Downloads

def confirms (answer : Option String) : Bool :=
  answer.any fun text => (trim text.toList).map Char.toLower ∈ ["y".toList, "yes".toList]

inductive CommandError
  | check (err : CheckError)
  | notLocated
  | stage (err : StageError)
  deriving DecidableEq, Repr

/-- The answer is what the user types, if it can be read. The daily watcher stages in the
same way, with no question asked. -/
def cmdStage [LE V] [DecidableLE V] (server : Server) (exe : FilePath) (yes : Bool) (answer : Option String) :
    Script (Except CommandError (Option V)) :=
  match check C server.release with
  | .error err => return .error (.check err)
  | .ok (.available update) => do
      if !yes && !confirms answer then return .ok none
      if !(← op .currentExe) then return .error .notLocated
      match ← stage C paths server.downloads exe (.available update) with
      | .error err => return .error (.stage err)
      | .ok version => return .ok (some version)
  | .ok _ => return .ok none

inductive BootOutcome (V : Type)
  | nothing
  | discarded
  | updated (version : V) (image : Bytes)
  deriving DecidableEq

def discard : Script (BootOutcome V) := do
  op (.removeFile paths.stagedFile)
  saveState C paths {}
  return .discarded

def applyPendingOnBoot [LE V] [DecidableLE V] (exe : FilePath) (applied : Bool) : Script (BootOutcome V) := do
  if applied then return .nothing
  if !(← op .currentExe) then return .nothing
  match ← loadState C paths with
  | ⟨some stagedVersion, some stagedSha256, _⟩ =>
    match C.parseVersion stagedVersion with
    | none => discard C paths
    | some version =>
      if version ≤ C.currentVersion then discard C paths
      else
        match ← checkEligibility exe with
        | .error _ => discard C paths
        | .ok () =>
          match ← op (.read paths.stagedFile) with
          | none => discard C paths
          | some bytes =>
            if C.sha256Hex bytes ≠ stagedSha256 then discard C paths
            else
              match ← swapBinary exe paths.stagedFile with
              | .error _ => discard C paths
              | .ok () =>
                  saveState C paths { latestSeen := some (C.versionText version) }
                  return .updated version bytes
  | _ => return .nothing

inductive RollbackError
  | notLocated
  | refused (refusal : Refusal)
  | noPrevious
  | failed (err : IoError)
  deriving DecidableEq, Repr

def cmdRollback (exe : FilePath) (applied : Bool) : Script (Except RollbackError Unit) := do
  if applied then return .ok ()
  if !(← op .currentExe) then return .error .notLocated
  match ← checkEligibility exe with
  | .error refusal => return .error (.refused refusal)
  | .ok () =>
    let prev := prevPath exe
    if !(← op (.isFile prev)) then return .error .noPrevious
    -- a staged update would undo the rollback on the next boot
    op (.removeFile paths.stagedFile)
    saveState C paths {}
    match ← swapBack exe prev with
    | .error err => return .error (.failed err)
    | .ok () => return .ok ()

end RichPresence.Update
