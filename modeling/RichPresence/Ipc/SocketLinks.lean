import RichPresence.Protocol.Payload

namespace RichPresence.Ipc

inductive Component
  | curDir
  | parentDir
  | normal (name : Bytes)
  deriving DecidableEq, Repr

/-- A path by its components. Two spellings with the same components are the same path. -/
structure OsPath where
  absolute : Bool
  parts : List Component
  deriving DecidableEq, Repr

namespace OsPath

def join (path other : OsPath) : OsPath :=
  if other.absolute ∨ (path.parts = [] ∧ ¬path.absolute) then other
  else { path with parts := path.parts ++ other.parts.filter (· ≠ .curDir) }

def parent (path : OsPath) : Option OsPath :=
  if path.parts = [] then none else some { path with parts := path.parts.dropLast }

def fileName (path : OsPath) : Option Bytes :=
  match path.parts.getLast? with
  | some (.normal name) => some name
  | _ => none

end OsPath

def toStr (name : Bytes) : Option String := String.fromUTF8? ⟨name.toArray⟩

inductive ErrorKind
  | notFound
  | permissionDenied
  | alreadyExists
  | other
  deriving DecidableEq, Repr

inductive Node
  | symlink (target : OsPath)
  | socket
  | file
  | directory
  deriving DecidableEq, Repr

/-- What becomes of a file operation: it is refused, or goes as the directories have it. -/
abbrev Outcome := Option ErrorKind

abbrev Entries (E : Type) := E → Option Node

/-- A candidate directory, with what becomes of the file operations in its turn. -/
structure Turn where
  dir : OsPath
  metadata : Outcome := none
  readLink : Outcome := none
  targetMetadata : Outcome := none
  removeFile : Outcome := none
  symlink : Outcome := none

def resolve (link target : OsPath) : OsPath :=
  if target.absolute then target
  else
    match link.parent with
    | some parent => parent.join target
    | none => target

def oursShaped (target : OsPath) : Bool :=
  (target.fileName.bind toStr).any fun name => "discord-ipc-".toList.isPrefixOf name.toList

section Operations

variable {E : Type} [DecidableEq E] (locate : Entries E → OsPath → Option E)

def entryAt (t : Entries E) (path : OsPath) : Option Node := (locate t path).bind t

def symlinkMetadata (outcome : Outcome) (path : OsPath) (t : Entries E) : Except ErrorKind Node :=
  match outcome, entryAt locate t path with
  | some err, _ => .error err
  | none, some node => .ok node
  | none, none => .error .notFound

def readLink (outcome : Outcome) (path : OsPath) (t : Entries E) : Except ErrorKind OsPath :=
  match outcome, entryAt locate t path with
  | some err, _ => .error err
  | none, some (.symlink target) => .ok target
  | none, some _ => .error .other
  | none, none => .error .notFound

def removeFile (outcome : Outcome) (path : OsPath) (t : Entries E) : Except ErrorKind Unit × Entries E :=
  match outcome, locate t path with
  | some err, _ => (.error err, t)
  | none, none => (.error .notFound, t)
  | none, some e =>
      match t e with
      | none => (.error .notFound, t)
      | some .directory => (.error .other, t)
      | some _ => (.ok (), Function.update t e none)

def symlink (outcome : Outcome) (target path : OsPath) (t : Entries E) : Except ErrorKind Unit × Entries E :=
  match outcome, locate t path with
  | some err, _ => (.error err, t)
  | none, none => (.error .notFound, t)
  | none, some e =>
      match t e with
      | none => (.ok (), Function.update t e (some (.symlink target)))
      | some _ => (.error .alreadyExists, t)

def linkReclaimable (turn : Turn) (link bound : OsPath) (t : Entries E) : Bool :=
  match readLink locate turn.readLink link t with
  | .error _ => false
  | .ok target =>
      if resolve link target = bound then true
      else oursShaped target &&
        symlinkMetadata locate turn.targetMetadata (resolve link target) t matches .error _

def fanoutTurn (bound fileName : OsPath) (t : Entries E) (turn : Turn) : Entries E :=
  let link := turn.dir.join fileName
  if link = bound then t
  else
    match symlinkMetadata locate turn.metadata link t with
    | .error _ => (symlink locate turn.symlink bound link t).2
    | .ok (.symlink _) =>
        if linkReclaimable locate turn link bound t then
          (symlink locate turn.symlink bound link (removeFile locate turn.removeFile link t).2).2
        else t
    | .ok _ => t

def fanoutSocketLink (turns : List Turn) (bound fileName : OsPath) (t : Entries E) : Entries E :=
  turns.foldl (fanoutTurn locate bound fileName) t

def removeTurn (bound fileName : OsPath) (t : Entries E) (turn : Turn) : Entries E :=
  let link := turn.dir.join fileName
  if link = bound then t
  else if linkReclaimable locate turn link bound t then (removeFile locate turn.removeFile link t).2
  else t

def removeSocketLinks (turns : List Turn) (bound : OsPath) (t : Entries E) : Entries E :=
  match bound.fileName with
  | none => t
  | some name =>
      if (toStr name).isSome then turns.foldl (removeTurn locate bound ⟨false, [.normal name]⟩) t else t

end Operations

end RichPresence.Ipc
