import RichPresence.Bridge.Router

namespace RichPresence

open Lib

def broadcastClear (C : Codec) (env : Env) (pid : Nat) (socketId : SocketId) : Prog Shared Unit :=
  match emptyCached C pid socketId with
  | some payload => broadcastActivity env payload socketId
  | none => Prog.updates Shared.countDropped

/-- Cards whose pid is provably dead and that never got a clear of their own. -/
def ghosts (env : Env) (cache : ReplayCache) : List (SocketId × Nat) :=
  (env.walk.order cache.entries).filterMap fun e =>
    ((cacheEntryPid e.1 e.2.1).filter fun pid => !env.isProcessAlive pid).map fun pid => (e.1, pid)

def onCleared (C : Codec) (env : Env) : Prog Shared Unit := do
  Prog.updates fun s => { s with handoff := s.handoff.noteScan env none }
  let outstanding ← Prog.locked fun s =>
    let (clears, lastProcess) := takeProcessClear s.lastProcess
    (clears, { s with lastProcess })
  forM outstanding fun (pid, appId) => broadcastClear C env pid (SocketId.ofApp appId)
  let dead ← Prog.reads fun s => ghosts env s.cache
  forM dead fun (socketId, pid) => broadcastClear C env pid socketId

/-- The generic presence of a slot makes way for its owner. -/
def withdrawGeneric (C : Codec) (env : Env) (app : AppId) : Prog Shared Unit := do
  let withdrawn ← Prog.locked fun s => (s.lastProcess.lookup app, { s with lastProcess := s.lastProcess.erase app })
  match withdrawn with
  | some pid => broadcastClear C env pid (SocketId.ofApp app)
  | none => return

def onDetected (C : Codec) (env : Env) (game : ScannedGame) : Prog Shared Unit := do
  Prog.updates fun s => { s with handoff := s.handoff.noteScan env (some game) }
  -- The guard of the owner lookup is held until the withdrawal is done.
  let owned ← Prog.locked fun s =>
    if (s.handoff.ownerOf game.id).isSome then (true, (withdrawGeneric C env game.id).exec s) else (false, s)
  if owned then
    return
  let shown ← Prog.reads fun s => (s.lastProcess.lookup game.id).isSome
  if shown then
    return
  -- A first publication runs the same sections as a resumed one.
  resumeGeneric C env game

def onRemoved (C : Codec) (env : Env) (appId : AppId) (pid : Nat) : Prog Shared Unit := do
  Prog.updates fun s => { s with handoff := (s.handoff.noteRemove appId pid).2 }
  let outstanding ← Prog.locked fun s =>
    let (taken, lastProcess) := takeMatchingProcess appId pid s.lastProcess
    (taken, { s with lastProcess })
  match outstanding with
  | some pid => broadcastClear C env pid (SocketId.ofApp appId)
  | none => return

def procPump (C : Codec) (env : Env) : ProcInput → Prog Shared Unit
  | .cleared => onCleared C env
  | .detected game => onDetected C env game
  | .removed appId pid => onRemoved C env appId pid

inductive Input
  | setActivity (cmd : ActivityCmd)
  | proc (input : ProcInput)

/-- One input together with the surroundings it is handled in. -/
structure Event : Type 1 where
  env : Env
  input : Input

def ActivityCmd.publish (app : AppId) (pid : Nat) (details : String) : ActivityCmd where
  applicationId := some app
  cmd := "SET_ACTIVITY"
  args := some { pid := some pid, activity := some { details := some details } }

def ActivityCmd.clear (app : Option AppId) (pid : Nat) : ActivityCmd where
  applicationId := app
  cmd := "SET_ACTIVITY"
  args := some { pid := some pid }

namespace Event

def publish (env : Env) (app : AppId) (pid : Nat) (details : String) : Event :=
  ⟨env, .setActivity (.publish app pid details)⟩

def clear (env : Env) (app : Option AppId) (pid : Nat) : Event := ⟨env, .setActivity (.clear app pid)⟩

def detected (env : Env) (game : ScannedGame) : Event := ⟨env, .proc (.detected game)⟩

def cleared (env : Env) : Event := ⟨env, .proc .cleared⟩

end Event

def hades : ScannedGame := ⟨⟨"1145360"⟩, "Hades", 4242, 1763199000000, .steamAppId, some 1763199000000⟩

def handle (C : Codec) (e : Event) : Prog Shared Unit :=
  match e.input with
  | .setActivity cmd => handleSetActivity C e.env cmd
  | .proc input => procPump C e.env input

def step (C : Codec) (s : Shared) (e : Event) : Shared := (handle C e).exec s

def runFrom (C : Codec) (s : Shared) (es : List Event) : Shared := es.foldl (step C) s

def run (C : Codec) (es : List Event) : Shared := runFrom C {} es

end RichPresence
