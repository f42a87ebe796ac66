import RichPresence.Types.Ids
import RichPresence.Types.Json

namespace RichPresence

structure Timestamps where
  start : Option Int := none
  stop : Option Int := none
  deriving DecidableEq, Repr

structure Party where
  id : Option String := none
  size : Option (List Nat) := none
  privacy : Option Nat := none
  deriving DecidableEq, Repr

structure Assets where
  largeImage : Option String := none
  largeText : Option String := none
  smallImage : Option String := none
  smallText : Option String := none
  largeUrl : Option String := none
  smallUrl : Option String := none
  deriving DecidableEq, Repr

structure Secrets where
  join : Option String := none
  spectate : Option String := none
  matchSecret : Option String := none
  deriving DecidableEq, Repr

structure Emoji where
  name : Option String := none
  id : Option String := none
  animated : Option Bool := none
  deriving DecidableEq, Repr

structure Metadata where
  buttonUrls : Option (List String) := none
  artistIds : Option (List String) := none
  albumId : Option String := none
  contextUri : Option String := none
  deriving DecidableEq, Repr

structure Activity where
  id : Option String := none
  name : Option String := none
  buttons : Option (List Value) := none
  type : Nat := 0
  url : Option String := none
  createdAt : Option Nat := none
  sessionId : Option String := none
  platform : Option String := none
  supportedPlatforms : Option (List String) := none
  timestamps : Option Timestamps := none
  applicationId : Option AppId := none
  details : Option String := none
  detailsUrl : Option String := none
  state : Option String := none
  stateUrl : Option String := none
  syncId : Option String := none
  instance_ : Option Bool := none
  statusDisplayType : Option Nat := none
  flags : Option Nat := none
  emoji : Option Emoji := none
  party : Option Party := none
  assets : Option Assets := none
  secrets : Option Secrets := none
  metadata : Option Metadata := none
  extra : List (String × Value) := []
  deriving Repr

structure ActivityCmdArgs where
  pid : Option Nat := none
  activity : Option Activity := none
  code : Option String := none
  userId : Option String := none
  deriving Repr

structure ActivityCmd where
  applicationId : Option AppId := none
  cmd : String := ""
  args : Option ActivityCmdArgs := none
  data : Option (List (String × Value)) := none
  evt : Option String := none
  nonce : Value := .string ""
  deriving Repr

def saturateI64 (n : Int) : Int := max (-(2 ^ 63)) (min n (2 ^ 63 - 1))

/-- Nanoseconds and microseconds are scaled down, milliseconds pass through and
anything at or below the threshold is taken for seconds. -/
def normalizeTimestamp (value millisThreshold : Int) : Int :=
  if value ≥ 100000000000000000 then value.tdiv 1000000
  else if value ≥ 100000000000000 then value.tdiv 1000
  else if value > millisThreshold then value
  else saturateI64 (value * 1000)

def millisThreshold (now : Nat) : Int := now + 100 * 365 * 24 * 3600

/-- Labels stay in the activity and urls move out of it. A button that is
neither text nor an object is kept as a label. -/
def splitButtons : List Value → List String × List Value
  | [] => ([], [])
  | .object members :: rest =>
      let (urls, labels) := splitButtons rest
      let (label, members') := Value.removeMember "label" members
      let (url, _) := Value.removeMember "url" members'
      ((url.bind Value.asStr).toList ++ urls, label.toList ++ labels)
  | b :: rest =>
      let (urls, labels) := splitButtons rest
      (urls, b :: labels)

namespace Activity

def fixTimestamps (now : Nat) (a : Activity) : Activity :=
  { a with timestamps := a.timestamps.map fun t =>
      { start := t.start.map (normalizeTimestamp · (millisThreshold now))
        stop := t.stop.map (normalizeTimestamp · (millisThreshold now)) } }

def fixButtons (a : Activity) : Activity :=
  match a.buttons with
  | none => a
  | some buttons =>
      let (urls, labels) := splitButtons buttons
      { a with
        buttons := some labels
        metadata := if urls.isEmpty then a.metadata
          else some { a.metadata.getD {} with buttonUrls := some urls } }

def fixFlags (a : Activity) : Activity :=
  if a.instance_.getD false ∧ a.flags.isNone then { a with flags := some 1 } else a

def fix (now : Nat) (a : Activity) : Activity := ((a.fixTimestamps now).fixButtons).fixFlags

end Activity

namespace ActivityCmd

/-- The pid a command acts for; a command without one acts for pid 0. -/
def pid (cmd : ActivityCmd) : Nat := (cmd.args.bind (·.pid)).getD 0

theorem pid_of_args {cmd : ActivityCmd} {args : ActivityCmdArgs} (h : cmd.args = some args) :
    args.pid.getD 0 = cmd.pid := by
  rw [pid, h, Option.bind_some]

theorem pid_of_noArgs {cmd : ActivityCmd} (h : cmd.args = none) : cmd.pid = 0 := by
  rw [pid, h, Option.bind_none, Option.getD_none]

def activity (cmd : ActivityCmd) : Option Activity := cmd.args.bind (·.activity)

def mapActivity (f : Activity → Activity) (cmd : ActivityCmd) : ActivityCmd :=
  { cmd with args := cmd.args.map fun args => { args with activity := args.activity.map f } }

def fix (now : Nat) (cmd : ActivityCmd) : ActivityCmd := cmd.mapActivity (·.fix now)

@[simp] theorem mapActivity_pid (f : Activity → Activity) (cmd : ActivityCmd) :
    (cmd.mapActivity f).pid = cmd.pid := by
  cases h : cmd.args <;> simp [mapActivity, pid, h]

@[simp] theorem mapActivity_applicationId (f : Activity → Activity) (cmd : ActivityCmd) :
    (cmd.mapActivity f).applicationId = cmd.applicationId := rfl

@[simp] theorem mapActivity_activity (f : Activity → Activity) (cmd : ActivityCmd) :
    (cmd.mapActivity f).activity = cmd.activity.map f := by
  cases h : cmd.args <;> simp [mapActivity, activity, h]

@[simp] theorem mapActivity_args_isNone (f : Activity → Activity) (cmd : ActivityCmd) :
    (cmd.mapActivity f).args.isNone = cmd.args.isNone := by
  simp [mapActivity]

end ActivityCmd

end RichPresence
