import RichPresence.Protocol.Serde

namespace RichPresence

structure RpcUser where
  id : String := "1045800378228281345"
  username : String := "arRPC"
  discriminator : String := "0000"
  globalName : Option String := some "arRPC"
  avatar : Option String := some "cfefa4d9839fb4bdf030f91c2a13e95c"
  avatarDecorationData : Option Value := none
  bot : Bool := false
  flags : Nat := 0
  premiumType : Nat := 0
  deriving Repr

namespace Value

def orNull : Option Value → Value := (·.getD .null)

def withMember : Value → String → Value → Value
  | .object members, key, v => .object (members ++ [(key, v)])
  | other, _, _ => other

end Value

namespace RpcUser

open Value Serde

/-- The identity as a decoded value: the map behind it is sorted by key. -/
def toValue (u : RpcUser) : Value :=
  .object [("avatar", orNull (u.avatar.map text)), ("avatar_decoration_data", orNull u.avatarDecorationData),
    ("bot", .bool u.bot), ("discriminator", text u.discriminator), ("flags", unsigned u.flags),
    ("global_name", orNull (u.globalName.map text)), ("id", text u.id),
    ("premium_type", unsigned u.premiumType), ("username", text u.username)]

def readyPayload (u : RpcUser) : Value :=
  .object [("cmd", text "DISPATCH"),
    ("data", .object [
      ("config", .object [("api_endpoint", text "//discord.com/api"), ("cdn_host", text "cdn.discordapp.com"),
        ("environment", text "production")]),
      ("user", u.toValue), ("v", unsigned 1)]),
    ("evt", text "READY"), ("nonce", .null)]

end RpcUser

namespace Commands

open Value Serde

def reply (cmd : String) (data : Value) (evt : Option String) (nonce : Value) : Value :=
  .object [("cmd", text cmd), ("data", data), ("evt", orNull (evt.map text)), ("nonce", nonce)]

def subscribeAck (cmd : ActivityCmd) : Value :=
  reply cmd.cmd (.object [("evt", orNull (cmd.evt.map text))]) none cmd.nonce

def userResponse (cmd : ActivityCmd) (user : Option RpcUser) : Value :=
  reply cmd.cmd (orNull (user.map RpcUser.toValue)) none cmd.nonce

def currentUserUpdate (user : RpcUser) : Value := reply "DISPATCH" user.toValue (some "CURRENT_USER_UPDATE") .null

def rpcError (cmd : String) (nonce : Value) (code : Nat) (message : String) : Value :=
  reply cmd (.object [("code", unsigned code), ("message", text message)]) (some "ERROR") nonce

def genericAck (cmd : ActivityCmd) : Value := reply cmd.cmd .null none cmd.nonce

/-- The id in the echo is the command's; the activity's own copy is dropped from
the command too. -/
def setActivityResponse (cmd : ActivityCmd) : Option Value × ActivityCmd :=
  let cmd := cmd.mapActivity fun a => { a with applicationId := none }
  (cmd.args.map fun args =>
    reply cmd.cmd
      (orNull (args.activity.map fun a =>
        (activityValue a).withMember "application_id" (orNull (cmd.applicationId.map fun id => text id.text))))
      none cmd.nonce,
   cmd)

def needsClient : List String :=
  ["GET_GUILD", "GET_GUILDS", "GET_CHANNEL", "GET_CHANNELS", "CREATE_CHANNEL_INVITE", "GET_RELATIONSHIPS",
    "SET_USER_VOICE_SETTINGS", "SET_USER_VOICE_SETTINGS_2", "PUSH_TO_TALK", "SELECT_VOICE_CHANNEL",
    "GET_SELECTED_VOICE_CHANNEL", "SELECT_TEXT_CHANNEL", "GET_VOICE_SETTINGS", "SET_VOICE_SETTINGS",
    "SET_VOICE_SETTINGS_2", "SET_CERTIFIED_DEVICES", "CAPTURE_SHORTCUT", "GET_IMAGE", "OVERLAY",
    "SET_OVERLAY_LOCKED", "OPEN_OVERLAY_ACTIVITY_INVITE", "OPEN_OVERLAY_GUILD_INVITE",
    "OPEN_OVERLAY_VOICE_SETTINGS", "GET_SKUS", "GET_ENTITLEMENTS", "START_PURCHASE", "VALIDATE_APPLICATION"]

def unsupportedCommand (cmd : String) : Option (Nat × String) :=
  if cmd = "AUTHORIZE" ∨ cmd = "AUTHENTICATE" then
    some (5000, "Authorization requires the real Discord client")
  else if cmd ∈ ["SEND_ACTIVITY_JOIN_INVITE", "CLOSE_ACTIVITY_REQUEST", "ACCEPT_ACTIVITY_INVITE",
      "ACTIVITY_INVITE_USER"] then
    some (5006, "No eligible activity: invites require the real Discord client")
  else if cmd ∈ needsClient then some (1000, "requires the real Discord client")
  else none

theorem setActivityResponse_isSome {cmd : ActivityCmd} (h : cmd.args.isSome) :
    (setActivityResponse cmd).1.isSome := by
  simp [setActivityResponse, ActivityCmd.mapActivity, h]

@[simp] theorem setActivityResponse_pid (cmd : ActivityCmd) : (setActivityResponse cmd).2.pid = cmd.pid :=
  ActivityCmd.mapActivity_pid _ cmd

end Commands

end RichPresence
