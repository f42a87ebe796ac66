import RichPresence.Types.Activity
import RichPresence.Types.Decode

namespace RichPresence

namespace Decode

variable {α : Type}

def u32 : Decoder Nat := fun v => v.asU64.filter (· < 2 ^ 32)

def appId : Decoder AppId := fun v => (string v).map AppId.mk

/-- A hash map is read from a map. A key that stands twice keeps its last value
and the order of the keys is of no account. -/
def hashMap : Decoder (List (String × Value))
  | .object members => some (Value.loadedMembers [] members)
  | _ => none

theorem optional_of_field {key : String} {d : Decoder α} {members : List (String × Value)} {v : Value}
    {x : Option α} (hfield : (field key members).join = some v) (hv : v ≠ .null)
    (h : optional key d members = some x) : ∃ a, x = some a ∧ d v = some a := by
  obtain hfield : field key members = some (some v) := Option.join_eq_some_iff.mp hfield
  rw [optional, defaulted, hfield] at h
  change option d v = some x at h
  rw [option.eq_def] at h
  split at h
  · exact absurd rfl hv
  · obtain ⟨a, ha, rfl⟩ := Option.map_eq_some_iff.mp h
    exact ⟨a, rfl, ha⟩

theorem ne_null_of_membersOf {keys : List String} {least : Nat} {v : Value} {members : List (String × Value)}
    (h : membersOf keys least v = some members) : v ≠ .null := by
  rintro rfl
  cases h

end Decode

open Decode

namespace Timestamps

def keys : List String := ["start", "end"]

def decode : Decoder Timestamps := fun v => do
  let members ← membersOf keys 0 v
  some { start := ← optional "start" i64 members, stop := ← optional "end" i64 members }

end Timestamps

namespace Party

def keys : List String := ["id", "size", "privacy"]

def decode : Decoder Party := fun v => do
  let members ← membersOf keys 3 v
  some {
    id := ← optional "id" string members
    size := ← optional "size" (vec u32) members
    privacy := ← optional "privacy" u32 members }

end Party

namespace Assets

def keys : List String := ["large_image", "large_text", "small_image", "small_text", "large_url", "small_url"]

def decode : Decoder Assets := fun v => do
  let members ← membersOf keys 6 v
  some {
    largeImage := ← optional "large_image" string members
    largeText := ← optional "large_text" string members
    smallImage := ← optional "small_image" string members
    smallText := ← optional "small_text" string members
    largeUrl := ← optional "large_url" string members
    smallUrl := ← optional "small_url" string members }

end Assets

namespace Secrets

def keys : List String := ["join", "spectate", "match"]

def decode : Decoder Secrets := fun v => do
  let members ← membersOf keys 3 v
  some {
    join := ← optional "join" string members
    spectate := ← optional "spectate" string members
    matchSecret := ← optional "match" string members }

end Secrets

namespace Emoji

def keys : List String := ["name", "id", "animated"]

def decode : Decoder Emoji := fun v => do
  let members ← membersOf keys 3 v
  some {
    name := ← optional "name" string members
    id := ← optional "id" string members
    animated := ← optional "animated" bool members }

end Emoji

namespace Metadata

def keys : List String := ["button_urls", "artist_ids", "album_id", "context_uri"]

def decode : Decoder Metadata := fun v => do
  let members ← membersOf keys 4 v
  some {
    buttonUrls := ← optional "button_urls" (vec string) members
    artistIds := ← optional "artist_ids" (vec string) members
    albumId := ← optional "album_id" string members
    contextUri := ← optional "context_uri" string members }

end Metadata

namespace Activity

def keys : List String :=
  ["id", "name", "buttons", "type", "url", "created_at", "session_id", "platform", "supported_platforms",
    "timestamps", "application_id", "details", "details_url", "state", "state_url", "sync_id", "instance",
    "status_display_type", "flags", "emoji", "party", "assets", "secrets", "metadata"]

def decodeFields (members : List (String × Value)) : Option Activity := do
  some {
    id := ← optional "id" string members
    name := ← optional "name" string members
    buttons := ← optional "buttons" (vec value) members
    type := ← defaulted 0 "type" u32 members
    url := ← optional "url" string members
    createdAt := ← optional "created_at" u64 members
    sessionId := ← optional "session_id" string members
    platform := ← optional "platform" string members
    supportedPlatforms := ← optional "supported_platforms" (vec string) members
    timestamps := ← optional "timestamps" Timestamps.decode members
    applicationId := ← optional "application_id" appId members
    details := ← optional "details" string members
    detailsUrl := ← optional "details_url" string members
    state := ← optional "state" string members
    stateUrl := ← optional "state_url" string members
    syncId := ← optional "sync_id" string members
    instance_ := ← optional "instance" bool members
    statusDisplayType := ← optional "status_display_type" u32 members
    flags := ← optional "flags" u32 members
    emoji := ← optional "emoji" Emoji.decode members
    party := ← optional "party" Party.decode members
    assets := ← optional "assets" Assets.decode members
    secrets := ← optional "secrets" Secrets.decode members
    metadata := ← optional "metadata" Metadata.decode members }

def unread (members : List (String × Value)) : List (String × Value) := members.filter fun m => m.1 ∉ keys

/-- The flattened field takes the members that no other field is read from. A
struct that has one is read from a map only. -/
def decode : Decoder Activity := struct fun members => do
  let activity ← decodeFields members
  some { activity with extra := Value.loadedMembers [] (unread members) }

theorem extra_of_decode {members : List (String × Value)} {a : Activity} (h : decode (.object members) = some a) :
    a.extra = Value.loadedMembers [] (unread members) := by
  obtain ⟨b, -, hb⟩ := Option.bind_eq_some_iff.mp h
  obtain rfl := Option.some.inj hb
  rfl

end Activity

namespace ActivityCmdArgs

def keys : List String := ["pid", "activity", "code", "user_id"]

def decode : Decoder ActivityCmdArgs := fun v => do
  let members ← membersOf keys 4 v
  some {
    pid := ← optional "pid" u64 members
    activity := ← optional "activity" Activity.decode members
    code := ← optional "code" string members
    userId := ← optional "user_id" string members }

end ActivityCmdArgs

namespace ActivityCmd

def keys : List String := ["application_id", "cmd", "args", "data", "evt", "nonce"]

def decode : Decoder ActivityCmd := fun v => do
  let members ← membersOf keys 6 v
  some {
    applicationId := ← optional "application_id" appId members
    cmd := ← required "cmd" string members
    args := ← optional "args" ActivityCmdArgs.decode members
    data := ← optional "data" hashMap members
    evt := ← optional "evt" string members
    nonce := ← required "nonce" value members }

/-- The text of the activity in the text of a command. -/
def activityText (body : Value) : Option Value := do
  let command ← membersOf keys 6 body
  let args ← (field "args" command).join
  let members ← membersOf ActivityCmdArgs.keys 4 args
  (field "activity" members).join

theorem activity_of_decode {body : Value} {cmd : ActivityCmd} {members : List (String × Value)}
    (h : decode body = some cmd) (htext : activityText body = some (.object members)) :
    ∃ a, cmd.activity = some a ∧ Activity.decode (.object members) = some a := by
  simp only [activityText, Option.bind_eq_bind, Option.bind_eq_some_iff] at htext
  obtain ⟨command, hcommand, argsText, hargsText, argMembers, hargMembers, hfield⟩ := htext
  simp only [decode, hcommand, Option.bind_eq_bind, Option.bind_some, Option.bind_eq_some_iff] at h
  obtain ⟨_, -, _, -, argsRead, hargsRead, _, -, _, -, _, -, hcmd⟩ := h
  obtain rfl := Option.some.inj hcmd
  obtain ⟨args, rfl, hargs⟩ := optional_of_field hargsText (ne_null_of_membersOf hargMembers) hargsRead
  simp only [ActivityCmdArgs.decode, hargMembers, Option.bind_eq_bind, Option.bind_some,
    Option.bind_eq_some_iff] at hargs
  obtain ⟨_, -, activityRead, hactivityRead, _, -, _, -, hargs⟩ := hargs
  obtain rfl := Option.some.inj hargs
  obtain ⟨a, rfl, ha⟩ := optional_of_field hfield Value.noConfusion hactivityRead
  exact ⟨a, rfl, ha⟩

end ActivityCmd

end RichPresence
