import RichPresence.Protocol.Payload

namespace RichPresence.Serde

def escape : Char → List Char
  | '"' => ['\\', '"']
  | '\\' => ['\\', '\\']
  | '\n' => ['\\', 'n']
  | '\r' => ['\\', 'r']
  | '\t' => ['\\', 't']
  | '\x08' => ['\\', 'b']
  | '\x0c' => ['\\', 'f']
  | c => if c.toNat < 32 then
      ['\\', 'u', '0', '0', Nat.digitChar (c.toNat / 16), Nat.digitChar (c.toNat % 16)]
    else [c]

def quoted (s : String) : List Char := '"' :: s.toList.flatMap escape ++ ['"']

/-- Floats do not occur in the shapes below and have no decimal form here. -/
def numberJson : Number → List Char
  | .posInt n => (Nat.repr n.toNat).toList
  | .negInt i => (Int.repr i.toInt).toList
  | .float _ => "null".toList

mutual

def valueJson : Value → List Char
  | .null => "null".toList
  | .bool true => "true".toList
  | .bool false => "false".toList
  | .number n => numberJson n
  | .string s => quoted s
  | .array items => '[' :: itemsJson items ++ [']']
  | .object members => '\x7b' :: membersJson members ++ ['\x7d']

def itemsJson : List Value → List Char
  | [] => []
  | [v] => valueJson v
  | v :: rest => valueJson v ++ ',' :: itemsJson rest

def membersJson : List (String × Value) → List Char
  | [] => []
  | [(key, v)] => quoted key ++ ':' :: valueJson v
  | (key, v) :: rest => quoted key ++ ':' :: valueJson v ++ ',' :: membersJson rest

end

def utf8 (cs : List Char) : Bytes := cs.flatMap String.utf8EncodeChar

def bigEndian (width n : Nat) : Bytes :=
  (List.range width).reverse.map fun i => UInt8.ofNat (n / 256 ^ i)

/-- A length in its shortest header: the small form below `small`, then the
one, two and four byte forms. A header without a one byte form has `none`. -/
def header (small : Nat) (base : UInt8) (one : Option UInt8) (two four : UInt8) (n : Nat) : Bytes :=
  if n < small then [base + UInt8.ofNat n]
  else match one with
    | some tag => if n < 2 ^ 8 then tag :: bigEndian 1 n
        else if n < 2 ^ 16 then two :: bigEndian 2 n else four :: bigEndian 4 n
    | none => if n < 2 ^ 16 then two :: bigEndian 2 n else four :: bigEndian 4 n

def unsignedMsgpack (n : Nat) : Bytes :=
  if n < 2 ^ 32 then header 128 0 (some 0xcc) 0xcd 0xce n else 0xcf :: bigEndian 8 n

def signedMsgpack (i : Int) : Bytes :=
  if 0 ≤ i then unsignedMsgpack i.toNat
  else if -32 ≤ i then bigEndian 1 (2 ^ 8 + i).toNat
  else if -(2 ^ 7) ≤ i then 0xd0 :: bigEndian 1 (2 ^ 8 + i).toNat
  else if -(2 ^ 15) ≤ i then 0xd1 :: bigEndian 2 (2 ^ 16 + i).toNat
  else if -(2 ^ 31) ≤ i then 0xd2 :: bigEndian 4 (2 ^ 32 + i).toNat
  else 0xd3 :: bigEndian 8 (2 ^ 64 + i).toNat

def numberMsgpack : Number → Bytes
  | .posInt n => unsignedMsgpack n.toNat
  | .negInt i => signedMsgpack i.toInt
  | .float bits => 0xcb :: bigEndian 8 bits.toNat

def stringMsgpack (s : String) : Bytes :=
  let bytes := utf8 s.toList
  header 32 0xa0 (some 0xd9) 0xda 0xdb bytes.length ++ bytes

mutual

def valueMsgpack : Value → Bytes
  | .null => [0xc0]
  | .bool true => [0xc3]
  | .bool false => [0xc2]
  | .number n => numberMsgpack n
  | .string s => stringMsgpack s
  | .array items => header 16 0x90 none 0xdc 0xdd items.length ++ itemsMsgpack items
  | .object members => header 16 0x80 none 0xde 0xdf members.length ++ membersMsgpack members

def itemsMsgpack : List Value → Bytes
  | [] => []
  | v :: rest => valueMsgpack v ++ itemsMsgpack rest

def membersMsgpack : List (String × Value) → Bytes
  | [] => []
  | (key, v) :: rest => stringMsgpack key ++ valueMsgpack v ++ membersMsgpack rest

end

/-- Members of a record in declaration order; absent optional ones are skipped. -/
def record (fields : List (String × Option Value)) : Value :=
  .object (fields.filterMap fun f => f.2.map fun v => (f.1, v))

def text (s : String) : Value := .string s

def texts (ss : List String) : Value := .array (ss.map .string)

def unsigned (n : Nat) : Value := .number (.posInt (.ofNat n))

def integer (i : Int) : Value := .number (if 0 ≤ i then .posInt (.ofNat i.toNat) else .negInt (.ofInt i))

def timestampsValue (t : Timestamps) : Value :=
  record [("start", t.start.map integer), ("end", t.stop.map integer)]

def partyValue (p : Party) : Value :=
  record [("id", p.id.map text), ("size", p.size.map fun ns => .array (ns.map unsigned)),
    ("privacy", p.privacy.map unsigned)]

def assetsValue (a : Assets) : Value :=
  record [("large_image", a.largeImage.map text), ("large_text", a.largeText.map text),
    ("small_image", a.smallImage.map text), ("small_text", a.smallText.map text),
    ("large_url", a.largeUrl.map text), ("small_url", a.smallUrl.map text)]

def secretsValue (s : Secrets) : Value :=
  record [("join", s.join.map text), ("spectate", s.spectate.map text), ("match", s.matchSecret.map text)]

def emojiValue (e : Emoji) : Value :=
  record [("name", e.name.map text), ("id", e.id.map text), ("animated", e.animated.map .bool)]

def metadataValue (m : Metadata) : Value :=
  record [("button_urls", m.buttonUrls.map texts), ("artist_ids", m.artistIds.map texts),
    ("album_id", m.albumId.map text), ("context_uri", m.contextUri.map text)]

def activityValue (a : Activity) : Value :=
  record ([("id", a.id.map text), ("name", a.name.map text), ("buttons", a.buttons.map .array),
    ("type", some (unsigned a.type)), ("url", a.url.map text), ("created_at", a.createdAt.map unsigned),
    ("session_id", a.sessionId.map text), ("platform", a.platform.map text),
    ("supported_platforms", a.supportedPlatforms.map texts), ("timestamps", a.timestamps.map timestampsValue),
    ("application_id", a.applicationId.map fun id => text id.text), ("details", a.details.map text),
    ("details_url", a.detailsUrl.map text), ("state", a.state.map text), ("state_url", a.stateUrl.map text),
    ("sync_id", a.syncId.map text), ("instance", a.instance_.map .bool),
    ("status_display_type", a.statusDisplayType.map unsigned), ("flags", a.flags.map unsigned),
    ("emoji", a.emoji.map emojiValue), ("party", a.party.map partyValue), ("assets", a.assets.map assetsValue),
    ("secrets", a.secrets.map secretsValue), ("metadata", a.metadata.map metadataValue)] ++
    a.extra.map fun m => (m.1, some m.2))

def payloadValue (p : ActivityPayload) : Value :=
  .object [("activity", (p.activity.map activityValue).getD .null),
    ("pid", (p.pid.map unsigned).getD .null), ("socketId", (p.socketId.map text).getD .null)]

def processActivityValue (a : ProcessActivity) : Value :=
  .object [("application_id", text a.applicationId.text), ("name", text a.name),
    ("timestamps", .object [("start", unsigned a.start)]), ("type", unsigned a.type),
    ("metadata", .object (a.metadata.map fun m => (m.1, text m.2))), ("flags", unsigned a.flags)]

def processValue (p : ProcessPayload) : Value :=
  .object [("activity", processActivityValue p.activity), ("pid", unsigned p.pid),
    ("socketId", text p.socketId.text)]

/-- The serializers written out: members in declaration order, no blanks, and
the shortest MessagePack headers. -/
def codec : Codec where
  activity a := some (utf8 (valueJson (activityValue a)))
  payloadJson p := some (String.ofList (valueJson (payloadValue p)))
  payloadMsgpack p := some (valueMsgpack (payloadValue p))
  processActivity a := some (utf8 (valueJson (processActivityValue a)))
  processJson p := some (String.ofList (valueJson (processValue p)))
  processMsgpack p := some (valueMsgpack (processValue p))

theorem codec_encodes : codec.Encodes := by
  constructor <;> intro _ <;> rfl

end RichPresence.Serde
