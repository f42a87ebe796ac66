import RichPresence.Detect.Database
import RichPresence.Protocol.Serde
import RichPresence.Types.Text

namespace RichPresence

open Decode Serde

theorem Serde.get_record_cons (key k : String) (v : Option Value) (fields : List (String × Option Value)) :
    (record ((k, v) :: fields)).get key =
      if key = k then v.or ((record fields).get key) else (record fields).get key := by
  cases v with
  | none => simp [record]
  | some v =>
      simp only [record, List.filterMap_cons, Option.map_some, Value.get, List.lookup_cons, Option.some_or]
      split <;> simp_all

theorem Serde.get_record_nil (key : String) : (record []).get key = none := rfl

namespace Detect

/-- The text form of a JSON value, as the serializer displays it. -/
structure Display where
  toText : Value → String
  toText_null : toText .null = "null"

def Display.compact : Display := ⟨fun v => String.ofList (valueJson v), rfl⟩

def trimmedAliases (aliases : Option (List Value)) : List Value :=
  (((aliases.getD []).filterMap Value.asStr).filter (!isBlank ·)).map .string

def trimmedExecutable (exe : Value) : Value :=
  record [("name", some ((exe.get "name").getD (text ""))),
    ("is_launcher", some ((exe.get "is_launcher").getD (.bool false))),
    ("os", some ((exe.get "os").getD (text ""))),
    ("arguments", (exe.get "arguments").filter fun args => args.asStr.getD "" ≠ "")]

def trimmedExecutables (executables : Option (List Value)) : List Value :=
  (executables.getD []).map trimmedExecutable

/-- A string id stands as it is; any other is displayed and loses its quotes. -/
def skuId (D : Display) : Value → String
  | .string s => s
  | other => trimMatches '"' (D.toText other)

def trimmedSku (D : Display) (sku : Value) : Option Value := do
  let distributor ← (← sku.get "distributor").asStr
  let id ← (sku.get "id").map (skuId D)
  if distributor = "" ∨ id = "" then none
  else some (record [("distributor", some (text distributor)), ("id", some (text id))])

def trimmedSkus (D : Display) (skus : Option (List Value)) : List Value :=
  (skus.getD []).filterMap (trimmedSku D)

/-- Present keys are forwarded as they are; an absent one stands as its default. -/
def trimmedEntryFields (D : Display) (game : Value) : Value :=
  let aliases := trimmedAliases ((game.get "aliases").bind Value.asArray)
  record [("id", some ((game.get "id").getD (text ""))), ("name", some ((game.get "name").getD (text ""))),
    ("hook", some ((game.get "hook").getD (.bool false))),
    ("aliases", if aliases.isEmpty then none else some (.array aliases)),
    ("executables", some (.array (trimmedExecutables ((game.get "executables").bind Value.asArray)))),
    ("third_party_skus", some (.array (trimmedSkus D ((game.get "third_party_skus").bind Value.asArray))))]

def decoded {α : Type} (result : Option α) : Except RsrpcError α := result.elim (.error .invalidJson) .ok

def trimDetectableValue (D : Display) (body : Value) : Except RsrpcError Value := do
  let games ← decoded (vec value body)
  return .array (games.map (trimmedEntryFields D))

inductive RawKey
  | absent
  | null
  | value (v : Value)

namespace RawKey

def decode : Decoder RawKey := fun v =>
  (option Decode.value v).map fun
    | none => null
    | some .null => null
    | some v => value v

def present : RawKey → Option Value
  | absent => none
  | null => some .null
  | value v => some v

end RawKey

structure TrimmedActivity where
  id : RawKey
  name : RawKey
  hook : RawKey
  aliases : List Value
  executables : List Value
  thirdPartySkus : List Value

namespace TrimmedActivity

def keys : List String := ["id", "name", "hook", "aliases", "executables", "third_party_skus"]

def decode : Decoder TrimmedActivity := fun v => do
  let members ← membersOf keys 0 v
  some {
    id := ← defaulted .absent "id" RawKey.decode members
    name := ← defaulted .absent "name" RawKey.decode members
    hook := ← defaulted .absent "hook" RawKey.decode members
    aliases := ← defaulted [] "aliases" (vec value) members
    executables := ← defaulted [] "executables" (vec value) members
    thirdPartySkus := ← defaulted [] "third_party_skus" (vec value) members }

def raw (game : TrimmedActivity) : Value :=
  record [("id", game.id.present), ("name", game.name.present), ("hook", game.hook.present),
    ("aliases", some (.array game.aliases)), ("executables", some (.array game.executables)),
    ("third_party_skus", some (.array game.thirdPartySkus))]

end TrimmedActivity

def trimParse (D : Display) (body : Value) : Except RsrpcError (List DetectableActivity) := do
  let games ← decoded (vec TrimmedActivity.decode body)
  let parsed ← games.mapM fun game => decoded (DetectableActivity.decode (trimmedEntryFields D game.raw))
  enforceStructure parsed
  return parsed

inductive Shape
  | direct
  | trimmed
  deriving DecidableEq, Repr

def parseDatabase (D : Display) (body : Value) : Except RsrpcError (List DetectableActivity × Shape) :=
  match vec DetectableActivity.decode body with
  | some parsed => do
      enforceStructure parsed
      return (parsed, .direct)
  | none =>
      match trimParse D body with
      | .ok parsed => .ok (parsed, .trimmed)
      | .error _ => .error .invalidJson

end Detect

end RichPresence
