import RichPresence.Types.Decode
import RichPresence.Types.Ids

namespace RichPresence.Detect

open Decode

structure Developer where
  id : String
  name : String
  deriving DecidableEq, Repr

structure Executable where
  isLauncher : Bool
  name : String
  os : String
  arguments : Option String := none
  deriving DecidableEq, Repr

structure Publisher where
  id : String
  name : String
  deriving DecidableEq, Repr

structure ThirdPartySku where
  distributor : String
  id : Option String := none
  sku : Option String := none
  deriving DecidableEq, Repr

structure DetectableActivity where
  botPublic : Option Bool := none
  botRequireCodeGrant : Option Bool := none
  coverImage : Option String := none
  description : Option String := none
  developers : Option (List Developer) := none
  executables : Option (List Executable) := none
  flags : Option Int := none
  guildId : Option String := none
  hook : Bool
  icon : Option String := none
  id : String
  name : String
  publishers : Option (List Publisher) := none
  rpcOrigins : Option (List String) := none
  splash : Option String := none
  thirdPartySkus : Option (List ThirdPartySku) := none
  typeField : Option Int := none
  verifyKey : Option String := none
  primarySkuId : Option String := none
  slug : Option String := none
  aliases : Option (List String) := none
  overlay : Option Bool := none
  overlayCompatibilityHook : Option Bool := none
  privacyPolicyUrl : Option String := none
  termsOfServiceUrl : Option String := none
  eulaId : Option String := none
  deeplinkUri : Option String := none
  tags : Option (List String) := none
  pid : Option Nat := none
  timestamp : Option Nat := none
  deriving DecidableEq, Repr

def Developer.decode : Decoder Developer := fun v => do
  let members ← membersOf ["id", "name"] 2 v
  some { id := ← required "id" string members, name := ← required "name" string members }

def Executable.decode : Decoder Executable := fun v => do
  let members ← membersOf ["is_launcher", "name", "os", "arguments"] 4 v
  some {
    isLauncher := ← required "is_launcher" bool members
    name := ← required "name" string members
    os := ← required "os" string members
    arguments := ← optional "arguments" string members }

def Publisher.decode : Decoder Publisher := fun v => do
  let members ← membersOf ["id", "name"] 2 v
  some { id := ← required "id" string members, name := ← required "name" string members }

def ThirdPartySku.decode : Decoder ThirdPartySku := fun v => do
  let members ← membersOf ["distributor", "id", "sku"] 3 v
  some {
    distributor := ← required "distributor" string members
    id := ← optional "id" string members
    sku := ← optional "sku" string members }

/-- The fields in the order of their declaration. The last one has no default of its
own, so an array has to give them all. -/
def DetectableActivity.keys : List String :=
  ["bot_public", "bot_require_code_grant", "cover_image", "description", "developers", "executables", "flags",
    "guild_id", "hook", "icon", "id", "name", "publishers", "rpc_origins", "splash", "third_party_skus",
    "type", "verify_key", "primary_sku_id", "slug", "aliases", "overlay", "overlay_compatibility_hook",
    "privacy_policy_url", "terms_of_service_url", "eula_id", "deeplink_uri", "tags", "pid", "timestamp"]

def DetectableActivity.decode : Decoder DetectableActivity := fun v => do
  let members ← membersOf keys 30 v
  some {
    botPublic := ← optional "bot_public" bool members
    botRequireCodeGrant := ← optional "bot_require_code_grant" bool members
    coverImage := ← optional "cover_image" string members
    description := ← optional "description" string members
    developers := ← optional "developers" (vec Developer.decode) members
    executables := ← optional "executables" (vec Executable.decode) members
    flags := ← optional "flags" i64 members
    guildId := ← optional "guild_id" string members
    hook := ← required "hook" bool members
    icon := ← optional "icon" string members
    id := ← required "id" string members
    name := ← required "name" string members
    publishers := ← optional "publishers" (vec Publisher.decode) members
    rpcOrigins := ← optional "rpc_origins" (vec string) members
    splash := ← optional "splash" string members
    thirdPartySkus := ← optional "third_party_skus" (vec ThirdPartySku.decode) members
    typeField := ← optional "type" i64 members
    verifyKey := ← optional "verify_key" string members
    primarySkuId := ← optional "primary_sku_id" string members
    slug := ← optional "slug" string members
    aliases := ← optional "aliases" (vec string) members
    overlay := ← optional "overlay" bool members
    overlayCompatibilityHook := ← optional "overlay_compatibility_hook" bool members
    privacyPolicyUrl := ← optional "privacy_policy_url" string members
    termsOfServiceUrl := ← optional "terms_of_service_url" string members
    eulaId := ← optional "eula_id" string members
    deeplinkUri := ← optional "deeplink_uri" string members
    tags := ← optional "tags" (vec string) members
    pid := ← optional "pid" u64 members
    timestamp := ← optional "timestamp" u64 members }

inductive RsrpcError
  | invalidJson
  | databaseTooLarge (what : String)
  deriving DecidableEq, Repr

def maxEntries : Nat := 100000
def maxExecutablesPerEntry : Nat := 256
def maxAliasesPerEntry : Nat := 64
def maxThirdPartySkusPerEntry : Nat := 128
def maxNameLen : Nat := 1024
def maxExecutableNameLen : Nat := 512
def maxArgumentsLen : Nat := 256
def maxIdLen : Nat := 64

def tooLarge (what : String) : Except RsrpcError Unit := .error (.databaseTooLarge what)

def enforceExecutable (executable : Executable) : Except RsrpcError Unit := do
  if executable.name.utf8ByteSize > maxExecutableNameLen then tooLarge "executable name too long"
  if executable.arguments.any (·.utf8ByteSize > maxArgumentsLen) then tooLarge "executable arguments too long"

def enforceEntry (entry : DetectableActivity) : Except RsrpcError Unit := do
  if entry.id.utf8ByteSize > maxIdLen then tooLarge "application id too long"
  if entry.name.utf8ByteSize > maxNameLen then tooLarge "game name too long"
  if (entry.executables.getD []).length > maxExecutablesPerEntry then
    tooLarge "too many executables in one entry"
  (entry.executables.getD []).forM enforceExecutable
  if (entry.aliases.getD []).length > maxAliasesPerEntry then tooLarge "too many aliases in one entry"
  if (entry.thirdPartySkus.getD []).length > maxThirdPartySkusPerEntry then
    tooLarge "too many Steam SKUs in one entry"

def enforceStructure (entries : List DetectableActivity) : Except RsrpcError Unit := do
  if entries.length > maxEntries then tooLarge "too many entries"
  entries.forM enforceEntry

section Checks

variable {first rest : Except RsrpcError Unit} {p : Prop} [Decidable p] {what : String}

theorem both_ok_iff : (do first; rest) = .ok () ↔ first = .ok () ∧ rest = .ok () := by
  cases first with
  | error e => exact ⟨fun h => (nomatch h), fun h => (nomatch h.1)⟩
  | ok _ => exact ⟨fun h => ⟨rfl, h⟩, fun h => h.2⟩

theorem within_ok_iff : (if p then tooLarge what else pure ()) = .ok () ↔ ¬p := by
  by_cases h : p
  · rw [if_pos h]
    exact ⟨fun h => (nomatch h), fun hn => absurd h hn⟩
  · rw [if_neg h]
    exact ⟨fun _ => h, fun _ => rfl⟩

theorem within_then_ok_iff :
    (if p then (do tooLarge what; rest) else rest) = .ok () ↔ ¬p ∧ rest = .ok () := by
  by_cases h : p
  · rw [if_pos h]
    exact ⟨fun h => (nomatch h), fun hn => absurd h hn.1⟩
  · rw [if_neg h]
    exact ⟨fun hr => ⟨h, hr⟩, fun hr => hr.2⟩

theorem forM_ok_iff {α : Type} {f : α → Except RsrpcError Unit} {xs : List α} :
    xs.forM f = .ok () ↔ ∀ x ∈ xs, f x = .ok () := by
  induction xs with
  | nil => simp only [List.not_mem_nil, false_imp_iff, implies_true, iff_true]; rfl
  | cons x xs ih =>
      rw [List.forall_mem_cons, ← ih]
      exact both_ok_iff

end Checks

theorem enforceExecutable_ok_iff (exe : Executable) :
    enforceExecutable exe = .ok () ↔ exe.name.utf8ByteSize ≤ maxExecutableNameLen ∧
      ∀ arguments, exe.arguments = some arguments → arguments.utf8ByteSize ≤ maxArgumentsLen := by
  simp only [enforceExecutable, within_then_ok_iff, within_ok_iff, gt_iff_lt, Nat.not_lt]
  cases exe.arguments <;> simp

theorem enforceEntry_ok_iff (entry : DetectableActivity) :
    enforceEntry entry = .ok () ↔ entry.id.utf8ByteSize ≤ maxIdLen ∧ entry.name.utf8ByteSize ≤ maxNameLen ∧
      (entry.executables.getD []).length ≤ maxExecutablesPerEntry ∧
      (∀ exe ∈ entry.executables.getD [], enforceExecutable exe = .ok ()) ∧
      (entry.aliases.getD []).length ≤ maxAliasesPerEntry ∧
      (entry.thirdPartySkus.getD []).length ≤ maxThirdPartySkusPerEntry := by
  simp only [enforceEntry, within_then_ok_iff, within_ok_iff, both_ok_iff, forM_ok_iff, gt_iff_lt, Nat.not_lt]

theorem enforceStructure_ok_iff (entries : List DetectableActivity) :
    enforceStructure entries = .ok () ↔
      entries.length ≤ maxEntries ∧ ∀ entry ∈ entries, enforceEntry entry = .ok () := by
  simp only [enforceStructure, within_then_ok_iff, forM_ok_iff, gt_iff_lt, Nat.not_lt]

inductive OsName
  | win32
  | linux
  | darwin
  | empty
  | other (os : String)
  deriving DecidableEq, Repr

def OsName.fromOs : String → OsName
  | "win32" => win32
  | "linux" => linux
  | "darwin" => darwin
  | "" => empty
  | os => other os

def OsName.asStr : OsName → String
  | win32 => "win32"
  | linux => "linux"
  | darwin => "darwin"
  | empty => ""
  | other os => os

structure ScannedExe where
  name : String
  os : OsName := .empty
  isLauncher : Bool := false
  arguments : Option String := none
  deriving DecidableEq, Repr

structure ScannedEntry where
  id : AppId
  name : String
  executables : List ScannedExe := []
  steamIds : List String := []
  aliases : List String := []
  deriving DecidableEq, Repr

def ScannedExe.fromExecutable (exe : Executable) : ScannedExe :=
  ⟨exe.name, .fromOs exe.os, exe.isLauncher, exe.arguments⟩

def ThirdPartySku.steamId (sku : ThirdPartySku) : Option String :=
  if sku.distributor = "steam" then sku.id.filter (· ≠ "") else none

def ScannedEntry.fromActivity (activity : DetectableActivity) : ScannedEntry where
  id := ⟨activity.id⟩
  name := activity.name
  executables := (activity.executables.getD []).map .fromExecutable
  steamIds := (activity.thirdPartySkus.getD []).filterMap ThirdPartySku.steamId
  aliases := activity.aliases.getD []

end RichPresence.Detect
