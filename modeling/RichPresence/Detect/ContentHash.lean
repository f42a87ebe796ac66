import RichPresence.Detect.Database
import RichPresence.Lib.Codec
import RichPresence.Protocol.Serde

namespace RichPresence.Detect

open Lib

section Stream

/-- What `Hash` feeds a hasher: the bytes of a `str` and `0xff`, eight bytes for a
`usize` or the discriminant of an `Option`, one for a `bool`. -/
def hashStr (s : String) : Bytes := Serde.utf8 s.toList ++ [0xff]

def hashUsize (n : Nat) : Bytes := leBytes 8 n

def hashBool (b : Bool) : Bytes := [if b then 1 else 0]

def hashOption : Option String → Bytes
  | none => hashUsize 0
  | some s => hashUsize 1 ++ hashStr s

def hashEntryIdentity (entry : DetectableActivity) : Bytes :=
  0x01 :: hashStr entry.id ++ 0x02 :: hashStr entry.name

def hashEntryExes (entry : DetectableActivity) : Bytes :=
  let executables := entry.executables.getD []
  hashUsize executables.length ++ executables.flatMap fun exe =>
    0x03 :: hashStr exe.name ++ hashStr exe.os ++ hashBool exe.isLauncher ++ hashOption exe.arguments

-- The number of ids is fed after the ids, not before them as everywhere else.
def hashEntrySteam (entry : DetectableActivity) : Bytes :=
  let (fed, steam) := (entry.thirdPartySkus.getD []).foldl (fun (fed, steam) sku =>
    match sku.steamId with
    | some id => (fed ++ 0x04 :: hashStr id, steam + 1)
    | none => (fed, steam)) (([] : Bytes), 0)
  fed ++ hashUsize steam

def hashEntryAliases (entry : DetectableActivity) : Bytes :=
  let aliases := entry.aliases.getD []
  hashUsize aliases.length ++ aliases.flatMap fun text => 0x05 :: hashStr text

def entryProjectionHash (entry : DetectableActivity) : Bytes :=
  hashEntryIdentity entry ++ hashEntryExes entry ++ hashEntrySteam entry ++ hashEntryAliases entry

def canonicalContent (parsed : List DetectableActivity) : Bytes :=
  hashUsize parsed.length ++ parsed.flatMap entryProjectionHash

def canonicalContentHash (finish : Bytes → UInt64) (parsed : List DetectableActivity) : UInt64 :=
  finish (canonicalContent parsed)

end Stream

section Parts

theorem utf8_toList_injective : Function.Injective fun s : String => Serde.utf8 s.toList := by
  intro s t h
  apply String.toByteArray_inj.mp
  rw [← String.utf8Encode_toList, ← String.utf8Encode_toList, List.utf8Encode, List.utf8Encode]
  exact congrArg List.toByteArray h

theorem mark_not_mem_utf8EncodeChar (c : Char) : (0xff : UInt8) ∉ String.utf8EncodeChar c := by
  have hbyte (n : Nat) (hn : n < 0xff) : (0xff : UInt8) ≠ UInt8.ofNat n := by
    intro h
    have hval : 255 = (UInt8.ofNat n).toNat := congrArg UInt8.toNat h
    rw [UInt8.toNat_ofNat'] at hval
    omega
  rw [String.utf8EncodeChar]
  split
  · simp only [List.mem_singleton]
    exact hbyte _ (by omega)
  · split
    · simp only [List.mem_cons, List.not_mem_nil, or_false, not_or]
      exact ⟨hbyte _ (by omega), hbyte _ (by omega)⟩
    · split
      · simp only [List.mem_cons, List.not_mem_nil, or_false, not_or]
        exact ⟨hbyte _ (by omega), hbyte _ (by omega), hbyte _ (by omega)⟩
      · simp only [List.mem_cons, List.not_mem_nil, or_false, not_or]
        exact ⟨hbyte _ (by omega), hbyte _ (by omega), hbyte _ (by omega), hbyte _ (by omega)⟩

theorem separable_hashStr : Separable (fun _ => True) hashStr := by
  refine .terminated (fun s hmem => ?_) utf8_toList_injective
  obtain ⟨c, _, hc⟩ := List.mem_flatMap.mp hmem
  exact mark_not_mem_utf8EncodeChar c hc

theorem separable_hashUsize : Separable (· < 2 ^ 64) hashUsize := separable_leBytes 8

theorem separable_hashBool : Separable (fun _ => True) hashBool := by
  refine .of_length (fun _ => rfl) fun a b _ _ h => ?_
  revert a b
  decide

theorem separable_hashOption : Separable (fun _ => True) hashOption := by
  intro a b r s _ _ heq
  cases a with
  | none =>
      cases b with
      | none => exact ⟨rfl, List.append_cancel_left heq⟩
      | some t =>
          rw [hashOption, hashOption, List.append_assoc] at heq
          exact absurd (separable_hashUsize (by decide) (by decide) heq).1 (by decide)
  | some s' =>
      cases b with
      | none =>
          rw [hashOption, hashOption, List.append_assoc] at heq
          exact absurd (separable_hashUsize (by decide) (by decide) heq).1 (by decide)
      | some t =>
          rw [hashOption, hashOption, List.append_assoc, List.append_assoc] at heq
          obtain ⟨rfl, hrest⟩ := separable_hashStr trivial trivial (List.append_cancel_left heq)
          exact ⟨rfl, hrest⟩

end Parts

section Projection

theorem OsName.asStr_fromOs (os : String) : (fromOs os).asStr = os := by
  fun_cases fromOs os <;> rfl

def steamCode (id : String) : Bytes := 0x04 :: hashStr id

def aliasCode (text : String) : Bytes := 0x05 :: hashStr text

def ScannedExe.stream (exe : ScannedExe) : Bytes :=
  0x03 :: (hashStr exe.name ++ (hashStr exe.os.asStr ++ (hashBool exe.isLauncher ++ hashOption exe.arguments)))

/-- The stream of an entry, from what the scanner keeps of it. -/
def ScannedEntry.stream (entry : ScannedEntry) : Bytes :=
  0x01 :: (hashStr entry.id.text ++ 0x02 :: (hashStr entry.name ++
    (hashUsize entry.executables.length ++ entry.executables.flatMap ScannedExe.stream ++
      (entry.steamIds.flatMap steamCode ++ (hashUsize entry.steamIds.length ++
        (hashUsize entry.aliases.length ++ entry.aliases.flatMap aliasCode))))))

theorem foldl_steam (skus : List ThirdPartySku) (fed : Bytes) (steam : Nat) :
    skus.foldl (fun (fed, steam) sku =>
        match sku.steamId with
        | some id => (fed ++ 0x04 :: hashStr id, steam + 1)
        | none => (fed, steam)) (fed, steam) =
      (fed ++ (skus.filterMap ThirdPartySku.steamId).flatMap steamCode,
        steam + (skus.filterMap ThirdPartySku.steamId).length) := by
  induction skus generalizing fed steam with
  | nil => simp only [List.foldl_nil, List.filterMap_nil, List.flatMap_nil, List.append_nil, List.length_nil,
      Nat.add_zero]
  | cons sku skus ih =>
      rw [List.foldl_cons]
      cases hid : sku.steamId with
      | none => rw [List.filterMap_cons_none hid, ih]
      | some id =>
          rw [List.filterMap_cons_some hid, ih, List.flatMap_cons, List.length_cons, steamCode, List.append_assoc,
            Nat.add_assoc, Nat.add_comm 1]

theorem hashEntrySteam_eq (entry : DetectableActivity) :
    hashEntrySteam entry = (ScannedEntry.fromActivity entry).steamIds.flatMap steamCode ++
      hashUsize (ScannedEntry.fromActivity entry).steamIds.length := by
  rw [hashEntrySteam, foldl_steam, List.nil_append, Nat.zero_add]
  rfl

theorem hashEntryExes_eq (entry : DetectableActivity) :
    hashEntryExes entry = hashUsize (ScannedEntry.fromActivity entry).executables.length ++
      (ScannedEntry.fromActivity entry).executables.flatMap ScannedExe.stream := by
  simp only [hashEntryExes, ScannedEntry.fromActivity, List.length_map, List.flatMap_map, ScannedExe.stream,
    ScannedExe.fromExecutable, OsName.asStr_fromOs, List.append_assoc, List.cons_append]

theorem entryProjectionHash_eq (entry : DetectableActivity) :
    entryProjectionHash entry = (ScannedEntry.fromActivity entry).stream := by
  simp only [entryProjectionHash, hashEntryExes_eq, hashEntrySteam_eq, hashEntryIdentity, hashEntryAliases,
    ScannedEntry.stream, List.append_assoc, List.cons_append]
  rfl

theorem canonicalContent_eq (parsed : List DetectableActivity) :
    canonicalContent parsed = hashUsize (parsed.map ScannedEntry.fromActivity).length ++
      (parsed.map ScannedEntry.fromActivity).flatMap ScannedEntry.stream := by
  have hentry : entryProjectionHash = fun entry => (ScannedEntry.fromActivity entry).stream :=
    funext entryProjectionHash_eq
  rw [canonicalContent, List.length_map, List.flatMap_map, hentry]

theorem separable_exeStream :
    Separable (fun exe : ScannedExe => .fromOs exe.os.asStr = exe.os) ScannedExe.stream := by
  intro a b r s ha hb heq
  simp only [ScannedExe.stream, List.cons_append, List.cons.injEq, true_and, List.append_assoc] at heq
  obtain ⟨hname, heq⟩ := separable_hashStr trivial trivial heq
  obtain ⟨hos, heq⟩ := separable_hashStr trivial trivial heq
  obtain ⟨hlauncher, heq⟩ := separable_hashBool trivial trivial heq
  obtain ⟨hargs, heq⟩ := separable_hashOption trivial trivial heq
  have hos : a.os = b.os := by rw [← ha, ← hb, hos]
  refine ⟨?_, heq⟩
  cases a
  cases b
  rw [ScannedExe.mk.injEq]
  exact ⟨hname, hos, hlauncher, hargs⟩

/-- The ids of an entry that the number of those before them does not look like. -/
def ClearSteamIds (ids : List String) : Prop := Unmistakable hashUsize steamCode 0 ids

instance (ids : List String) : Decidable (ClearSteamIds ids) :=
  inferInstanceAs (Decidable (Unmistakable hashUsize steamCode 0 ids))

structure ScannedEntry.Readable (entry : ScannedEntry) : Prop where
  executables : entry.executables.length < 2 ^ 64 ∧ ∀ exe ∈ entry.executables, .fromOs exe.os.asStr = exe.os
  steamIds : entry.steamIds.length < 2 ^ 64
  clear : ClearSteamIds entry.steamIds
  aliases : entry.aliases.length < 2 ^ 64

theorem separable_entryStream : Separable ScannedEntry.Readable ScannedEntry.stream := by
  intro a b r s ha hb heq
  simp only [ScannedEntry.stream, List.cons_append, List.cons.injEq, true_and, List.append_assoc] at heq
  obtain ⟨hid, heq⟩ := separable_hashStr trivial trivial heq
  rw [List.cons.injEq] at heq
  obtain ⟨hname, heq⟩ := separable_hashStr trivial trivial heq.2
  rw [← List.append_assoc, ← List.append_assoc (hashUsize b.executables.length)] at heq
  obtain ⟨hexes, heq⟩ := separable_hashUsize.counted separable_exeStream ha.executables hb.executables heq
  have hfree (ids : List String) : ∀ id ∈ ids, True := fun _ _ => trivial
  obtain ⟨hsteam, heq⟩ := separable_hashUsize.countedAfter (n := 0) separable_hashStr.cons
    ⟨(Nat.zero_add _).symm ▸ ha.steamIds, hfree _⟩ ⟨(Nat.zero_add _).symm ▸ hb.steamIds, hfree _⟩ ha.clear hb.clear
    (by rw [Nat.zero_add, Nat.zero_add]; exact heq)
  rw [← List.append_assoc, ← List.append_assoc (hashUsize b.aliases.length)] at heq
  obtain ⟨haliases, heq⟩ := separable_hashUsize.counted separable_hashStr.cons ⟨ha.aliases, hfree _⟩
    ⟨hb.aliases, hfree _⟩ heq
  refine ⟨?_, heq⟩
  cases a
  cases b
  rw [ScannedEntry.mk.injEq]
  exact ⟨congrArg AppId.mk hid, hname, hexes, hsteam, haliases⟩

end Projection

/-- Lengths that a `Vec` has. -/
structure InMemory (parsed : List DetectableActivity) : Prop where
  entries : parsed.length < 2 ^ 64
  lists : ∀ entry ∈ parsed, (entry.executables.getD []).length < 2 ^ 64 ∧
    (entry.thirdPartySkus.getD []).length < 2 ^ 64 ∧ (entry.aliases.getD []).length < 2 ^ 64

theorem ScannedEntry.readable_fromActivity {parsed : List DetectableActivity} {entry : DetectableActivity}
    (h : InMemory parsed) (hentry : entry ∈ parsed) (hclear : ClearSteamIds (fromActivity entry).steamIds) :
    (fromActivity entry).Readable where
  executables := by
    refine ⟨(List.length_map _).symm ▸ (h.lists entry hentry).1, fun exe hexe => ?_⟩
    obtain ⟨raw, _, rfl⟩ := List.mem_map.mp hexe
    exact congrArg OsName.fromOs (OsName.asStr_fromOs raw.os)
  steamIds := Nat.lt_of_le_of_lt (List.length_filterMap_le _ _) (h.lists entry hentry).2.1
  clear := hclear
  aliases := (h.lists entry hentry).2.2

/-- What the change detector hashes is the same for two databases exactly when the
scanner sees the same in both, Steam ids that look like their number aside. -/
theorem canonicalContent_eq_iff (a b : List DetectableActivity) (ha : InMemory a) (hb : InMemory b)
    (hclear : ∀ entry ∈ a ++ b, ClearSteamIds (ScannedEntry.fromActivity entry).steamIds) :
    canonicalContent a = canonicalContent b ↔
      a.map ScannedEntry.fromActivity = b.map ScannedEntry.fromActivity := by
  rw [canonicalContent_eq, canonicalContent_eq]
  refine ⟨fun h => ?_, fun h => by rw [h]⟩
  have hreadable {c : List DetectableActivity} (hc : InMemory c) (hsub : c ⊆ a ++ b) :
      (c.map ScannedEntry.fromActivity).length < 2 ^ 64 ∧
        ∀ entry ∈ c.map ScannedEntry.fromActivity, entry.Readable := by
    refine ⟨(List.length_map _).symm ▸ hc.entries, fun entry hentry => ?_⟩
    obtain ⟨raw, hraw, rfl⟩ := List.mem_map.mp hentry
    exact ScannedEntry.readable_fromActivity hc hraw (hclear raw (hsub hraw))
  exact (separable_hashUsize.counted separable_entryStream).inj
    (hreadable ha (List.subset_append_left a b)) (hreadable hb (List.subset_append_right a b)) h

section Collision

def steamActivity (ids aliases : List String) : DetectableActivity where
  hook := false
  id := "400"
  name := "Portal"
  thirdPartySkus := some (ids.map fun id => { distributor := "steam", id := some id })
  aliases := some aliases

theorem inMemory_steamActivity {ids aliases : List String} (hids : ids.length < 2 ^ 64)
    (haliases : aliases.length < 2 ^ 64) : InMemory [steamActivity ids aliases] where
  entries := Nat.one_lt_two_pow (by decide)
  lists := by
    rw [List.forall_mem_singleton]
    refine ⟨Nat.two_pow_pos 64, ?_, haliases⟩
    rw [steamActivity, Option.getD_some, List.length_map]
    exact hids

theorem renamed_alias_changes_content :
    canonicalContent [steamActivity ["400"] ["portal"]] ≠ canonicalContent [steamActivity ["400"] ["portal 1"]] := by
  intro h
  have hsame := (canonicalContent_eq_iff _ _ (inMemory_steamActivity (by decide) (by decide))
    (inMemory_steamActivity (by decide) (by decide)) (by decide +kernel)).mp h
  exact absurd hsame (by decide +kernel)

/-- The number of four Steam ids starts with the tag of a fifth, so the aliases
behind it can be moved into one. -/
theorem aliases_moved_into_steamId :
    let ids := ["401", "402", "403", "404"]
    let aliases := ["portal", "\x00\x00\x00\x00\x00\x00\x00\x01\x00\x00\x00\x00\x00\x00\x00\x05still alive"]
    let moved := "\x00\x00\x00\x00\x00\x00\x00\x02\x00\x00\x00\x00\x00\x00\x00\x05portal"
    let before := [steamActivity ids aliases]
    let after := [steamActivity (ids ++ [moved]) ["still alive"]]
    enforceStructure before = .ok () ∧ enforceStructure after = .ok () ∧
      canonicalContent before = canonicalContent after ∧
      before.map ScannedEntry.fromActivity ≠ after.map ScannedEntry.fromActivity := by
  decide +kernel

end Collision

end RichPresence.Detect
