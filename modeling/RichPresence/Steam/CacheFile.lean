import RichPresence.Lib.Index
import RichPresence.Steam.Libraries
import RichPresence.Types.Ordered

namespace RichPresence.Steam

open Lib Value Serde

def jsonMap (members : List (String × Value)) : Value :=
  .object (members.foldl (fun map m => insertMember m.1 m.2 map) [])

def steamCacheVersion : Nat := 2

def fingerprintToJson (print : Fingerprint) : Value :=
  let mark (n : UInt64) : Value := .number (.posInt n)
  jsonMap [("dir_mtime_ms", mark print.dirMtimeMs), ("manifests", mark print.manifests),
    ("newest_manifest_ms", mark print.newestManifestMs), ("compat_mtime_ms", mark print.compatMtimeMs)]

def fingerprintFromJson (value : Value) : Option Fingerprint := do
  return {
    dirMtimeMs := .ofNat (← (← value.get "dir_mtime_ms").asU64)
    manifests := .ofNat (← (← value.get "manifests").asU64)
    newestManifestMs := .ofNat (← (← value.get "newest_manifest_ms").asU64)
    compatMtimeMs := .ofNat (((value.get "compat_mtime_ms").bind Value.asU64).getD 0) }

structure CacheFile where
  size : Nat
  text : Value

section Model

variable (fold : CaseFold)

def asObject : Value → Option (List (String × Value))
  | .object members => some members
  | _ => none

/-- A directory in the cache is taken when the library owns it and the id is not empty. -/
def loadDir (library : Path) (member : String × Value) : Option (Path × String) := do
  let appid ← member.2.asStr
  if appid = "" || !libraryOwnsPrefix fold library member.1.toList then none else some (member.1.toList, appid)

def loadLibrary (member : String × Value) : Option (Path × CachedLibrary) := do
  let fingerprint ← (member.2.get "fingerprint").bind fingerprintFromJson
  let dirs ← (member.2.get "dirs").bind asObject
  return (member.1.toList, ⟨fingerprint, Table.collect (dirs.filterMap (loadDir fold member.1.toList))⟩)

def loadCacheFrom (file : Option CacheFile) : Cached :=
  match file with
  | none => ∅
  | some file =>
      if file.size > maxFoldersBytes then ∅
      else
        let doc := file.text.loaded
        if (doc.get "version").bind Value.asU64 ≠ some steamCacheVersion then ∅
        else Table.collect ((((doc.get "libraries").bind asObject).getD []).filterMap (loadLibrary fold))

/-- The first library, in the order they are met, that owns a directory. -/
def ownerOf (libPaths : List Path) (dir : Path) : Option Path :=
  libPaths.find? fun library => libraryOwnsPrefix fold library dir

def fileDir (libPaths : List Path) (byLibrary : Table Path Dirs) (dir : Path × String) : Table Path Dirs :=
  match ownerOf fold libPaths dir.1 with
  | some library =>
      match byLibrary.lookup library with
      | some entry => byLibrary.insert library (entry.insert dir.1 dir.2)
      | none => byLibrary
  | none => byLibrary

def dirMembers (w : Walk) (dirs : Dirs) : List (String × Value) :=
  (dirs.pairs w).map fun dir => (String.ofList dir.1, .string dir.2)

def libraryToJson (w : Walk) (byLibrary : Table Path Dirs) (library : Path × Fingerprint) : String × Value :=
  (String.ofList library.1, jsonMap [("fingerprint", fingerprintToJson library.2),
    ("dirs", jsonMap (dirMembers w ((byLibrary.lookup library.1).getD ∅)))])

def emptyDirs (w : Walk) (prints : Table Path Fingerprint) : Table Path Dirs :=
  Table.collect ((w.order prints.keys).map fun library => (library, ∅))

/-- The libraries that are asked in turn whether they own a directory. -/
def askedOwners (w : Walk) (s : SteamLibraries) : List Path := w.order (emptyDirs w s.fingerprints).keys

def dirsByLibrary (w : Walk) (s : SteamLibraries) : Table Path Dirs :=
  (s.dirs.pairs w).foldl (fileDir fold (askedOwners w s)) (emptyDirs w s.fingerprints)

def librariesJson (w : Walk) (s : SteamLibraries) : List (String × Value) :=
  (s.fingerprints.pairs w).map (libraryToJson w (dirsByLibrary fold w s))

def saveCache (w : Walk) (s : SteamLibraries) : CacheFile :=
  let doc := jsonMap [("version", unsigned steamCacheVersion), ("libraries", jsonMap (librariesJson fold w s))]
  ⟨(utf8 (valueJson doc)).length, doc⟩

end Model

section Json

variable {es : List (String × Value)} {key : String} {v : Value}

theorem sorted_inserts (es : List (String × Value)) :
    Sorted (es.foldl (fun map m => insertMember m.1 m.2 map) []) := by
  have hloop (map : List (String × Value)) (hmap : Sorted map) :
      Sorted (es.foldl (fun map m => insertMember m.1 m.2 map) map) := by
    induction es generalizing map with
    | nil => exact hmap
    | cons m es ih => exact ih _ (sorted_insertMember hmap)
  exact hloop [] .nil

theorem ordered_jsonMap (h : ∀ m ∈ es, m.2.Ordered) : (jsonMap es).Ordered := by
  have hloop (map : List (String × Value)) (hmap : OrderedMembers map) :
      OrderedMembers (es.foldl (fun map m => insertMember m.1 m.2 map) map) := by
    induction es generalizing map with
    | nil => exact hmap
    | cons m es ih =>
        exact ih (fun m' hm => h m' (List.mem_cons_of_mem m hm)) _
          (orderedMembers_insertMember (h m List.mem_cons_self) hmap)
  exact ⟨sorted_inserts es, hloop [] trivial⟩

theorem get_jsonMap (hnodup : (es.map Prod.fst).Nodup) : (jsonMap es).get key = some v ↔ (key, v) ∈ es := by
  have hloop (map : List (String × Value)) (t : Table String Value) (hmap : ∀ k, map.lookup k = t.lookup k)
      (k : String) :
      (es.foldl (fun map m => insertMember m.1 m.2 map) map).lookup k =
        (es.foldl (fun t m => t.insert m.1 m.2) t).lookup k := by
    induction es generalizing map t with
    | nil => exact hmap k
    | cons m es ih =>
        refine ih (List.nodup_cons.mp hnodup).2 _ _ fun k' => ?_
        rw [lookup_insertMember, Table.lookup_insert_eq, hmap]
  rw [← Table.lookup_collect hnodup, jsonMap, Value.get, hloop [] ∅ fun k => by simp]
  rfl

theorem nodup_keys_of_sorted {members : List (String × Value)} (h : Sorted members) :
    (members.map Prod.fst).Nodup := by
  rw [List.Nodup, List.pairwise_map]
  refine List.Pairwise.imp (fun {a b} hlt (heq : a.1 = b.1) => ?_) h
  rw [heq] at hlt
  exact String.lt_irrefl b.1 hlt

theorem mem_of_asObject {members : List (String × Value)} (hnodup : (es.map Prod.fst).Nodup)
    (h : asObject (jsonMap es) = some members) : (members.map Prod.fst).Nodup ∧ ∀ m, m ∈ members ↔ m ∈ es := by
  obtain rfl := Option.some.inj h
  have hkeys := nodup_keys_of_sorted (sorted_inserts es)
  refine ⟨hkeys, fun ⟨key, v⟩ => ?_⟩
  rw [← get_jsonMap hnodup, ← lookup_eq_some_iff_mem hkeys]
  rfl

end Json

theorem fingerprintFromJson_toJson (print : Fingerprint) :
    fingerprintFromJson (fingerprintToJson print) = some print := by
  let mark (n : UInt64) : Value := .number (.posInt n)
  have hget {key : String} {n : UInt64} (hmem : (key, mark n) ∈ [("dir_mtime_ms", mark print.dirMtimeMs),
      ("manifests", mark print.manifests), ("newest_manifest_ms", mark print.newestManifestMs),
      ("compat_mtime_ms", mark print.compatMtimeMs)]) : (fingerprintToJson print).get key = some (mark n) := by
    refine (get_jsonMap ?_).mpr hmem
    simp
  rw [fingerprintFromJson, hget (n := print.dirMtimeMs) (by simp), hget (n := print.manifests) (by simp),
    hget (n := print.newestManifestMs) (by simp), hget (n := print.compatMtimeMs) (by simp)]
  simp [mark, asU64, Number.asU64]

variable {fold : CaseFold} {library key : Path} {appid : String}

theorem ofList_injective : Function.Injective String.ofList := by
  intro a b h
  rw [← String.toList_ofList (l := a), h, String.toList_ofList]

theorem toList_injective : Function.Injective String.toList := fun _ _ => String.toList_inj.mp

section Entries

variable (w : Walk)

theorem nodup_dirMembers (dirs : Dirs) : ((dirMembers w dirs).map Prod.fst).Nodup := by
  have hkeys := (Table.nodup_pairs w dirs).map ofList_injective
  rw [dirMembers, List.map_map]
  rwa [List.map_map] at hkeys

theorem mem_dirMembers (dirs : Dirs) :
    (String.ofList key, Value.string appid) ∈ dirMembers w dirs ↔ dirs.lookup key = some appid := by
  rw [← Table.mem_pairs w, dirMembers, List.mem_map]
  constructor
  · rintro ⟨⟨k, v⟩, hmem, heq⟩
    obtain ⟨hk, hv⟩ := Prod.mk.inj heq
    rw [← ofList_injective hk, ← Value.string.inj hv]
    exact hmem
  · intro hmem
    exact ⟨_, hmem, rfl⟩

theorem loadDir_eq_some {member : String × Value} {dir : Path × String} :
    loadDir fold library member = some dir ↔
      member = (String.ofList dir.1, .string dir.2) ∧ dir.2 ≠ "" ∧ libraryOwnsPrefix fold library dir.1 = true := by
  obtain ⟨key, v⟩ := member
  obtain ⟨dir, appid⟩ := dir
  cases v with
  | string s =>
      have hif : loadDir fold library (key, .string s) =
          if s = "" || !libraryOwnsPrefix fold library key.toList then none else some (key.toList, s) := rfl
      rw [hif]
      constructor
      · intro h
        split at h
        next => cases h
        next hkept =>
            rw [Bool.or_eq_true, not_or, decide_eq_true_iff, Bool.not_eq_true, Bool.not_eq_false'] at hkept
            obtain ⟨rfl, rfl⟩ := Prod.mk.inj (Option.some.inj h)
            exact ⟨by rw [String.ofList_toList], hkept⟩
      · rintro ⟨heq, hne, howns⟩
        obtain ⟨rfl, hs⟩ := Prod.mk.inj heq
        obtain rfl := Value.string.inj hs
        rw [String.toList_ofList, howns, Bool.not_true, Bool.or_false, if_neg (by simpa using hne)]
  | null | bool _ | number _ | array _ | object _ => simp [loadDir, Value.asStr]

theorem lookup_loadDirs {members : List (String × Value)} (dirs : Dirs)
    (h : asObject (jsonMap (dirMembers w dirs)) = some members) :
    (Table.collect (members.filterMap (loadDir fold library))).lookup key = some appid ↔
      dirs.lookup key = some appid ∧ appid ≠ "" ∧ libraryOwnsPrefix fold library key = true := by
  obtain ⟨hnodup, hmem⟩ := mem_of_asObject (nodup_dirMembers w dirs) h
  have hkeys : ((members.filterMap (loadDir fold library)).map Prod.fst).Nodup := by
    refine Table.nodup_keys_filterMap toList_injective (fun member dir hdir => ?_) hnodup
    rw [(loadDir_eq_some.mp hdir).1, String.toList_ofList]
  rw [Table.lookup_collect hkeys, List.mem_filterMap, ← mem_dirMembers w, ← hmem]
  constructor
  · rintro ⟨member, hin, hdir⟩
    obtain ⟨rfl, hrest⟩ := loadDir_eq_some.mp hdir
    exact ⟨hin, hrest⟩
  · rintro ⟨hin, hrest⟩
    exact ⟨_, hin, loadDir_eq_some.mpr ⟨rfl, hrest⟩⟩

end Entries

end RichPresence.Steam
