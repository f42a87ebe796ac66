import RichPresence.Steam.CacheFile
import RichPresence.Steam.Discovery

namespace RichPresence.Steam

open Lib Value Serde

variable {fold : CaseFold} {library key : Path} {appid : String}

section Owners

variable {w : Walk} {libPaths : List Path} {s : SteamLibraries} {entry : CachedLibrary}

theorem lookup_fileDirs (es : List (Path × String)) (byLibrary : Table Path Dirs) (library : Path) :
    (es.foldl (fileDir fold libPaths) byLibrary).lookup library =
      (byLibrary.lookup library).map fun entry =>
        es.foldl (fun t e => if ownerOf fold libPaths e.1 == some library then t.insert e.1 e.2 else t) entry := by
  induction es generalizing byLibrary with
  | nil =>
      rw [List.foldl_nil]
      exact Option.map_id'.symm
  | cons e es ih =>
      have hstep : (fileDir fold libPaths byLibrary e).lookup library =
          (byLibrary.lookup library).map fun entry =>
            if ownerOf fold libPaths e.1 == some library then entry.insert e.1 e.2 else entry := by
        rw [fileDir]
        cases howner : ownerOf fold libPaths e.1 with
        | none => exact Option.map_id'.symm
        | some owner =>
            simp only [Option.some_beq_some, beq_iff_eq]
            by_cases hsame : owner = library
            · subst hsame
              cases hentry : byLibrary.lookup owner with
              | none => exact hentry
              | some entry => simp
            · simp only [if_neg hsame, Option.map_id']
              split
              · rw [Table.lookup_insert_eq, if_neg (Ne.symm hsame)]
              · rfl
      rw [List.foldl_cons, ih, hstep, Option.map_map]
      rfl

theorem lookup_emptyDirs (w : Walk) (prints : Table Path Fingerprint) {dirs : Dirs} :
    (emptyDirs w prints).lookup library = some dirs ↔ library ∈ prints ∧ dirs = ∅ := by
  have hnodup : (((w.order prints.keys).map fun library => (library, (∅ : Dirs))).map Prod.fst).Nodup := by
    rw [List.map_map]
    exact ((w.perm prints.keys).nodup_iff.mpr prints.keys_nodup).map Function.injective_id
  rw [emptyDirs, Table.lookup_collect hnodup, List.mem_map, AList.mem_keys]
  constructor
  · rintro ⟨library, hmem, heq⟩
    obtain ⟨rfl, rfl⟩ := Prod.mk.inj heq
    exact ⟨w.mem_order.mp hmem, rfl⟩
  · rintro ⟨hmem, rfl⟩
    exact ⟨library, w.mem_order.mpr hmem, rfl⟩

theorem mem_askedOwners : library ∈ askedOwners w s ↔ library ∈ s.fingerprints := by
  rw [askedOwners, w.mem_order, Table.mem_keys_iff_lookup]
  simp only [lookup_emptyDirs, exists_eq_right]

theorem lookup_dirsByLibrary (h : library ∈ s.fingerprints) :
    (((dirsByLibrary fold w s).lookup library).getD ∅).lookup key = some appid ↔
      s.dirs.lookup key = some appid ∧ ownerOf fold (askedOwners w s) key = some library := by
  have hover := Table.lookup_overwrite w (fun key => ownerOf fold (askedOwners w s) key == some library) ∅ s.dirs key
  rw [Table.overwrite] at hover
  rw [dirsByLibrary, lookup_fileDirs, (lookup_emptyDirs w s.fingerprints).mpr ⟨h, rfl⟩, Option.map_some,
    Option.getD_some, hover, AList.lookup_empty, Option.or_none, Option.filter_eq_some_iff, beq_iff_eq]

theorem loadLibrary_toJson (fold : CaseFold) (w : Walk) (byLibrary : Table Path Dirs) (library : Path)
    (print : Fingerprint) :
    ∃ dirs, loadLibrary fold (libraryToJson w byLibrary (library, print)) = some (library, ⟨print, dirs⟩) ∧
      ∀ key appid, dirs.lookup key = some appid ↔ ((byLibrary.lookup library).getD ∅).lookup key = some appid ∧
        appid ≠ "" ∧ libraryOwnsPrefix fold library key = true := by
  obtain ⟨members, hmembers⟩ : ∃ members,
      asObject (jsonMap (dirMembers w ((byLibrary.lookup library).getD ∅))) = some members := ⟨_, rfl⟩
  have hprint : (libraryToJson w byLibrary (library, print)).2.get "fingerprint" = some (fingerprintToJson print) :=
    (get_jsonMap (by simp)).mpr (by simp)
  have hdirs : (libraryToJson w byLibrary (library, print)).2.get "dirs" =
      some (jsonMap (dirMembers w ((byLibrary.lookup library).getD ∅))) :=
    (get_jsonMap (by simp)).mpr (by simp)
  refine ⟨_, ?_, fun key appid => lookup_loadDirs w _ hmembers⟩
  rw [loadLibrary, hprint, hdirs, Option.bind_some, fingerprintFromJson_toJson, Option.bind_some, hmembers,
    libraryToJson, String.toList_ofList]
  rfl

theorem ordered_libraryToJson (byLibrary : Table Path Dirs) (library : Path × Fingerprint) :
    (libraryToJson w byLibrary library).2.Ordered := by
  have hprint : (fingerprintToJson library.2).Ordered := by
    refine ordered_jsonMap fun m hm => ?_
    simp only [List.mem_cons, List.not_mem_nil, or_false] at hm
    rcases hm with rfl | rfl | rfl | rfl
    all_goals exact trivial
  have hdirs (dirs : Dirs) : (jsonMap (dirMembers w dirs)).Ordered := by
    refine ordered_jsonMap fun m hm => ?_
    obtain ⟨dir, -, rfl⟩ := List.mem_map.mp hm
    exact trivial
  refine ordered_jsonMap fun m hm => ?_
  simp only [List.mem_cons, List.not_mem_nil, or_false] at hm
  rcases hm with rfl | rfl
  · exact hprint
  · exact hdirs _

theorem ordered_saveCache (fold : CaseFold) (w : Walk) (s : SteamLibraries) : (saveCache fold w s).text.Ordered := by
  refine ordered_jsonMap fun m hm => ?_
  simp only [List.mem_cons, List.not_mem_nil, or_false] at hm
  rcases hm with rfl | rfl
  · exact trivial
  · refine ordered_jsonMap fun m hm => ?_
    obtain ⟨library, -, rfl⟩ := List.mem_map.mp hm
    exact ordered_libraryToJson _ library

theorem loadCacheFrom_saveCache (fold : CaseFold) (w : Walk) (s : SteamLibraries) :
    loadCacheFrom fold (some (saveCache fold w s)) = ∅ ∨ ∃ members,
      asObject (jsonMap (librariesJson fold w s)) = some members ∧
        loadCacheFrom fold (some (saveCache fold w s)) = Table.collect (members.filterMap (loadLibrary fold)) := by
  have hversion : (saveCache fold w s).text.get "version" = some (unsigned steamCacheVersion) :=
    (get_jsonMap (by simp)).mpr (by simp)
  have hlibs : (saveCache fold w s).text.get "libraries" = some (jsonMap (librariesJson fold w s)) :=
    (get_jsonMap (by simp)).mpr (by simp)
  rw [loadCacheFrom]
  dsimp only
  split
  next => exact .inl rfl
  next =>
      refine .inr ⟨_, rfl, ?_⟩
      rw [loaded_of_ordered _ (ordered_saveCache fold w s), hversion, hlibs]
      rfl

theorem nodup_librariesJson (fold : CaseFold) (w : Walk) (s : SteamLibraries) :
    ((librariesJson fold w s).map Prod.fst).Nodup := by
  have hkeys := (Table.nodup_pairs w s.fingerprints).map ofList_injective
  rw [librariesJson, List.map_map]
  rwa [List.map_map] at hkeys

theorem loadLibrary_key {m : String × Value} {e : Path × CachedLibrary} (h : loadLibrary fold m = some e) :
    e.1 = m.1.toList := by
  obtain ⟨print, -, h⟩ := Option.bind_eq_some_iff.mp h
  obtain ⟨dirs, -, h⟩ := Option.bind_eq_some_iff.mp h
  rw [← Option.some.inj h]

theorem lookup_loadCacheFrom_saveCache
    (h : (loadCacheFrom fold (some (saveCache fold w s))).lookup library = some entry) :
    s.fingerprints.lookup library = some entry.fingerprint ∧
      ∀ key appid, entry.dirs.lookup key = some appid ↔
        (s.dirs.lookup key = some appid ∧ ownerOf fold (askedOwners w s) key = some library) ∧
          appid ≠ "" ∧ libraryOwnsPrefix fold library key = true := by
  rcases loadCacheFrom_saveCache fold w s with hempty | ⟨members, hmembers, hload⟩
  · rw [hempty] at h
    simp at h
  obtain ⟨hnodup, hmem⟩ := mem_of_asObject (nodup_librariesJson fold w s) hmembers
  have hkeys : ((members.filterMap (loadLibrary fold)).map Prod.fst).Nodup :=
    Table.nodup_keys_filterMap toList_injective (fun _ _ => loadLibrary_key) hnodup
  rw [hload, Table.lookup_collect hkeys] at h
  obtain ⟨m, hin, hm⟩ := List.mem_filterMap.mp h
  obtain ⟨⟨lib, print⟩, hpair, rfl⟩ := List.mem_map.mp ((hmem m).mp hin)
  obtain ⟨dirs, hjson, hdirs⟩ := loadLibrary_toJson fold w (dirsByLibrary fold w s) lib print
  obtain ⟨rfl, rfl⟩ := Prod.mk.inj (Option.some.inj (hjson.symm.trans hm))
  have hprint := (Table.mem_pairs w s.fingerprints).mp hpair
  refine ⟨hprint, fun key appid => ?_⟩
  rw [hdirs, lookup_dirsByLibrary (Table.mem_iff_lookup.mpr ⟨print, hprint⟩)]

end Owners

section Honest

variable {w : Walk} {s : SteamLibraries} {seen : World → Prop} {known : Path → Prop}

theorem owns_of_ownerOf {libPaths : List Path} (h : ownerOf fold libPaths key = some library) :
    libraryOwnsPrefix fold library key = true :=
  List.find?_some (p := fun library => libraryOwnsPrefix fold library key) h

theorem ownerOf_eq_some_iff (hapart : KeptApart fold known) (hs : s.Sound fold seen known)
    (hlib : library ∈ s.fingerprints) (hkey : s.dirs.lookup key = some appid) :
    ownerOf fold (askedOwners w s) key = some library ↔ libraryOwnsPrefix fold library key = true := by
  obtain ⟨owner, print, howner, hheld⟩ := (hs.union key appid).mp hkey
  have hknown : known owner := hs.known owner (Table.mem_iff_lookup.mpr ⟨print, howner⟩)
  have htells := hapart.tells seen
  constructor
  · exact owns_of_ownerOf
  · intro howns
    have hsome : (ownerOf fold (askedOwners w s) key).isSome = true :=
      List.find?_isSome.mpr ⟨library, mem_askedOwners.mpr hlib, howns⟩
    obtain ⟨first, hfirst⟩ := Option.isSome_iff_exists.mp hsome
    have hmem : first ∈ s.fingerprints := mem_askedOwners.mp (List.mem_of_find?_eq_some hfirst)
    rw [hfirst, htells.eq_of_owns hknown (hs.known first hmem) hheld (owns_of_ownerOf hfirst),
      htells.eq_of_owns hknown (hs.known library hlib) hheld howns]

theorem honest_saveCache (hapart : KeptApart fold known) (hmarked : PrintsTell fold seen)
    (hs : s.Sound fold seen known) : Honest fold seen known (loadCacheFrom fold (some (saveCache fold w s))) := by
  intro world library entry hseen hknown hlookup hprint key
  obtain ⟨hmark, hdirs⟩ := lookup_loadCacheFrom_saveCache hlookup
  have hlib : library ∈ s.fingerprints := Table.mem_iff_lookup.mpr ⟨_, hmark⟩
  have hheld : held fold seen library entry.fingerprint = world.scanOf fold library :=
    hmarked.contents_eq hseen hprint
  rw [← hheld, ← hs.union.filter_owns (hapart.tells seen) hs.known hmark]
  apply Option.ext
  intro appid
  rw [hdirs, Option.filter_eq_some_iff]
  constructor
  · rintro ⟨⟨hkey, -⟩, -, howns⟩
    exact ⟨hkey, howns⟩
  · rintro ⟨hkey, howns⟩
    refine ⟨⟨hkey, (ownerOf_eq_some_iff hapart hs hlib hkey).mpr howns⟩, ?_, howns⟩
    obtain ⟨owner, print, -, hheld⟩ := (hs.union key appid).mp hkey
    obtain ⟨world, -, hscan⟩ := scan_of_contents hheld
    exact (scanOf_spec hscan).2

end Honest

end RichPresence.Steam
