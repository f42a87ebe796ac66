import RichPresence.Detect.Indexes
import RichPresence.Detect.Normalizers
import RichPresence.Detect.Refusal

namespace RichPresence.Detect

open Lib

/-- Some title that passes the gate with its dots in it comes down to the key without them. -/
def DottedTitle (detectables : List ScannedEntry) (key : String) : Prop :=
  ∃ entry ∈ detectables, ∃ title ∈ entry.titles, '.' ∈ (normalizeName title).toList ∧
    nameMatchable (normalizeName title).toList = true ∧ dedot (normalizeName title) = key

section Nodot

variable {detectables : List ScannedEntry} {key : String} {index : Nat}

theorem undottedNames_get (nameMap : SortedIndex) (h : (undottedNames nameMap).get key = some index) :
    ∃ name, (name, index) ∈ nameMap.entries ∧ '.' ∈ name.toList ∧ dedot name = key := by
  rw [undottedNames, SortedIndex.get_build] at h
  obtain ⟨e, he, heq⟩ := List.mem_map.mp (mem_of_lookup h)
  obtain ⟨hmem, hdot⟩ := List.mem_filter.mp ((List.mem_insertionSort _).mp he)
  obtain ⟨rfl, rfl⟩ := Prod.mk.inj heq
  exact ⟨e.1, hmem, List.contains_iff_mem.mp hdot, rfl⟩

theorem exists_undottedNames_get (nameMap : SortedIndex) {name : String} (hmem : (name, index) ∈ nameMap.entries)
    (hdot : '.' ∈ name.toList) : ∃ first, (undottedNames nameMap).get (dedot name) = some first := by
  rw [undottedNames]
  simp only [SortedIndex.get_build]
  apply exists_lookup_of_mem (v := index)
  apply List.mem_map_of_mem (f := fun e : String × Nat => (dedot e.1, e.2)) (a := (name, index))
  rw [List.mem_insertionSort, List.mem_filter]
  exact ⟨hmem, List.contains_iff_mem.mpr hdot⟩

theorem nameMapNodot_get_isSome :
    ((undottedNames (buildAuxMaps detectables).2).get key).isSome ↔ DottedTitle detectables key := by
  rw [Option.isSome_iff_exists]
  constructor
  · rintro ⟨index, hindex⟩
    obtain ⟨name, hmem, hdot, rfl⟩ := undottedNames_get _ hindex
    obtain ⟨hkey, entry, hentry, title, htitle, rfl⟩ := mem_nameMap hmem
    exact ⟨entry, List.mem_of_getElem? hentry, title, htitle, hdot, hkey, rfl⟩
  · rintro ⟨entry, hentry, title, htitle, hdot, hkey, rfl⟩
    obtain ⟨index, hmem⟩ := exists_mem_nameMap hentry htitle hkey
    exact exists_undottedNames_get _ hmem hdot

theorem lookupName_nodot (platform : Platform) (detectables custom : List ScannedEntry) {name : Path}
    (hname : nameMatchable name = true) :
    (Host.lookupName (buildBundle platform detectables custom)
        (buildBundle platform detectables custom).nameMapNodot name).isSome ↔
      DottedTitle detectables (String.ofList name) := by
  rw [Host.lookupName, if_pos hname, ← nameMapNodot_get_isSome]
  have hget : (buildBundle platform detectables custom).nameMapNodot.get (String.ofList name) =
      (undottedNames (buildAuxMaps detectables).2).get (String.ofList name) := rfl
  have hlist : (buildBundle platform detectables custom).list = detectables := rfl
  rw [hget, hlist]
  cases hindex : (undottedNames (buildAuxMaps detectables).2).get (String.ofList name) with
  | none => exact Iff.rfl
  | some index =>
      obtain ⟨_, hmem, -, -⟩ := undottedNames_get _ hindex
      obtain ⟨-, entry, hentry, -⟩ := mem_nameMap hmem
      rw [Option.bind_some, hentry]
      exact Iff.rfl

theorem titles_of_lookupName_nodot {platform : Platform} {custom : List ScannedEntry} {name : Path}
    {entry : ScannedEntry} (h : Host.lookupName (buildBundle platform detectables custom)
      (buildBundle platform detectables custom).nameMapNodot name = some entry) :
    ∃ title ∈ entry.titles, dedot (normalizeName title) = String.ofList name := by
  rw [Host.lookupName] at h
  split at h
  · obtain ⟨index, hindex, hentry⟩ := Option.bind_eq_some_iff.mp h
    obtain ⟨_, hmem, -, hkey⟩ := undottedNames_get (buildAuxMaps detectables).2 hindex
    obtain ⟨-, found, hfound, title, htitle, rfl⟩ := mem_nameMap hmem
    have hlist : detectables[index]? = some entry := hentry
    rw [hlist] at hfound
    obtain rfl := Option.some.inj hfound
    exact ⟨title, htitle, hkey⟩
  · cases h

end Nodot

theorem findSome?_of_unique {α β : Type} {f : α → Option β} {l : List α} {a : α} (ha : a ∈ l)
    (h : ∀ x ∈ l, x ≠ a → f x = none) : l.findSome? f = f a := by
  cases hl : l.findSome? f with
  | none => exact (List.findSome?_eq_none_iff.mp hl a ha).symm
  | some b =>
      obtain ⟨x, hx, hfx⟩ := List.exists_of_findSome?_eq_some hl
      by_cases hxa : x = a
      · rw [← hxa, hfx]
      · rw [h x hx hxa] at hfx
        cases hfx

namespace Host

def folders (path : Path) : List Path := (components path).reverse.drop 1

variable {host : Host} {bundle : DetectablesBundle} {path folder : Path} {pid : Nat}

theorem matchNameOrFolder_dotted (hdot : '.' ∈ folder) (hfolder : folder ∈ folders path)
    (hothers : ∀ other ∈ folders path, other ≠ folder → folderEntry bundle other = none)
    (hstem : lookupName bundle bundle.nameMap (exeStem path) = none) :
    host.matchNameOrFolder bundle path pid =
      (lookupName bundle bundle.nameMapNodot (normalizeLoweredDedotted folder)).bind fun obj =>
        host.liveOrNone obj pid .folder := by
  have hcontains : folder.contains '.' = true := List.contains_iff_mem.mpr hdot
  have hplain : ((folders path).findSome? fun folder =>
      if folder.contains '.' then none else lookupName bundle bundle.nameMap (normalizeLowered folder)) = none := by
    refine List.findSome?_eq_none_iff.mpr fun other hother => ?_
    split
    · rfl
    next hc =>
      have hnone := hothers other hother fun heq => hc (heq ▸ hcontains)
      rwa [folderEntry, if_neg hc] at hnone
  have hdotted : ((folders path).findSome? fun folder =>
      if folder.contains '.' then lookupName bundle bundle.nameMapNodot (normalizeLoweredDedotted folder)
      else none) = lookupName bundle bundle.nameMapNodot (normalizeLoweredDedotted folder) := by
    rw [findSome?_of_unique hfolder, if_pos hcontains]
    intro other hother hne
    split
    next hc =>
      have hnone := hothers other hother hne
      rwa [folderEntry, if_pos hc] at hnone
    next => rfl
  rw [matchNameOrFolder]
  simp only [hstem]
  rw [folders] at hplain hdotted
  rw [hplain, hdotted, Option.none_or]

end Host

theorem toLower_dot : Char.toLower '.' = '.' := by decide

/-- A dotted title is found by its folder exactly when the process runs and some title of the same form passes
the gate before its dots are taken out. -/
theorem dotted_title_found_iff {host : Host} {platform : Platform} {detectables custom : List ScannedEntry}
    {title : String} {path : Path} {pid : Nat} (hdot : '.' ∈ title.toList)
    (hform : nameMatchable (dedot (normalizeName title)).toList = true)
    (hfolder : lower title.toList ∈ Host.folders path)
    (hothers : ∀ other ∈ Host.folders path, other ≠ lower title.toList →
      Host.folderEntry (buildBundle platform detectables custom) other = none)
    (hstem : Host.lookupName (buildBundle platform detectables custom)
      (buildBundle platform detectables custom).nameMap (exeStem path) = none) :
    (∃ hit, host.matchNameOrFolder (buildBundle platform detectables custom) path pid = some hit ∧
        ∃ found ∈ hit.entry.titles, dedot (normalizeName found) = dedot (normalizeName title)) ↔
      host.isSuspended pid .folder = false ∧ DottedTitle detectables (dedot (normalizeName title)) := by
  have hlowered : '.' ∈ lower title.toList := List.mem_map.mpr ⟨'.', hdot, toLower_dot⟩
  have hname := toList_dedot_normalizeName title
  have hkey : String.ofList (normalizeLoweredDedotted (lower title.toList)) = dedot (normalizeName title) := by
    rw [← hname, String.ofList_toList]
  rw [hname] at hform
  have hfound := lookupName_nodot platform detectables custom hform
  rw [hkey] at hfound
  rw [Host.matchNameOrFolder_dotted hlowered hfolder hothers hstem, ← hfound]
  constructor
  · rintro ⟨hit, hhit, -⟩
    obtain ⟨entry, hentry, hlive⟩ := Option.bind_eq_some_iff.mp hhit
    rw [Host.liveOrNone] at hlive
    split at hlive
    · cases hlive
    next hrun => exact ⟨eq_false_of_ne_true hrun, by rw [hentry]; rfl⟩
  · rintro ⟨hrun, hsome⟩
    obtain ⟨entry, hentry⟩ := Option.isSome_iff_exists.mp hsome
    obtain ⟨found, hmem, heq⟩ := titles_of_lookupName_nodot hentry
    refine ⟨⟨entry, pid, host.epochMs, .folder⟩, ?_, found, hmem, heq.trans hkey⟩
    rw [hentry, Option.bind_some, Host.liveOrNone, if_neg (by rw [hrun]; simp)]

def bomber : ScannedEntry := { id := ⟨"1"⟩, name := "Mr. Bomber" }

def bomberPath : Path := "/games/mr. bomber/bin/run.exe".toList

def repo : ScannedEntry := { id := ⟨"2"⟩, name := "R.E.P.O." }

def repoPath : Path := "/games/r.e.p.o./repo.exe".toList

theorem dotted_title_found_iff_bomber :
    ∃ hit, Host.bare.matchNameOrFolder (buildBundle .linux [bomber, repo] []) bomberPath 7 = some hit ∧
      ∃ found ∈ hit.entry.titles, dedot (normalizeName found) = dedot (normalizeName "Mr. Bomber") := by
  refine (dotted_title_found_iff (by decide) (by decide +kernel) (by decide +kernel) (by decide +kernel)
    (by decide +kernel)).mpr ⟨rfl, bomber, List.mem_cons_self .., "Mr. Bomber", List.mem_cons_self .., ?_⟩
  decide +kernel

/-- Without a blank between its letters the title never gets as far as losing its dots. -/
theorem repo_not_found :
    "R.E.P.O." ∈ repo.titles ∧ '.' ∈ "R.E.P.O.".toList ∧ (∀ c ∈ "R.E.P.O.".toList, c ∉ forbiddenNameChars) ∧
      nameMatchable (dedot (normalizeName "R.E.P.O.")).toList = true ∧
      Host.folders repoPath = [lower "R.E.P.O.".toList, "games".toList, []] ∧
      (∀ other ∈ ["games".toList, []], Host.folderEntry (buildBundle .linux [repo] []) other = none) ∧
      Host.lookupName (buildBundle .linux [repo] []) (buildBundle .linux [repo] []).nameMap
        (exeStem repoPath) = none ∧
      Host.bare.isSuspended 7 .folder = false ∧
      Host.bare.matchNameOrFolder (buildBundle .linux [repo] []) repoPath 7 = none := by
  have hchars : ("R.E.P.O.".toList.all fun c => !forbiddenNameChars.contains c) = true := by decide +kernel
  refine ⟨by decide +kernel, by decide +kernel, ?_, by decide +kernel, by decide +kernel, by decide +kernel,
    by decide +kernel, rfl, by decide +kernel⟩
  simpa using hchars

end RichPresence.Detect
