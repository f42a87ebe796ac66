import RichPresence.Detect.Indexes
import RichPresence.Detect.MatchProcess

namespace RichPresence.Detect

/-- The entry carries the store id, and what runs is one of its executables or it declares none. -/
def Qualifies (id : String) (path : Path) (entry : ScannedEntry) : Prop :=
  id ∈ entry.steamIds ∧ (entry.executables = [] ∨
    ∃ exe ∈ entry.executables, exe.isLauncher = false ∧ exeNamesPath path exe.name.toList = true)

theorem argvNamesAnExecutable_iff {path : Path} {entry : ScannedEntry} :
    argvNamesAnExecutable path entry = true ↔ entry.executables = [] ∨
      ∃ exe ∈ entry.executables, exe.isLauncher = false ∧ exeNamesPath path exe.name.toList = true := by
  rw [argvNamesAnExecutable, Bool.or_eq_true, List.isEmpty_iff, List.any_eq_true]
  refine or_congr_right (exists_congr fun exe => ?_)
  rw [List.mem_filter, Bool.not_eq_true', and_assoc]

instance (id : String) (path : Path) (entry : ScannedEntry) : Decidable (Qualifies id path entry) :=
  decidable_of_iff (id ∈ entry.steamIds ∧ argvNamesAnExecutable path entry = true)
    (and_congr_right fun _ => argvNamesAnExecutable_iff)

/-- The entry that the index holds for an id. The empty id is not indexed. -/
def indexedEntry (main : List ScannedEntry) (id : String) : Option ScannedEntry :=
  main.find? fun entry => id ≠ "" ∧ id ∈ entry.steamIds

namespace Host

variable (host : Host) (platform : Platform) (main custom : List ScannedEntry) (id : String) (path : Path) (pid : Nat)
  (source : DetectSource)

/-- What the store-id tier should do: any entry that qualifies leads to a hit, and a hit is on an entry that
qualifies, from the main list if one there does. -/
def StoreIdComplete : Prop :=
  let result := host.matchSteamId (buildBundle platform main custom) pid (some id) path source
  ((∃ entry ∈ main ++ custom, Qualifies id path entry) → result.isSome) ∧
    ∀ hit, result = some hit → hit.entry ∈ main ++ custom ∧ Qualifies id path hit.entry ∧
      ((∃ entry ∈ main, Qualifies id path entry) → hit.entry ∈ main)

variable {host platform main custom id path pid source}

theorem matchSteamId_indexed (hlive : host.isSuspended pid source = false) {entry : ScannedEntry}
    (hentry : indexedEntry main id = some entry) :
    host.matchSteamId (buildBundle platform main custom) pid (some id) path source =
      if argvNamesAnExecutable path entry then some ⟨entry, pid, host.epochMs, source⟩ else none := by
  rw [indexedEntry, List.find?_eq_bind_findIdx?_getElem?] at hentry
  obtain ⟨index, hindex, hget⟩ := Option.bind_eq_some_iff.mp hentry
  have hmap : (buildBundle platform main custom).steamMap.get id = some index :=
    (steamMap_get main id).trans hindex
  have hlist : (buildBundle platform main custom).list[index]? = some entry := hget
  simp only [matchSteamId, Option.bind_eq_bind, Option.bind_some, hmap, hlist, liveOrNone, hlive]
  rfl

theorem matchSteamId_custom (hlive : host.isSuspended pid source = false) (hnone : indexedEntry main id = none) :
    host.matchSteamId (buildBundle platform main custom) pid (some id) path source =
      (custom.find? fun entry => Qualifies id path entry).map fun entry => ⟨entry, pid, host.epochMs, source⟩ := by
  have hindex : (main.findIdx? fun entry => id ≠ "" ∧ id ∈ entry.steamIds) = none := by
    rw [List.findIdx?_eq_none_iff]
    intro entry hentry
    exact eq_false_of_ne_true (List.find?_eq_none.mp hnone entry hentry)
  have hmap : (buildBundle platform main custom).steamMap.get id = none := (steamMap_get main id).trans hindex
  have hfind : (fun entry : ScannedEntry => entry.steamIds.contains id && argvNamesAnExecutable path entry) =
      fun entry => decide (Qualifies id path entry) := by
    funext entry
    rw [Bool.eq_iff_iff, Bool.and_eq_true, List.contains_iff_mem, decide_eq_true_eq, argvNamesAnExecutable_iff]
    rfl
  have hcustom : (buildBundle platform main custom).custom = custom := rfl
  simp only [matchSteamId, Option.bind_eq_bind, Option.bind_some, hmap, hfind, hcustom, liveOrNone, hlive]
  cases custom.find? fun entry => decide (Qualifies id path entry) <;> rfl

theorem mem_of_indexedEntry {entry : ScannedEntry} (h : indexedEntry main id = some entry) :
    entry ∈ main ∧ id ∈ entry.steamIds := by
  rw [indexedEntry] at h
  have hid := List.find?_some h
  rw [decide_eq_true_eq] at hid
  exact ⟨List.mem_of_find?_eq_some h, hid.2⟩

theorem storeIdComplete_indexed (hlive : host.isSuspended pid source = false) {entry : ScannedEntry}
    (hentry : indexedEntry main id = some entry) :
    StoreIdComplete host platform main custom id path pid source ↔
      Qualifies id path entry ∨ ∀ other ∈ main ++ custom, ¬ Qualifies id path other := by
  obtain ⟨hmain, hid⟩ := mem_of_indexedEntry hentry
  rw [StoreIdComplete, matchSteamId_indexed hlive hentry]
  by_cases hnamed : argvNamesAnExecutable path entry = true
  · have hq : Qualifies id path entry := ⟨hid, argvNamesAnExecutable_iff.mp hnamed⟩
    refine iff_of_true ⟨fun _ => by rw [if_pos hnamed]; rfl, fun hit hhit => ?_⟩ (.inl hq)
    rw [if_pos hnamed] at hhit
    obtain rfl := Option.some.inj hhit
    exact ⟨List.mem_append_left _ hmain, hq, fun _ => hmain⟩
  · have hq : ¬ Qualifies id path entry := fun h => hnamed (argvNamesAnExecutable_iff.mpr h.2)
    simp only [hnamed, Bool.false_eq_true, if_false, hq, false_or, Option.isSome_none, reduceCtorEq, false_implies,
      implies_true, and_true, imp_false, not_exists, not_and]

theorem storeIdComplete_custom (hlive : host.isSuspended pid source = false) (hnone : indexedEntry main id = none) :
    StoreIdComplete host platform main custom id path pid source ↔
      ((∃ entry ∈ main, Qualifies id path entry) →
        ∃ entry ∈ main, (custom.find? fun entry => Qualifies id path entry) = some entry) := by
  rw [StoreIdComplete, matchSteamId_custom hlive hnone]
  constructor
  · rintro ⟨hsome, hhits⟩ hmain
    obtain ⟨entry, hentry, hq⟩ := hmain
    obtain ⟨hit, hhit⟩ := Option.isSome_iff_exists.mp (hsome ⟨entry, List.mem_append_left _ hentry, hq⟩)
    obtain ⟨found, hfound, rfl⟩ := Option.map_eq_some_iff.mp hhit
    exact ⟨found, (hhits _ hhit).2.2 ⟨entry, hentry, hq⟩, hfound⟩
  · intro hmain
    refine ⟨?_, fun hit hhit => ?_⟩
    · rintro ⟨entry, hentry, hq⟩
      rw [Option.isSome_map]
      rcases List.mem_append.mp hentry with hentry | hentry
      · obtain ⟨found, -, hfound⟩ := hmain ⟨entry, hentry, hq⟩
        rw [hfound]
        rfl
      · exact List.find?_isSome.mpr ⟨entry, hentry, decide_eq_true hq⟩
    · obtain ⟨found, hfound, rfl⟩ := Option.map_eq_some_iff.mp hhit
      have hq := List.find?_some hfound
      rw [decide_eq_true_eq] at hq
      refine ⟨List.mem_append_right _ (List.mem_of_find?_eq_some hfound), hq, fun hexists => ?_⟩
      obtain ⟨entry, hentry, hentry'⟩ := hmain hexists
      rw [hfound] at hentry'
      obtain rfl := Option.some.inj hentry'
      exact hentry

/-- The tier is complete for an id exactly when the one entry that the index keeps for it qualifies or none at
all does; of an id that is not indexed, when it does not pass over an entry of the main list. -/
theorem storeIdComplete_iff (hlive : host.isSuspended pid source = false) :
    StoreIdComplete host platform main custom id path pid source ↔
      match indexedEntry main id with
      | some entry => Qualifies id path entry ∨ ∀ other ∈ main ++ custom, ¬ Qualifies id path other
      | none => (∃ entry ∈ main, Qualifies id path entry) →
          ∃ entry ∈ main, (custom.find? fun entry => Qualifies id path entry) = some entry := by
  split
  next entry hentry => exact storeIdComplete_indexed hlive hentry
  next hnone => exact storeIdComplete_custom hlive hnone

end Host

/-- Two entries of one store id: the launcher of a collection, and a game in it that declares no executable. -/
def collection : ScannedEntry :=
  { id := ⟨"1"⟩, name := "The Collection", steamIds := ["400"],
    executables := [{ name := "collection.exe", os := .win32, isLauncher := false, arguments := none }] }

def chapter : ScannedEntry := { id := ⟨"2"⟩, name := "The Chapter", steamIds := ["400"] }

theorem storeIdComplete_chapter :
    Host.StoreIdComplete .bare .linux [chapter, collection] [] "400" "/games/chapter.exe".toList 7 .steamAppId :=
  (Host.storeIdComplete_iff (show Host.bare.isSuspended 7 .steamAppId = false from rfl)).mpr
    (show Qualifies "400" "/games/chapter.exe".toList chapter ∨ _ from .inl (by decide))

theorem chapter_passed_over :
    Qualifies "400" "/games/chapter.exe".toList chapter ∧ Host.bare.isSuspended 7 .steamAppId = false ∧
      Host.bare.matchSteamId (buildBundle .linux [collection, chapter] [chapter]) 7 (some "400")
        "/games/chapter.exe".toList .steamAppId = none := by
  refine ⟨by decide, rfl, ?_⟩
  rw [Host.matchSteamId_indexed rfl (show indexedEntry [collection, chapter] "400" = some collection by decide)]
  decide

end RichPresence.Detect
