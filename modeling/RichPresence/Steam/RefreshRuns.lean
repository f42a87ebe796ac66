import RichPresence.Lib.Run
import RichPresence.Steam.CacheOwners

namespace RichPresence.Steam

open Lib

section Rescan

variable {fold : CaseFold} {w : Walk} {seen : World → Prop} {known : Path → Prop} {world : World}
  {libs : List Path} {s : SteamLibraries}

namespace SteamLibraries

theorem resolveRoots_eq (w : Walk) (files : Files) (roots : List Path) (s : SteamLibraries) (libs : List Path) :
    ∃ watched mtimes, roots.foldl (resolveRoot w files) (s, libs) =
      ({ s with watched := watched, mtimes := mtimes },
        libs ++ roots.flatMap fun root => (files.rootLibraries w root).1) := by
  induction roots generalizing s libs with
  | nil => exact ⟨_, _, by rw [List.flatMap_nil, List.append_nil]; rfl⟩
  | cons root roots ih =>
      obtain ⟨watched, mtimes, hwatch⟩ := s.watchRoot_eq files (files.rootLibraries w root).2
      obtain ⟨watched', mtimes', hrest⟩ := ih { s with watched := watched, mtimes := mtimes }
        (libs ++ (files.rootLibraries w root).1)
      refine ⟨watched', mtimes', ?_⟩
      rw [List.foldl_cons, resolveRoot]
      dsimp only
      rw [hwatch, hrest, List.flatMap_cons, List.append_assoc]

theorem reresolve_spec (w : Walk) (world : World) (s : SteamLibraries) :
    (s.reresolve w world).1.fingerprints = s.fingerprints ∧ (s.reresolve w world).1.dirs = s.dirs ∧
      (s.reresolve w world).2 = sortDedup (world.resolved w (s.rootsAt world)) := by
  obtain ⟨watched, mtimes, hroots⟩ := resolveRoots_eq w world.toFiles (s.rootsAt world) s []
  rw [reresolve, hroots, List.nil_append]
  dsimp only
  refine ⟨?_, ?_, rfl⟩
  · split <;> rfl
  · split <;> rfl

section Refresh

variable (hapart : KeptApart fold known) (hmarked : PrintsTell fold seen) (hseen : seen world)
include hapart hmarked hseen

theorem sound_revalidate (hs : s.Sound fold seen known) (hknown : ∀ library ∈ libs, known library)
    (hnodup : libs.Nodup) : (s.revalidate fold w world.toFiles libs).1.Sound fold seen known :=
  (collected_revalidate hapart hmarked hseen hs hknown hnodup).sound hknown

theorem refreshIfStale_spec (hs : s.Sound fold seen known)
    (hdue : s.ticked.isDue world.toFiles = true → world.Resolves known w (s.ticked.rootsAt world)) :
    (s.refreshIfStale fold w world).1.Sound fold seen known ∧
      (s.ticked.isDue world.toFiles = true → Collected fold seen world (s.ticked.reresolve w world).2
        (s.refreshIfStale fold w world).1.fingerprints (s.refreshIfStale fold w world).1.dirs) := by
  rw [refreshIfStale]
  dsimp only
  cases hcase : s.ticked.isDue world.toFiles with
  | false =>
      refine ⟨?_, nofun⟩
      rw [if_neg Bool.false_ne_true]
      refine sound_revalidate hapart hmarked hseen ⟨hs.known, hs.union⟩ (fun library hmem => ?_) ?_
      · exact hs.known library (AList.mem_keys.mpr (w.mem_order.mp hmem))
      · exact (w.perm _).nodup_iff.mpr s.ticked.fingerprints.keys_nodup
  | true =>
      obtain ⟨hprints, hdirs, hlibs⟩ := reresolve_spec w world s.ticked
      have hsound : (s.ticked.reresolve w world).1.Sound fold seen known :=
        ⟨fun library hmem => hs.known library (hprints ▸ hmem), hprints ▸ hdirs ▸ hs.union⟩
      have hknown : ∀ library ∈ (s.ticked.reresolve w world).2, known library := by
        intro library hmem
        rw [hlibs] at hmem
        exact (hdue hcase library (mem_of_mem_sortUniq hmem)).1
      have hnodup : (s.ticked.reresolve w world).2.Nodup := hlibs ▸ nodup_sortDedup _
      rw [if_pos rfl]
      exact ⟨sound_revalidate hapart hmarked hseen hsound hknown hnodup,
        fun _ => collected_revalidate hapart hmarked hseen hsound hknown hnodup⟩

theorem collected_fullScan (hknown : ∀ library ∈ libs, known library) (hnodup : libs.Nodup)
    (hread : ∀ library ∈ libs, (world.libraryFingerprint library).isSome = true) :
    ∃ marks, Collected fold seen world libs marks (world.fullScan fold libs) := by
  induction libs using List.reverseRecOn with
  | nil => exact ⟨∅, .empty⟩
  | append_singleton libs library ih =>
      obtain ⟨marks, hmarks⟩ := ih (fun lib hmem => hknown lib (by simp [hmem])) (List.nodup_append.mp hnodup).1
        fun lib hmem => hread lib (by simp [hmem])
      obtain ⟨live, hlive⟩ := Option.isSome_iff_exists.mp (hread library (by simp))
      have hnew : library ∉ libs := notMem_of_nodup_concat hnodup
      refine ⟨marks.insert library live, ?_⟩
      rw [Files.fullScan, List.foldl_append]
      exact hmarks.scan hapart (fun lib hmem => hknown lib (by simp [hmem])) hmarked hseen
        (hknown library (by simp)) hnew hlive

end Refresh

end SteamLibraries

end Rescan

section RefreshRuns

variable {w w' : Walk} {seen : World → Prop} {known : Path → Prop} {world : World}

/-- The map that a process holds, and the cache file on the disk. -/
structure Session where
  libraries : SteamLibraries
  cache : Option CacheFile

instance (world : World) (known : Path → Prop) [DecidablePred known] (w : Walk) (roots : List Path) :
    Decidable (world.Resolves known w roots) :=
  inferInstanceAs (Decidable (∀ library ∈ world.resolved w roots, _))

namespace Session

variable (fold : CaseFold)

def start (cache : Option CacheFile) (first : Walk × World) : Session :=
  let libraries := SteamLibraries.discover fold first.1 first.2 (loadCacheFrom fold cache)
  ⟨libraries, some (saveCache fold first.1 libraries)⟩

def tick (session : Session) (event : Walk × World) : Session :=
  let (libraries, saved) := session.libraries.refreshIfStale fold event.1 event.2
  ⟨libraries, if saved then some (saveCache fold event.1 libraries) else session.cache⟩

structure Sound (seen : World → Prop) (known : Path → Prop) (session : Session) : Prop where
  libraries : session.libraries.Sound fold seen known
  cache : Honest fold seen known (loadCacheFrom fold session.cache)

/-- At a refresh that resolves the libraries again they are known and can be read. -/
def Readable (known : Path → Prop) (session : Session) (event : Walk × World) : Prop :=
  session.libraries.ticked.isDue event.2.toFiles = true →
    event.2.Resolves known event.1 (session.libraries.ticked.rootsAt event.2)

instance (known : Path → Prop) [DecidablePred known] (session : Session) (event : Walk × World) :
    Decidable (session.Readable known event) :=
  inferInstanceAs (Decidable (_ → _))

/-- After such a refresh the directories are those of a full scan. -/
def FullyScanned (session : Session) (event : Walk × World) : Prop :=
  session.libraries.ticked.isDue event.2.toFiles = true → ∀ key,
    (session.tick fold event).libraries.dirs.lookup key =
      (event.2.fullScan fold (session.libraries.ticked.reresolve event.1 event.2).2).lookup key

section Run

variable {fold} {session : Session} {event : Walk × World} (hapart : KeptApart fold known)
  (hmarked : PrintsTell fold seen)
include hapart hmarked

theorem sound_start {cache : Option CacheFile} {first : Walk × World} (hseen : seen first.2)
    (hcache : Honest fold seen known (loadCacheFrom fold cache))
    (hfirst : first.2.Resolves known first.1 first.2.collectRoots) :
    (start fold cache first).Sound fold seen known := by
  have hsound : (start fold cache first).libraries.Sound fold seen known :=
    (SteamLibraries.collected_discover hapart hmarked hseen hcache hfirst).sound fun library hmem =>
      (hfirst library hmem).1
  exact ⟨hsound, honest_saveCache hapart hmarked hsound⟩

theorem sound_tick (hs : session.Sound fold seen known) (hseen : seen event.2)
    (hread : session.Readable known event) : (session.tick fold event).Sound fold seen known := by
  have hsound := (SteamLibraries.refreshIfStale_spec hapart hmarked hseen hs.libraries hread).1
  refine ⟨hsound, ?_⟩
  rw [tick]
  dsimp only
  split
  · exact honest_saveCache hapart hmarked hsound
  · exact hs.cache

theorem fullyScanned (hs : session.Sound fold seen known) (hseen : seen event.2)
    (hread : session.Readable known event) : session.FullyScanned fold event := by
  intro hdue
  have hcollected := (SteamLibraries.refreshIfStale_spec hapart hmarked hseen hs.libraries hread).2 hdue
  have hlibs := (SteamLibraries.reresolve_spec event.1 event.2 session.libraries.ticked).2.2
  have hresolved (library : Path) (hmem : library ∈ (session.libraries.ticked.reresolve event.1 event.2).2) :
      known library ∧ (event.2.libraryFingerprint library).isSome = true :=
    hread hdue library (mem_of_mem_sortUniq (hlibs ▸ hmem))
  obtain ⟨marks, hscan⟩ := SteamLibraries.collected_fullScan hapart hmarked hseen
    (fun library hmem => (hresolved library hmem).1) (hlibs ▸ nodup_sortDedup _)
    fun library hmem => (hresolved library hmem).2
  exact (hcollected.unique hscan).1

/-- A cache that can be trusted makes no difference, whatever order the folders files are
walked in. -/
theorem discover_cached {cached : Cached} (hseen : seen world) (hcached : Honest fold seen known cached)
    (honce : Once known) (hw : world.Resolves known w world.collectRoots)
    (hw' : world.Resolves known w' world.collectRoots) :
    (∀ key, (SteamLibraries.discover fold w world cached).dirs.lookup key =
        (SteamLibraries.discover fold w' world ∅).dirs.lookup key) ∧
      ∀ library, (SteamLibraries.discover fold w world cached).fingerprints.lookup library =
        (SteamLibraries.discover fold w' world ∅).fingerprints.lookup library := by
  have hnone : Honest fold seen known ∅ := fun _ _ _ _ _ h => by simp at h
  have hsame : world.resolved w world.collectRoots = world.resolved w' world.collectRoots := by
    refine List.flatMap_congr fun root hroot => ?_
    refine rootLibraries_fst honce (fun library hmem => ?_) fun library hmem => ?_
    · exact (hw library (List.mem_flatMap.mpr ⟨root, hroot, hmem⟩)).1
    · exact (hw' library (List.mem_flatMap.mpr ⟨root, hroot, hmem⟩)).1
  have hwith := SteamLibraries.collected_discover hapart hmarked hseen hcached hw
  rw [hsame] at hwith
  exact hwith.unique (SteamLibraries.collected_discover hapart hmarked hseen hnone hw')

end Run

def Seen (first : Walk × World) (events : List (Walk × World)) (world : World) : Prop :=
  world = first.2 ∨ ∃ event ∈ events, world = event.2

/-- For libraries that can share a map, every refresh that resolves them again ends with the
directories of a full scan, and the cache file says nothing that a scan would not find. -/
theorem refresh_is_full_scan (fold : CaseFold) (known : Path → Prop) (cache : Option CacheFile)
    (first : Walk × World) (events : List (Walk × World)) (hapart : KeptApart fold known)
    (hprints : PrintsTell fold (Seen first events))
    (hcache : Honest fold (Seen first events) known (loadCacheFrom fold cache))
    (hfirst : first.2.Resolves known first.1 first.2.collectRoots)
    (hevents : Along (tick fold) (Readable known) (start fold cache first) events) :
    Along (tick fold) (FullyScanned fold) (start fold cache first) events ∧
      ∀ (world : World) (w w' : Walk), Seen first events world → Once known →
        world.Resolves known w world.collectRoots → world.Resolves known w' world.collectRoots →
          let cached := loadCacheFrom fold (events.foldl (tick fold) (start fold cache first)).cache
          (∀ key, (SteamLibraries.discover fold w world cached).dirs.lookup key =
              (SteamLibraries.discover fold w' world ∅).dirs.lookup key) ∧
            ∀ library, (SteamLibraries.discover fold w world cached).fingerprints.lookup library =
              (SteamLibraries.discover fold w' world ∅).fingerprints.lookup library := by
  have hstart : (start fold cache first).Sound fold (Seen first events) known :=
    sound_start hapart hprints (.inl rfl) hcache hfirst
  have hseen : Along (tick fold) (fun _ event => Seen first events event.2) (start fold cache first) events :=
    .of_forall fun event hmem => .inr ⟨event, hmem, rfl⟩
  have hsteps := hevents.and hseen
  have hkeep (session : Session) (event : Walk × World) (hs : session.Sound fold (Seen first events) known)
      (hstep : session.Readable known event ∧ Seen first events event.2) :
      (session.tick fold event).Sound fold (Seen first events) known :=
    sound_tick hapart hprints hs hstep.2 hstep.1
  constructor
  · rw [Along.iff_forall]
    intro before event hbefore
    obtain ⟨hrun, hstep⟩ := Along.concat.mp (hsteps.initial hbefore)
    exact fullyScanned hapart hprints (Along.invariant _ hkeep hstart hrun) hstep.2 hstep.1
  · intro world w w' hworld honce hw hw'
    have hend := Along.invariant _ hkeep hstart hsteps
    exact discover_cached hapart hprints hworld hend.cache honce hw hw'

def gamesApps : Path := "/mnt/games/steamapps".toList

def rootApps : Path := "/steam/steamapps".toList

def gamesFolders (listed : String) : String := "\"libraryfolders\" \x7b \"1\" \"" ++ listed ++ "\" \x7d"

def gamesManifest : String := "\"AppState\" \x7b \"appid\" \"1145360\" \"installdir\" \"Hades\" \x7d"

/-- Steam lives in `/steam` and lists one more library, in which a game is installed. The
folders file and the first library were written at the same time. -/
def gamesWorld (listed : String) (written : Int) : World where
  isDir path := path ∈ ["/steam".toList, rootApps, gamesApps]
  isFile _ := false
  readDir path :=
    if path = gamesApps then some [some "appmanifest_1145360.acf".toList]
    else if path = rootApps then some [] else none
  read path :=
    if path = rootApps.join foldersFile then some (Serde.utf8 (gamesFolders listed).toList)
    else if path = gamesApps.join "appmanifest_1145360.acf".toList then some (Serde.utf8 gamesManifest.toList)
    else none
  modified path :=
    if path ∈ [gamesApps, gamesApps.join "appmanifest_1145360.acf".toList] then some 0
    else if path ∈ [rootApps, rootApps.join foldersFile] then some written else none
  readLink _ := none
  canonicalize _ := none
  var name := if name = "RSRPC_STEAM_ROOT" then some "/steam".toList else none
  named dir entries h := by
    split at h
    · obtain rfl := Option.some.inj h
      decide
    · split at h
      · obtain rfl := Option.some.inj h
        exact List.not_mem_nil
      · cases h

def gamesAt (listed : String) (written : Int) : Walk × World := (.inOrder, gamesWorld listed written)

theorem printsTell_games (fold : CaseFold) (listed : String) (a b : Int) :
    PrintsTell fold (Seen (gamesAt listed a) [gamesAt listed b]) := by
  have hwritten (world : World) (h : Seen (gamesAt listed a) [gamesAt listed b] world) :
      ∃ written, world = gamesWorld listed written := by
    rcases h with rfl | ⟨event, hmem, rfl⟩
    · exact ⟨a, rfl⟩
    · exact ⟨b, by rw [List.mem_singleton.mp hmem]; rfl⟩
  intro world world' library print h h' _ _
  obtain ⟨written, rfl⟩ := hwritten world h
  obtain ⟨written', rfl⟩ := hwritten world' h'
  rfl

def gamesKnown (listed : String) (library : Path) : Prop := library ∈ [listed.toList, "/steam".toList]

instance (listed : String) : DecidablePred (gamesKnown listed) := fun library =>
  inferInstanceAs (Decidable (library ∈ [listed.toList, "/steam".toList]))

def gamesSession (listed : String) : Session := start asciiFold none (gamesAt listed 0)

theorem keptApart_games : KeptApart asciiFold (gamesKnown "/mnt/games") where
  ends_open := by
    have h : ∀ library ∈ ["/mnt/games".toList, "/steam".toList], (library.map slash).getLast? ≠ some '/' := by decide
    exact h
  apart := by
    have h : ∀ a ∈ ["/mnt/games".toList, "/steam".toList], ∀ b ∈ ["/mnt/games".toList, "/steam".toList],
        libraryPrefix asciiFold a <+: libraryPrefix asciiFold b → a = b := by decide
    exact fun a b ha hb => h a ha b hb

/-- The folders file changes, and the game in the other library stays known. -/
theorem refresh_is_full_scan_games :
    ((gamesSession "/mnt/games").libraries.ticked.isDue (gamesWorld "/mnt/games" 1000000).toFiles = true ∧
      ((gamesSession "/mnt/games").tick asciiFold (gamesAt "/mnt/games" 1000000)).libraries.dirs.lookup
        "/mnt/games/steamapps/common/hades/".toList = some "1145360") ∧
      Along (tick asciiFold) (FullyScanned asciiFold) (gamesSession "/mnt/games") [gamesAt "/mnt/games" 1000000] := by
  have hread : (gamesWorld "/mnt/games" 0).Resolves (gamesKnown "/mnt/games") .inOrder
        (gamesWorld "/mnt/games" 0).collectRoots ∧
      Along (tick asciiFold) (Readable (gamesKnown "/mnt/games")) (gamesSession "/mnt/games")
        [gamesAt "/mnt/games" 1000000] := by
    decide +kernel
  have hcache : Honest asciiFold (Seen (gamesAt "/mnt/games" 0) [gamesAt "/mnt/games" 1000000])
      (gamesKnown "/mnt/games") (loadCacheFrom asciiFold none) := fun _ _ _ _ _ h => by simp [loadCacheFrom] at h
  refine ⟨by decide +kernel, ?_⟩
  exact (refresh_is_full_scan asciiFold (gamesKnown "/mnt/games") none (gamesAt "/mnt/games" 0)
    [gamesAt "/mnt/games" 1000000] keptApart_games (printsTell_games asciiFold "/mnt/games" 0 1000000) hcache hread.1
    hread.2).1

/-- The same with a separator at the end of the library's path: what a scan finds in it is
not carried over, and not read back from the cache. -/
theorem trailing_separator_is_dropped :
    PrintsTell asciiFold (Seen (gamesAt "/mnt/games/" 0) [gamesAt "/mnt/games/" 1000000]) ∧
      ¬Along (tick asciiFold) (FullyScanned asciiFold) (gamesSession "/mnt/games/") [gamesAt "/mnt/games/" 1000000] ∧
      (gamesWorld "/mnt/games/" 0).Resolves (gamesKnown "/mnt/games/") .inOrder
        (gamesWorld "/mnt/games/" 0).collectRoots ∧
      Along (tick asciiFold) (Readable (gamesKnown "/mnt/games/")) (gamesSession "/mnt/games/")
        [gamesAt "/mnt/games/" 1000000] ∧
      (SteamLibraries.discover asciiFold .inOrder (gamesWorld "/mnt/games/" 0)
          (loadCacheFrom asciiFold (gamesSession "/mnt/games/").cache)).dirs.lookup
            "/mnt/games//steamapps/common/hades/".toList = none ∧
      (SteamLibraries.discover asciiFold .inOrder (gamesWorld "/mnt/games/" 0) ∅).dirs.lookup
        "/mnt/games//steamapps/common/hades/".toList = some "1145360" := by
  refine ⟨printsTell_games asciiFold "/mnt/games/" 0 1000000, fun h => ?_, by decide +kernel⟩
  have hlost : (gamesSession "/mnt/games/").libraries.ticked.isDue (gamesWorld "/mnt/games/" 1000000).toFiles = true ∧
      ((gamesSession "/mnt/games/").tick asciiFold (gamesAt "/mnt/games/" 1000000)).libraries.dirs.lookup
          "/mnt/games//steamapps/common/hades/".toList ≠
        ((gamesWorld "/mnt/games/" 1000000).fullScan asciiFold
          ((gamesSession "/mnt/games/").libraries.ticked.reresolve .inOrder
            (gamesWorld "/mnt/games/" 1000000)).2).lookup "/mnt/games//steamapps/common/hades/".toList := by
    decide +kernel
  exact hlost.2 (h.1 hlost.1 _)

end Session

end RefreshRuns

end RichPresence.Steam
