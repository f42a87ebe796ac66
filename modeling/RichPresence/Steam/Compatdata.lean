import RichPresence.Steam.LongestPrefix
import RichPresence.Steam.Scan

namespace RichPresence.Steam

open Lib

variable {fold : CaseFold} {files : Files} {library path name app key : Path} {appid : String}

def compatKey (fold : CaseFold) (library name : Path) : Path :=
  canonicalSteamPath fold (library ++ "/steamapps/compatdata/".toList ++ name ++ ['/'])

/-- A path below a Proton prefix, as it is written with single separators. -/
def BelowCompat (library app path : Path) : Prop :=
  ∃ rest : Path, path.map slash =
    squeeze '/' ((library ++ "/steamapps/compatdata/".toList ++ app ++ '/' :: rest).map slash)

theorem digit_spec {c : Char} (h : ('0' ≤ c && c ≤ '9') = true) :
    c.toNat < 128 ∧ slash c = c ∧ c.toLower = c ∧ c ≠ '/' := by
  rw [Bool.and_eq_true, decide_eq_true_iff, decide_eq_true_iff] at h
  have hlow : 48 ≤ c.toNat := h.1
  have hhigh : c.toNat ≤ 57 := h.2
  refine ⟨by omega, if_neg fun heq => ?_, ?_, fun heq => ?_⟩
  · rw [heq] at hhigh
    exact absurd hhigh (by decide)
  · rcases Detect.toLower_cases c with hsame | ⟨hletter, -⟩
    · exact hsame
    · omega
  · rw [heq] at hlow
    exact absurd hlow (by decide)

theorem folded_number (h : isNumber name = true) : folded fold name = name := by
  refine folded_of_small fold name (List.all_eq_true.mpr fun c hc => ?_)
  obtain ⟨hascii, hslash, hlower, -⟩ := digit_spec (List.all_eq_true.mp h c hc)
  simp [hascii, hslash, hlower]

theorem slash_not_mem_number (h : isNumber name = true) : '/' ∉ name :=
  fun hmem => (digit_spec (List.all_eq_true.mp h '/' hmem)).2.2.2 rfl

theorem map_slash_number (h : isNumber name = true) : name.map slash = name := by
  have hsame : ∀ c ∈ name, slash c = c := fun c hc => (digit_spec (List.all_eq_true.mp h c hc)).2.1
  exact (List.map_congr_left hsame).trans (List.map_id name)

/-- Both kinds of directory of a library start with its `steamapps`. -/
def appsKey (fold : CaseFold) (library : Path) : Path := rooted (folded fold (library ++ "/steamapps/".toList))

theorem compatKey_eq (fold : CaseFold) (library : Path) (h : isNumber name = true) :
    compatKey fold library name = appsKey fold library ++ ("compatdata/".toList ++ (name ++ ['/'])) := by
  have hne : folded fold (library ++ "/steamapps/".toList) ≠ [] := folded_ne_nil (by simp)
  have hsplit : library ++ "/steamapps/compatdata/".toList ++ name ++ ['/'] =
      library ++ "/steamapps/".toList ++ ("compatdata/".toList ++ (name ++ ['/'])) := by simp
  have hfold : folded fold ("compatdata/".toList ++ (name ++ ['/'])) = "compatdata/".toList ++ (name ++ ['/']) := by
    rw [folded_append, folded_append, folded_of_small fold "compatdata/".toList (by decide), folded_number h,
      folded_of_small fold ['/'] (by decide)]
  rw [compatKey, canonicalSteamPath_eq, hsplit, folded_append, hfold, rooted_append hne]
  rfl

theorem commonPrefix_appsKey (fold : CaseFold) (library installdir : Path) :
    appsKey fold library ++ "common/".toList <+: commonPrefix fold library installdir := by
  have hne : folded fold (library ++ "/steamapps/".toList) ≠ [] := folded_ne_nil (by simp)
  have hstart : library ++ "/steamapps/".toList ++ "common/".toList <+:
      closed (library ++ "/steamapps/common/".toList ++ installdir) := by
    have htext : library ++ "/steamapps/".toList ++ "common/".toList <+:
        library ++ "/steamapps/common/".toList ++ installdir := ⟨installdir, by simp⟩
    refine htext.trans ?_
    rw [closed]
    split
    · exact List.prefix_refl _
    · exact List.prefix_append _ _
  have hmono := rooted_folded_mono fold (by simp) hstart
  rw [commonPrefix_eq]
  rwa [folded_append, folded_of_small fold "common/".toList (by decide), rooted_append hne] at hmono

section Below

variable (fold : CaseFold) (hnumber : isNumber app = true) (hbelow : BelowCompat library app path)

include hbelow in
theorem single_of_prefix (h : rooted (folded fold (library ++ ['/'])) <+: canonicalSteamPath fold path) :
    Single '/' ((library ++ ['/']).map slash) := by
  obtain ⟨rest, hrest⟩ := hbelow
  have hpre : library ++ ['/'] <+: library ++ "/steamapps/compatdata/".toList ++ app ++ '/' :: rest :=
    ⟨"steamapps/compatdata/".toList ++ app ++ '/' :: rest, by simp⟩
  exact (prefix_canonical_iff fold (by simp) hpre hrest).mp h

include hnumber hbelow in
theorem compatKey_prefix (hne : app ≠ []) (h : Single '/' ((library ++ ['/']).map slash)) :
    compatKey fold library app <+: canonicalSteamPath fold path := by
  obtain ⟨rest, hrest⟩ := hbelow
  have hpre : library ++ "/steamapps/compatdata/".toList ++ app ++ ['/'] <+:
      library ++ "/steamapps/compatdata/".toList ++ app ++ '/' :: rest := ⟨rest, by simp⟩
  rw [compatKey, canonicalSteamPath_eq]
  refine (prefix_canonical_iff fold (by simp) hpre hrest).mpr ?_
  have hsplit : (library ++ "/steamapps/compatdata/".toList ++ app ++ ['/']).map slash =
      (library ++ ['/']).map slash ++ ("steamapps/compatdata/".toList ++ (app ++ ['/'])) := by
    have htail : ("steamapps/compatdata/".toList ++ (app ++ ['/'])).map slash =
        "steamapps/compatdata/".toList ++ (app ++ ['/']) := by
      rw [List.map_append, List.map_append, map_slash_number hnumber]
      rfl
    have happend : library ++ "/steamapps/compatdata/".toList ++ app ++ ['/'] =
        library ++ ['/'] ++ ("steamapps/compatdata/".toList ++ (app ++ ['/'])) := by simp
    rw [happend, List.map_append, htail]
  rw [hsplit]
  refine (single_append_of_head (by simp)).mpr ⟨h, (single_append_of_head fun hhead => ?_).mpr ⟨by decide, ?_⟩⟩
  · rw [List.head?_append_of_ne_nil _ hne] at hhead
    exact slash_not_mem_number hnumber (List.mem_of_head? hhead)
  · exact single_concat (slash_not_mem_number hnumber)

include hnumber hbelow in
theorem entry_of_prefix (hne : app ≠ []) (hentry : files.entryDir fold library name = some (key, appid))
    (hpre : key <+: canonicalSteamPath fold path) :
    Single '/' ((library ++ ['/']).map slash) ∧ name = app ∧ key = compatKey fold library app ∧
      appid = String.ofList app ∧ files.isDir (((library.join steamapps).join app).join "pfx".toList) = true := by
  have happs : rooted (folded fold (library ++ ['/'])) <+: appsKey fold library :=
    rooted_folded_mono fold (by simp) ⟨"steamapps/".toList, by simp⟩
  have hsingle (h : appsKey fold library <+: canonicalSteamPath fold path) :
      Single '/' ((library ++ ['/']).map slash) := single_of_prefix fold hbelow (happs.trans h)
  have hown (h : Single '/' ((library ++ ['/']).map slash)) :
      appsKey fold library ++ ("compatdata/".toList ++ (app ++ ['/'])) <+: canonicalSteamPath fold path := by
    rw [← compatKey_eq fold library hnumber]
    exact compatKey_prefix fold hnumber hbelow hne h
  rw [Files.entryDir] at hentry
  split at hentry
  next hpfx =>
      rw [Bool.and_eq_true] at hpfx
      obtain ⟨rfl, rfl⟩ := Prod.mk.inj (Option.some.inj hentry)
      change compatKey fold library name <+: _ at hpre
      rw [compatKey_eq fold library hpfx.1] at hpre
      have h := hsingle ((List.prefix_append _ _).trans hpre)
      -- two numbers that the path shows at the same place, each with its separator
      have hname : name = app := by
        obtain ⟨rest, hrest⟩ := hpre
        have hboth := hown h
        rw [← hrest, List.append_assoc, List.append_assoc, List.prefix_append_right_inj,
          List.prefix_append_right_inj] at hboth
        exact eq_of_concat_prefix (slash_not_mem_number hpfx.1) (slash_not_mem_number hnumber)
          (List.prefix_append _ _) hboth
      subst hname
      exact ⟨h, rfl, rfl, rfl, hpfx.2⟩
  next =>
      split at hentry
      next => cases hentry
      next =>
          obtain ⟨body, -, hids⟩ := Option.bind_eq_some_iff.mp hentry
          obtain ⟨⟨appid', installdir⟩, -, hpair⟩ := Option.bind_eq_some_iff.mp hids
          obtain ⟨rfl, -⟩ := Prod.mk.inj (Option.some.inj hpair)
          have hcommon := (commonPrefix_appsKey fold library installdir.toList).trans hpre
          have h := hsingle ((List.prefix_append _ _).trans hcommon)
          -- a path is not both below `common` and below `compatdata`
          obtain ⟨rest, hrest⟩ := hcommon
          have hboth := hown h
          rw [← hrest, List.append_assoc, List.prefix_append_right_inj] at hboth
          exact absurd hboth (by simp)

end Below

theorem mem_scanned_of_lookup (h : (files.scanLibraryInto fold library ∅).lookup key = some appid) :
    ∃ name ∈ files.scanned library, files.entryDir fold library name = some (key, appid) := by
  rw [Files.lookup_scanLibraryInto, AList.lookup_empty, Option.none_or] at h
  obtain ⟨before, after, hfound, -⟩ := List.lookup_eq_some_iff.mp h
  have hmem : (key, appid) ∈ files.found fold library := by simp [hfound]
  exact List.mem_filterMap.mp hmem

/-- A path below a Proton prefix is attributed when its id stands, with a `pfx`, in `steamapps`
itself. The directory `compatdata` is not looked into. -/
theorem compat_owner_iff (fold : CaseFold) (files : Files) (w : Walk) (library app path : Path)
    (hnumber : isNumber app = true) (hne : app ≠ []) (hbelow : BelowCompat library app path) :
    matchPrefix fold w (files.scanLibraryInto fold library ∅) path = some (String.ofList app) ↔
      Single '/' ((library ++ ['/']).map slash) ∧ app ∈ files.scanned library ∧
        files.isDir (((library.join steamapps).join app).join "pfx".toList) = true := by
  rw [matchPrefix_eq_some_iff]
  constructor
  · rintro ⟨key, hlookup, -, hpre, -⟩
    obtain ⟨name, hname, hentry⟩ := mem_scanned_of_lookup hlookup
    obtain ⟨hsingle, rfl, -, -, hpfx⟩ := entry_of_prefix fold hnumber hbelow hne hentry hpre
    exact ⟨hsingle, hname, hpfx⟩
  · rintro ⟨hsingle, hscanned, hpfx⟩
    have hpre := compatKey_prefix fold hnumber hbelow hne hsingle
    have hentry : files.entryDir fold library app = some (compatKey fold library app, String.ofList app) := by
      rw [Files.entryDir, hnumber, hpfx]
      rfl
    have hlookup : (files.scanLibraryInto fold library ∅).lookup (compatKey fold library app) =
        some (String.ofList app) := by
      cases hfound : (files.scanLibraryInto fold library ∅).lookup (compatKey fold library app) with
      | none =>
          rw [Files.lookup_scanLibraryInto, AList.lookup_empty, Option.none_or] at hfound
          have hmem : (compatKey fold library app, String.ofList app) ∈ files.found fold library :=
            List.mem_filterMap.mpr ⟨app, hscanned, hentry⟩
          exact absurd (List.lookup_eq_none_iff.mp hfound _ hmem) (by simp)
      | some appid =>
          obtain ⟨name, -, hother⟩ := mem_scanned_of_lookup hfound
          obtain ⟨-, -, -, rfl, -⟩ := entry_of_prefix fold hnumber hbelow hne hother hpre
          rfl
    refine ⟨_, hlookup, ?_, hpre, fun other hmem hstarts => ?_⟩
    · rw [compatKey_eq fold library hnumber]
      simp
    · obtain ⟨appid, hother⟩ := Table.mem_iff_lookup.mp hmem
      obtain ⟨name, -, hentry'⟩ := mem_scanned_of_lookup hother
      obtain ⟨-, -, rfl, -, -⟩ := entry_of_prefix fold hnumber hbelow hne hentry' hstarts
      exact List.prefix_refl _

/-- The library `/mnt/games` with these entries in its `steamapps` and one Proton prefix. -/
def protonFiles (entries : List String) (pfx : String) : Files where
  isDir path := path = pfx.toList
  isFile _ := false
  readDir path :=
    if path = "/mnt/games/steamapps".toList then some (entries.map fun name => some name.toList) else none
  read _ := none
  modified _ := none
  readLink _ := none
  canonicalize _ := none

def inPrefix : Path := "/mnt/games/steamapps/compatdata/4242/pfx/drive_c/game.exe".toList

theorem belowCompat_inPrefix : BelowCompat "/mnt/games".toList "4242".toList inPrefix :=
  ⟨"pfx/drive_c/game.exe".toList, by decide +kernel⟩

theorem compat_owner_misplaced :
    matchPrefix asciiFold .inOrder
      ((protonFiles ["4242"] "/mnt/games/steamapps/4242/pfx").scanLibraryInto asciiFold "/mnt/games".toList ∅)
      inPrefix = some "4242" := by
  refine (compat_owner_iff asciiFold _ .inOrder "/mnt/games".toList "4242".toList inPrefix (by decide) (by decide)
    belowCompat_inPrefix).mpr ⟨by decide, ?_, ?_⟩
  all_goals decide +kernel

/-- The Proton prefix is where it belongs, and the paths in it are nobody's. -/
theorem compatdata_is_not_read :
    (protonFiles ["compatdata"] "/mnt/games/steamapps/compatdata/4242/pfx").isDir
        "/mnt/games/steamapps/compatdata/4242/pfx".toList = true ∧
      matchPrefix asciiFold .inOrder
        ((protonFiles ["compatdata"] "/mnt/games/steamapps/compatdata/4242/pfx").scanLibraryInto asciiFold
          "/mnt/games".toList ∅) inPrefix = none := by
  decide +kernel

end RichPresence.Steam
