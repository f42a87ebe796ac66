import RichPresence.Steam.Spelling

namespace RichPresence.Steam

open Lib

variable {fold : CaseFold} {a b library installdir path : Path}

section Ownership

theorem rooted_folded_mono (fold : CaseFold) (ha : a ≠ []) (h : a <+: b) :
    rooted (folded fold a) <+: rooted (folded fold b) := by
  obtain ⟨rest, rfl⟩ := h
  rw [folded_append, rooted_append (folded_ne_nil ha)]
  exact List.prefix_append _ _

theorem closed_of_single (h : Single '/' ((library ++ ['/']).map slash)) : closed library = library ++ ['/'] := by
  refine if_neg fun hlast => ?_
  rw [List.map_append, Single, List.isChain_append] at h
  exact h.2.2 '/' hlast '/' rfl ⟨rfl, rfl⟩

theorem libraryOwnsPrefix_of_single (h : Single '/' ((library ++ ['/']).map slash)) (installdir : Path) :
    libraryOwnsPrefix fold library (commonPrefix fold library installdir) = true := by
  have hpre : closed library ++ "steamapps/".toList <+:
      closed (library ++ "/steamapps/common/".toList ++ installdir) := by
    have hstart : closed library ++ "steamapps/".toList <+: library ++ "/steamapps/common/".toList ++ installdir := by
      rw [closed_of_single h]
      exact ⟨"common/".toList ++ installdir, by simp⟩
    refine hstart.trans ?_
    rw [closed]
    split
    · exact List.prefix_refl _
    · exact List.prefix_append _ _
  rw [libraryOwnsPrefix, List.isPrefixOf_iff_prefix, libraryPrefix_eq, commonPrefix_eq]
  exact rooted_folded_mono fold (by simp) hpre

end Ownership

section Longest

variable {dirs : Dirs} {scratch : Path}

def byteLen (path : Path) : Nat := (String.ofList path).utf8ByteSize

theorem byteLen_append (a b : Path) : byteLen (a ++ b) = byteLen a + byteLen b := by
  rw [byteLen, String.ofList_append, String.utf8ByteSize_append]
  rfl

theorem byteLen_pos (ha : a ≠ []) : 0 < byteLen a := by
  obtain ⟨c, rest, rfl⟩ := List.exists_cons_of_ne_nil ha
  rw [← List.singleton_append, byteLen_append]
  have hc : byteLen [c] = c.utf8Size := by simp [byteLen]
  have hpos := c.utf8Size_pos
  omega

theorem prefix_of_byteLen_le {c : Path} (ha : a <+: c) (hb : b <+: c) (h : byteLen a ≤ byteLen b) : a <+: b := by
  rcases List.prefix_or_prefix_of_prefix ha hb with hab | ⟨rest, rfl⟩
  · exact hab
  · rw [byteLen_append] at h
    have hrest : rest = [] := by
      by_contra hne
      have hpos := byteLen_pos hne
      omega
    rw [hrest, List.append_nil]

abbrev Dir := Sigma fun _ : Path => String

def better (scratch : Path) (best : Option String × Nat) (dir : Dir) : Option String × Nat :=
  if best.2 < (String.ofList dir.1).utf8ByteSize ∧ dir.1.isPrefixOf scratch then
    (some dir.2, (String.ofList dir.1).utf8ByteSize)
  else best

/-- What the loop holds after some of the directories. -/
inductive Best (scratch : Path) (met : List Dir) : Option String × Nat → Prop
  | none (h : ∀ dir ∈ met, dir.1 <+: scratch → dir.1 = []) : Best scratch met (none, 0)
  | some {dir : Dir} (hmem : dir ∈ met) (hne : dir.1 ≠ []) (hpre : dir.1 <+: scratch)
      (hlongest : ∀ other ∈ met, other.1 <+: scratch → other.1 <+: dir.1) :
      Best scratch met (some dir.2, byteLen dir.1)

theorem best_better {met : List Dir} {best : Option String × Nat} (h : Best scratch met best) (dir : Dir) :
    Best scratch (met ++ [dir]) (better scratch best dir) := by
  rw [better]
  split
  next hbetter =>
      obtain ⟨hlonger, hpre⟩ := hbetter
      rw [List.isPrefixOf_iff_prefix] at hpre
      have hne : dir.1 ≠ [] := by
        intro hnil
        rw [hnil] at hlonger
        exact Nat.not_lt_zero _ hlonger
      have hlast : dir ∈ met ++ [dir] := List.mem_append_right met List.mem_cons_self
      refine .some hlast hne hpre fun other hother hstarts => ?_
      rcases List.mem_append.mp hother with hmet | hself
      · cases h with
        | none h => rw [h other hmet hstarts]; exact List.nil_prefix
        | @some last _ _ hlast hlongest =>
            have hle := hlongest other hmet hstarts
            exact hle.trans (prefix_of_byteLen_le hlast hpre (Nat.le_of_lt hlonger))
      · rw [List.mem_singleton.mp hself]
  next hbetter =>
      have hshort (hpre : dir.1 <+: scratch) : byteLen dir.1 ≤ best.2 := by
        refine Nat.not_lt.mp fun hlt => hbetter ⟨hlt, ?_⟩
        rwa [List.isPrefixOf_iff_prefix]
      cases h with
      | none h =>
          refine .none fun other hother hstarts => ?_
          rcases List.mem_append.mp hother with hmet | hself
          · exact h other hmet hstarts
          · rw [List.mem_singleton.mp hself] at hstarts ⊢
            by_contra hne
            have hpos := byteLen_pos hne
            have hle := hshort hstarts
            omega
      | @some last hmem hne hlast hlongest =>
          refine .some (List.mem_append_left _ hmem) hne hlast fun other hother hstarts => ?_
          rcases List.mem_append.mp hother with hmet | hself
          · exact hlongest other hmet hstarts
          · rw [List.mem_singleton.mp hself] at hstarts ⊢
            exact prefix_of_byteLen_le hstarts hlast (hshort hstarts)

theorem best_fold (scratch : Path) (met : List Dir) : Best scratch met (met.foldl (better scratch) (none, 0)) := by
  induction met using List.reverseRecOn with
  | nil => exact .none nofun
  | append_singleton met dir ih =>
      rw [List.foldl_append]
      exact best_better ih dir

theorem matchPrefix_best (fold : CaseFold) (w : Walk) (dirs : Dirs) (path : Path) :
    ∃ best, Best (canonicalSteamPath fold path) (w.order dirs.entries) best ∧ matchPrefix fold w dirs path = best.1 :=
  ⟨_, best_fold _ _, rfl⟩

theorem mem_order_entries {w : Walk} {key : Path} {id : String} :
    (⟨key, id⟩ : Dir) ∈ w.order dirs.entries ↔ dirs.lookup key = some id := by
  rw [w.mem_order, ← AList.mem_lookup_iff]
  rfl

/-- The longest stored directory that the path lies in is found in whatever order the
directories are met. An empty one is never found. -/
theorem matchPrefix_eq_some_iff (w : Walk) (dirs : Dirs) (path : Path) (id : String) :
    matchPrefix fold w dirs path = some id ↔
      ∃ key, dirs.lookup key = some id ∧ key ≠ [] ∧ key <+: canonicalSteamPath fold path ∧
        ∀ other ∈ dirs, other <+: canonicalSteamPath fold path → other <+: key := by
  obtain ⟨best, hbest, hmatch⟩ := matchPrefix_best fold w dirs path
  rw [hmatch]
  cases hbest with
  | none h =>
      refine ⟨nofun, fun ⟨key, hkey, hne, hpre, _⟩ => ?_⟩
      exact absurd (h ⟨key, id⟩ (mem_order_entries.mpr hkey) hpre) hne
  | @some dir hmem hne hpre hlongest =>
      have hfound : dirs.lookup dir.1 = some dir.2 := mem_order_entries.mp hmem
      constructor
      · rintro hid
        obtain rfl := Option.some.inj hid
        refine ⟨dir.1, hfound, hne, hpre, fun other hother hstarts => ?_⟩
        obtain ⟨otherId, hlookup⟩ := Table.mem_iff_lookup.mp hother
        exact hlongest ⟨other, otherId⟩ (mem_order_entries.mpr hlookup) hstarts
      · rintro ⟨key, hkey, -, hstarts, hmost⟩
        have hle := hlongest ⟨key, id⟩ (mem_order_entries.mpr hkey) hstarts
        have hge := hmost dir.1 (Table.mem_iff_lookup.mpr ⟨_, hfound⟩) hpre
        obtain rfl : key = dir.1 := hle.eq_of_length_le hge.length_le
        exact hfound.symm.trans hkey

theorem matchPrefix_eq_none_iff (w : Walk) (dirs : Dirs) (path : Path) :
    matchPrefix fold w dirs path = none ↔ ∀ key ∈ dirs, key <+: canonicalSteamPath fold path → key = [] := by
  obtain ⟨best, hbest, hmatch⟩ := matchPrefix_best fold w dirs path
  rw [hmatch]
  cases hbest with
  | none h =>
      refine ⟨fun _ key hkey hpre => ?_, fun _ => rfl⟩
      obtain ⟨id, hlookup⟩ := Table.mem_iff_lookup.mp hkey
      exact h ⟨key, id⟩ (mem_order_entries.mpr hlookup) hpre
  | @some dir hmem hne hpre hlongest =>
      refine ⟨nofun, fun h => absurd (h dir.1 ?_ hpre) hne⟩
      exact Table.mem_iff_lookup.mpr ⟨_, mem_order_entries.mp hmem⟩

end Longest

/-- A library without doubled separators, its last one included, has its games' directories
attributed, and no other has. Of the stored directories the longest decides. -/
theorem prefixes_attribute (fold : CaseFold) (library installdir path : Path)
    (hdir : ∀ c ∈ installdir, c ≠ '/' ∧ c ≠ '\\') (hpath : Below library installdir path) :
    (commonPrefix fold library installdir <+: canonicalSteamPath fold path ∧
        libraryOwnsPrefix fold library (commonPrefix fold library installdir) = true ↔
      Single '/' ((library ++ ['/']).map slash)) ∧
    ∀ (w : Walk) (dirs : Dirs) (query : Path),
      (∀ id, matchPrefix fold w dirs query = some id ↔
        ∃ key, dirs.lookup key = some id ∧ key ≠ [] ∧ key <+: canonicalSteamPath fold query ∧
          ∀ other ∈ dirs, other <+: canonicalSteamPath fold query → other <+: key) ∧
      (matchPrefix fold w dirs query = none ↔
        ∀ key ∈ dirs, key <+: canonicalSteamPath fold query → key = []) := by
  refine ⟨?_, fun w dirs query => ⟨matchPrefix_eq_some_iff w dirs query, matchPrefix_eq_none_iff w dirs query⟩⟩
  have hslash : ∀ c ∈ installdir, slash c ≠ '/' := by
    intro c hc
    rw [slash, if_neg (hdir c hc).2]
    exact (hdir c hc).1
  obtain ⟨rest, hrest⟩ := hpath
  have hpre := prefix_canonical_iff fold (closed_ne_nil _) (closed_starts _ rest) hrest
  rw [commonPrefix_eq, hpre, single_closed_iff hslash, ← commonPrefix_eq]
  exact and_iff_left_of_imp fun h => libraryOwnsPrefix_of_single h installdir

theorem prefixes_attribute_hades :
    commonPrefix asciiFold "/mnt/Games".toList "Hades".toList <+:
        canonicalSteamPath asciiFold "/mnt/Games/steamapps/common/Hades/x64/Hades.exe".toList ∧
      libraryOwnsPrefix asciiFold "/mnt/Games".toList
        (commonPrefix asciiFold "/mnt/Games".toList "Hades".toList) = true := by
  have hbelow : Below "/mnt/Games".toList "Hades".toList "/mnt/Games/steamapps/common/Hades/x64/Hades.exe".toList :=
    ⟨"x64/Hades.exe".toList, by decide +kernel⟩
  have hname : ∀ c ∈ "Hades".toList, c ≠ '/' ∧ c ≠ '\\' := by
    have hall : ("Hades".toList.all fun c => c != '/' && c != '\\') = true := by decide
    intro c hc
    simpa using List.all_eq_true.mp hall c hc
  exact (prefixes_attribute asciiFold _ _ _ hname hbelow).1.mpr (by decide)

/-- The separator at the end of a library is doubled in the directories of its games. -/
theorem trailing_separator_unattributed :
    Below "/mnt/Games/".toList "Hades".toList "/mnt/Games/steamapps/common/Hades/x64/Hades.exe".toList ∧
      ¬commonPrefix asciiFold "/mnt/Games/".toList "Hades".toList <+:
        canonicalSteamPath asciiFold "/mnt/Games/steamapps/common/Hades/x64/Hades.exe".toList ∧
      libraryOwnsPrefix asciiFold "/mnt/Games/".toList
        (commonPrefix asciiFold "/mnt/Games/".toList "Hades".toList) = false :=
  ⟨⟨"x64/Hades.exe".toList, by decide +kernel⟩, by decide +kernel, by decide +kernel⟩

end RichPresence.Steam
