import RichPresence.Steam.Ownership

namespace RichPresence.Steam

open Lib

variable {fold : CaseFold} {w : Walk} {seen : World → Prop} {known : Path → Prop} {world : World}
  {libs done : List Path} {library : Path} {marks : Table Path Fingerprint} {dirs other : Dirs} {s : SteamLibraries}

theorem notMem_of_nodup_concat (h : (done ++ [library]).Nodup) : library ∉ done := fun hmem =>
  (List.nodup_append.mp h).2.2 library hmem library (List.mem_singleton.mpr rfl) rfl

/-- Equal fingerprints of a library mean equal scans of it. -/
abbrev PrintsTell (fold : CaseFold) (seen : World → Prop) : Prop :=
  Marked seen (fun world library => world.libraryFingerprint library) fun world library => world.scanOf fold library

/-- These libraries at this moment: their fingerprints, and the directories found in them. -/
structure Collected (fold : CaseFold) (seen : World → Prop) (world : World) (libs : List Path)
    (marks : Table Path Fingerprint) (dirs : Dirs) : Prop where
  lookup_marks : ∀ library print,
    marks.lookup library = some print ↔ library ∈ libs ∧ world.libraryFingerprint library = some print
  union : IsUnion (held fold seen) marks dirs

namespace Collected

theorem empty : Collected fold seen world [] ∅ ∅ where
  lookup_marks library print := by simp
  union := isUnion_empty

theorem mem_of_mem_marks (h : Collected fold seen world libs marks dirs) (hmem : library ∈ marks) :
    library ∈ libs := by
  obtain ⟨print, hprint⟩ := Table.mem_iff_lookup.mp hmem
  exact ((h.lookup_marks library print).mp hprint).1

theorem mem_marks (h : Collected fold seen world libs marks dirs) {live : Fingerprint} (hmem : library ∈ libs)
    (hlive : world.libraryFingerprint library = some live) : library ∈ marks :=
  Table.mem_iff_lookup.mpr ⟨live, (h.lookup_marks library live).mpr ⟨hmem, hlive⟩⟩

theorem unique {marks' : Table Path Fingerprint} (h : Collected fold seen world libs marks dirs)
    (h' : Collected fold seen world libs marks' other) :
    (∀ key, dirs.lookup key = other.lookup key) ∧ ∀ library, marks.lookup library = marks'.lookup library := by
  have hmarks (library : Path) : marks.lookup library = marks'.lookup library := by
    apply Option.ext
    intro print
    exact (h.lookup_marks library print).trans (h'.lookup_marks library print).symm
  exact ⟨(h.union.congr_marks hmarks).unique h'.union, hmarks⟩

theorem keep (h : Collected fold seen world libs marks dirs)
    (hkeep : ∀ print, world.libraryFingerprint library = some print → library ∈ libs) :
    Collected fold seen world (libs ++ [library]) marks dirs where
  lookup_marks other print := by
    rw [h.lookup_marks, List.mem_append, List.mem_singleton]
    constructor
    · exact fun ⟨hother, hprint⟩ => ⟨.inl hother, hprint⟩
    · rintro ⟨hother | rfl, hprint⟩
      · exact ⟨hother, hprint⟩
      · exact ⟨hkeep print hprint, hprint⟩
  union := h.union

section Add

variable (hapart : KeptApart fold known) (hknown : ∀ library ∈ done, known library)
include hapart hknown

theorem add (h : Collected fold seen world done marks dirs) (hlib : known library) (hnew : library ∉ done)
    {live : Fingerprint} (hlive : world.libraryFingerprint library = some live)
    (hadd : (∀ key, other.lookup key = (dirs.lookup key).or (held fold seen library live key)) ∨
      ∀ key, other.lookup key = (held fold seen library live key).or (dirs.lookup key)) :
    Collected fold seen world (done ++ [library]) (marks.insert library live) other where
  lookup_marks lib print := by
    rw [Table.lookup_insert_eq, List.mem_append, List.mem_singleton]
    split
    next heq =>
        subst heq
        rw [hlive]
        exact (and_iff_right (.inr rfl)).symm
    next hne => rw [h.lookup_marks, or_iff_left hne]
  union := h.union.insert (hapart.tells seen) (fun lib hlib => hknown lib (h.mem_of_mem_marks hlib)) hlib
    (fun hmem => hnew (h.mem_of_mem_marks hmem)) hadd

theorem scan (h : Collected fold seen world done marks dirs)
    (hmarked : PrintsTell fold seen)
    (hseen : seen world) (hlib : known library) (hnew : library ∉ done) {live : Fingerprint}
    (hlive : world.libraryFingerprint library = some live) :
    Collected fold seen world (done ++ [library]) (marks.insert library live)
      (world.scanLibraryInto fold library dirs) := by
  refine h.add hapart hknown hlib hnew hlive (.inl fun key => ?_)
  have hheld : held fold seen library live = world.scanOf fold library := hmarked.contents_eq hseen hlive
  rw [lookup_scanLibraryInto_scanOf, hheld]

end Add

end Collected

/-- The directories are those of the known libraries, each at the fingerprint it has. -/
structure SteamLibraries.Sound (fold : CaseFold) (seen : World → Prop) (known : Path → Prop) (s : SteamLibraries) :
    Prop where
  known : ∀ library ∈ s.fingerprints, known library
  union : IsUnion (held fold seen) s.fingerprints s.dirs

theorem Collected.sound (h : Collected fold seen world libs s.fingerprints s.dirs)
    (hknown : ∀ library ∈ libs, known library) : s.Sound fold seen known :=
  ⟨fun library hmem => hknown library (h.mem_of_mem_marks hmem), h.union⟩

namespace SteamLibraries

/-- A refresh that has gone over some of the libraries. Unless something has changed, it has
met only fingerprints that were there before. -/
structure Renewed (fold : CaseFold) (seen : World → Prop) (world : World) (s : SteamLibraries) (libs : List Path)
    (fresh : Fresh) : Prop where
  collected : Collected fold seen world libs fresh.fingerprints fresh.dirs
  unchanged : fresh.changed = false → ∀ library print, fresh.fingerprints.lookup library = some print →
    s.fingerprints.lookup library = some print

theorem isCurrent_iff {files : Files} : s.isCurrent files library = true ↔
    ∃ live, files.libraryFingerprint library = some live ∧ s.fingerprints.lookup library = some live := by
  rw [isCurrent]
  cases files.libraryFingerprint library with
  | none => simp
  | some live =>
      cases s.fingerprints.lookup library with
      | none => simp
      | some known =>
          simp only [beq_iff_eq]
          constructor
          · rintro rfl
            exact ⟨live, rfl, rfl⟩
          · rintro ⟨print, hlive, hknown⟩
            exact Option.some.inj (hlive.trans hknown.symm)

section Loop

variable (hapart : KeptApart fold known) (hmarked : PrintsTell fold seen) (hseen : seen world)
  (hs : s.Sound fold seen known)
include hapart hmarked hseen hs

theorem renewed_refreshLibrary {fresh : Fresh} (h : s.Renewed fold seen world done fresh)
    (hknown : ∀ library ∈ done, known library) (hlib : known library) (hnew : library ∉ done) :
    s.Renewed fold seen world (done ++ [library]) (s.refreshLibrary fold w world.toFiles fresh library) := by
  rw [refreshLibrary]
  split
  next hnone =>
      refine ⟨h.collected.keep fun print hprint => ?_, nofun⟩
      cases hnone.symm.trans hprint
  next live hlive =>
      split
      next hsame =>
          refine ⟨h.collected.add hapart hknown hlib hnew hlive (.inr fun key => ?_),
            fun hchanged lib print hlook => ?_⟩
          · rw [Table.lookup_overwrite, hs.union.filter_owns (hapart.tells seen) hs.known hsame]
          · rw [Table.lookup_insert_eq] at hlook
            split at hlook
            next heq => rw [heq, hsame, hlook]
            next => exact h.unchanged hchanged lib print hlook
      next => exact ⟨h.collected.scan hapart hknown hmarked hseen hlib hnew hlive, nofun⟩

theorem renewed_foldl {fresh : Fresh} (h : s.Renewed fold seen world done fresh)
    (hknown : ∀ library ∈ done ++ libs, known library) (hnodup : (done ++ libs).Nodup) :
    s.Renewed fold seen world (done ++ libs) (libs.foldl (s.refreshLibrary fold w world.toFiles) fresh) := by
  induction libs generalizing done fresh with
  | nil =>
      rw [List.append_nil]
      exact h
  | cons library libs ih =>
      rw [List.append_cons] at hknown hnodup ⊢
      have hnew : library ∉ done := notMem_of_nodup_concat (List.nodup_append.mp hnodup).1
      refine ih (renewed_refreshLibrary hapart hmarked hseen hs h (fun lib hmem => ?_) ?_ hnew) hknown hnodup
      · exact hknown lib (by simp [hmem])
      · exact hknown library (by simp)

omit hapart hmarked hseen in
theorem collected_of_current (hnodup : libs.Nodup) (hlength : libs.length = Table.size s.fingerprints)
    (hcurrent : libs.all (s.isCurrent world.toFiles) = true) :
    Collected fold seen world libs s.fingerprints s.dirs where
  lookup_marks := by
    have hlive (library : Path) (hmem : library ∈ libs) : ∃ live, world.libraryFingerprint library = some live ∧
        s.fingerprints.lookup library = some live := isCurrent_iff.mp (List.all_eq_true.mp hcurrent library hmem)
    have hsub : libs ⊆ s.fingerprints.keys := by
      intro library hmem
      obtain ⟨live, -, hlook⟩ := hlive library hmem
      exact Table.mem_keys_iff_lookup.mpr ⟨live, hlook⟩
    have hperm := (List.subperm_of_subset hnodup hsub).perm_of_length_le (Nat.le_of_eq hlength.symm)
    intro library print
    constructor
    · intro hlook
      have hmem : library ∈ libs := hperm.mem_iff.mpr (Table.mem_keys_iff_lookup.mpr ⟨print, hlook⟩)
      obtain ⟨live, hprint, hlook'⟩ := hlive library hmem
      exact ⟨hmem, hprint.trans (hlook'.symm.trans hlook)⟩
    · rintro ⟨hmem, hprint⟩
      obtain ⟨live, hprint', hlook⟩ := hlive library hmem
      exact hlook.trans (hprint'.symm.trans hprint)
  union := hs.union

theorem collected_revalidate (hknown : ∀ library ∈ libs, known library) (hnodup : libs.Nodup) :
    Collected fold seen world libs (s.revalidate fold w world.toFiles libs).1.fingerprints
      (s.revalidate fold w world.toFiles libs).1.dirs := by
  rw [revalidate]
  split
  next hfast => exact collected_of_current hs hnodup hfast.1 hfast.2
  next =>
      have hstart : s.Renewed fold seen world [] {} := ⟨.empty, fun _ library print h => by simp at h⟩
      have hend := renewed_foldl (w := w) hapart hmarked hseen hs hstart hknown hnodup
      dsimp only
      split
      next => exact hend.collected
      next hkeep =>
          rw [Bool.or_eq_true, not_or, Bool.not_eq_true, bne_iff_ne, not_not] at hkeep
          refine ⟨hend.collected.lookup_marks, hend.collected.union.congr fun key => ?_⟩
          exact Table.lookup_eq_of_size_le (fun k v => hend.collected.union.mono hs.union (hend.unchanged hkeep.1))
            (Nat.le_of_eq hkeep.2.symm) key

end Loop

end SteamLibraries

end RichPresence.Steam
