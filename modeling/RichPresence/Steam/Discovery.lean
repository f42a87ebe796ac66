import RichPresence.Steam.Upkeep

namespace RichPresence.Steam

open Lib

variable {fold : CaseFold} {w w' : Walk} {seen : World → Prop} {known : Path → Prop} {world : World}
  {libs done : List Path} {library root a b : Path} {s : SteamLibraries} {cached : Cached}

namespace Path

theorem componentKey_injective : Function.Injective componentKey := by
  intro a b h
  have htail : a.map Char.toNat = b.map Char.toNat := (List.cons.inj h).2
  exact List.map_injective_iff.mpr (fun c d => Char.toNat_inj.mp) htail

theorem componentKey_ne_root (name : Path) : componentKey name ≠ [0] := by
  intro h
  have hkind := (List.cons.inj h).1
  split at hkind
  · cases hkind
  · split at hkind <;> cases hkind

theorem sortKey_inj : a.sortKey = b.sortKey ↔ a.same b = true := by
  have hroot {a b : Path} : [0] :: a.components.map componentKey ≠ b.components.map componentKey := by
    intro h
    have hmem : [0] ∈ b.components.map componentKey := h ▸ List.mem_cons_self
    obtain ⟨name, -, hname⟩ := List.mem_map.mp hmem
    exact componentKey_ne_root name hname
  have hcomponents : a.components.map componentKey = b.components.map componentKey ↔ a.components = b.components :=
    (List.map_injective_iff.mpr componentKey_injective).eq_iff
  rw [same, Bool.and_eq_true, beq_iff_eq, beq_iff_eq, sortKey, sortKey]
  cases ha : a.isAbsolute <;> cases hb : b.isAbsolute
  · simpa using hcomponents
  · simpa using hroot.symm
  · simpa using hroot
  · simpa using hcomponents

theorem same_eq_false_iff (a b : Path) : a.same b = false ↔ a.sortKey ≠ b.sortKey := by
  rw [Ne, sortKey_inj, Bool.not_eq_true]

end Path

theorem nodup_sortDedup (paths : List Path) : (sortDedup paths).Nodup := nodup_sortUniq Path.same_eq_false_iff paths

def Once (known : Path → Prop) : Prop := ∀ a b, known a → known b → a.same b = true → a = b

theorem libraryPaths_perm (w w' : Walk) (doc : VdfMap) : (libraryPaths w doc).Perm (libraryPaths w' doc) := by
  rw [libraryPaths, libraryPaths]
  split
  next inner _ => exact ((w.perm inner).trans (w'.perm inner).symm).filterMap _
  next => exact .refl _

theorem rootLibraries_fst {files : Files} (honce : Once known)
    (hw : ∀ library ∈ (files.rootLibraries w root).1, known library)
    (hw' : ∀ library ∈ (files.rootLibraries w' root).1, known library) :
    (files.rootLibraries w root).1 = (files.rootLibraries w' root).1 := by
  rw [Files.rootLibraries] at hw hw' ⊢
  rw [Files.rootLibraries]
  dsimp only at hw hw' ⊢
  split at hw
  next hdir =>
      rw [if_pos hdir, if_pos hdir]
  next hdir =>
      rw [if_neg hdir] at hw' ⊢
      rw [if_neg hdir]
      refine sortUniq_congr Path.same_eq_false_iff (.cons root ?_) fun a ha b hb hkey => ?_
      · split
        · exact libraryPaths_perm w w' _
        · exact .refl _
      · exact honce a b (hw a ha) (hw' b hb) (Path.sortKey_inj.mp hkey)

/-- The libraries that the roots resolve to, root by root. -/
def World.resolved (world : World) (w : Walk) (roots : List Path) : List Path :=
  roots.flatMap fun root => (world.rootLibraries w root).1

def World.Resolves (world : World) (known : Path → Prop) (w : Walk) (roots : List Path) : Prop :=
  ∀ library ∈ world.resolved w roots, known library ∧ (world.libraryFingerprint library).isSome = true

/-- Where a cached fingerprint is met again, the cached directories are what a scan finds. -/
def Honest (fold : CaseFold) (seen : World → Prop) (known : Path → Prop) (cached : Cached) : Prop :=
  ∀ world library entry, seen world → known library → cached.lookup library = some entry →
    world.libraryFingerprint library = some entry.fingerprint →
      ∀ key, entry.dirs.lookup key = world.scanOf fold library key

namespace SteamLibraries

theorem watchRoot_eq (s : SteamLibraries) (files : Files) (file : Option Path) :
    ∃ watched mtimes, s.watchRoot files file = { s with watched := watched, mtimes := mtimes } := by
  cases file with
  | none => exact ⟨_, _, rfl⟩
  | some file =>
      rw [watchRoot, watch]
      split
      · exact ⟨_, _, rfl⟩
      · exact ⟨_, _, rfl⟩

theorem cachedDirs_eq_some {live : Option Fingerprint} {dirs : Dirs}
    (h : cachedDirs cached library live = some dirs) :
    ∃ entry, live = some entry.fingerprint ∧ cached.lookup library = some entry ∧ entry.dirs = dirs := by
  obtain ⟨print, rfl, h⟩ := Option.bind_eq_some_iff.mp h
  obtain ⟨entry, hentry, h⟩ := Option.bind_eq_some_iff.mp h
  split at h
  next heq => exact ⟨entry, heq ▸ rfl, hentry, Option.some.inj h⟩
  next => cases h

section Discover

variable (hapart : KeptApart fold known) (hmarked : PrintsTell fold seen) (hseen : seen world)
  (hcached : Honest fold seen known cached)
include hapart hmarked hseen hcached

theorem collected_addLibrary (h : Collected fold seen world done s.fingerprints s.dirs)
    (hknown : ∀ library ∈ done, known library) (hlib : known library)
    (hread : (world.libraryFingerprint library).isSome = true) :
    Collected fold seen world (done ++ [library]) (s.addLibrary fold w world.toFiles cached library).fingerprints
      (s.addLibrary fold w world.toFiles cached library).dirs := by
  obtain ⟨live, hlive⟩ := Option.isSome_iff_exists.mp hread
  by_cases hmem : library ∈ s.fingerprints
  · have hsame : s.addLibrary fold w world.toFiles cached library = s := by
      rw [addLibrary]
      split
      · exact if_pos hmem
      · exact if_pos hmem
    rw [hsame]
    exact h.keep fun _ _ => h.mem_of_mem_marks hmem
  · have hnew : library ∉ done := fun hdone => hmem (h.mem_marks hdone hlive)
    rw [addLibrary]
    split
    next dirs hdirs =>
        obtain ⟨entry, hprint, hentry, rfl⟩ := cachedDirs_eq_some hdirs
        obtain rfl : live = entry.fingerprint := Option.some.inj (hlive.symm.trans hprint)
        rw [if_neg hmem, hlive]
        refine h.add hapart hknown hlib hnew hlive (.inl fun key => ?_)
        have hheld : held fold seen library entry.fingerprint = world.scanOf fold library :=
          hmarked.contents_eq hseen hlive
        rw [Table.lookup_adopt, hheld, hcached world library entry hseen hlib hentry hlive]
    next =>
        rw [if_neg hmem, scanLibrary]
        dsimp only
        rw [hlive]
        exact h.scan hapart hknown hmarked hseen hlib hnew hlive

theorem collected_addLibraries (h : Collected fold seen world done s.fingerprints s.dirs)
    (hknown : ∀ library ∈ done ++ libs, known library)
    (hread : ∀ library ∈ libs, (world.libraryFingerprint library).isSome = true) :
    Collected fold seen world (done ++ libs)
      (libs.foldl (fun s library => s.addLibrary fold w world.toFiles cached library) s).fingerprints
      (libs.foldl (fun s library => s.addLibrary fold w world.toFiles cached library) s).dirs := by
  induction libs generalizing done s with
  | nil =>
      rw [List.append_nil]
      exact h
  | cons library libs ih =>
      rw [List.append_cons] at hknown ⊢
      rw [List.foldl_cons]
      refine ih (collected_addLibrary hapart hmarked hseen hcached h (fun lib hmem => ?_) ?_ ?_) hknown
        fun lib hmem => ?_
      · exact hknown lib (by simp [hmem])
      · exact hknown library (by simp)
      · exact hread library List.mem_cons_self
      · exact hread lib (List.mem_cons_of_mem library hmem)

theorem collected_addRoots {roots : List Path} (h : Collected fold seen world done s.fingerprints s.dirs)
    (hknown : ∀ library ∈ done, known library) (hroots : world.Resolves known w roots) :
    Collected fold seen world (done ++ world.resolved w roots)
      (roots.foldl (fun s root => s.addRoot fold w world.toFiles cached root) s).fingerprints
      (roots.foldl (fun s root => s.addRoot fold w world.toFiles cached root) s).dirs := by
  induction roots generalizing done s with
  | nil =>
      rw [World.resolved, List.flatMap_nil, List.append_nil]
      exact h
  | cons root roots ih =>
      have hsplit : world.resolved w (root :: roots) = (world.rootLibraries w root).1 ++ world.resolved w roots :=
        List.flatMap_cons
      have hall : ∀ library ∈ done ++ (world.rootLibraries w root).1, known library := by
        intro library hmem
        rcases List.mem_append.mp hmem with hmem | hmem
        · exact hknown library hmem
        · exact (hroots library (hsplit ▸ List.mem_append_left _ hmem)).1
      rw [hsplit, ← List.append_assoc, List.foldl_cons]
      refine ih ?_ hall fun library hmem => hroots library (hsplit ▸ List.mem_append_right _ hmem)
      obtain ⟨watched, mtimes, hwatch⟩ := s.watchRoot_eq world.toFiles (world.rootLibraries w root).2
      rw [addRoot]
      dsimp only
      rw [hwatch]
      refine collected_addLibraries hapart hmarked hseen hcached h hall fun library hmem => ?_
      exact (hroots library (hsplit ▸ List.mem_append_left _ hmem)).2

theorem collected_discover (hroots : world.Resolves known w world.collectRoots) :
    Collected fold seen world (world.resolved w world.collectRoots) (discover fold w world cached).fingerprints
      (discover fold w world cached).dirs := by
  have hnone : ∀ library ∈ ([] : List Path), known library := fun _ hmem => by cases hmem
  exact collected_addRoots (s := { roots := world.collectRoots, exclusive := world.customRoot.isSome }) hapart
    hmarked hseen hcached .empty hnone hroots

end Discover

end SteamLibraries

end RichPresence.Steam
