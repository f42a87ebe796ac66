import RichPresence.Lib.Parts
import RichPresence.Steam.Compatdata
import RichPresence.Steam.Libraries

namespace RichPresence.Steam

open Lib

variable {fold : CaseFold} {files : Files} {library name key : Path} {appid : String}

def Files.scanOf (files : Files) (fold : CaseFold) (library key : Path) : Option String :=
  (files.scanLibraryInto fold library ∅).lookup key

theorem lookup_scanLibraryInto_scanOf (library : Path) (dirs : Dirs) (key : Path) :
    (files.scanLibraryInto fold library dirs).lookup key = (dirs.lookup key).or (files.scanOf fold library key) := by
  rw [Files.scanOf, Files.lookup_scanLibraryInto, Files.lookup_scanLibraryInto, AList.lookup_empty, Option.none_or]

/-- Libraries that can share a map: none is spelled with a separator at its end, and the
prefix of none starts the prefix of another. -/
structure KeptApart (fold : CaseFold) (known : Path → Prop) : Prop where
  ends_open : ∀ library, known library → (library.map slash).getLast? ≠ some '/'
  apart : ∀ a b, known a → known b → libraryPrefix fold a <+: libraryPrefix fold b → a = b

theorem libraryPrefix_eq_appsKey (h : (library.map slash).getLast? ≠ some '/') :
    libraryPrefix fold library = appsKey fold library := by
  rw [libraryPrefix_eq, closed, if_neg h, appsKey, List.append_assoc]
  rfl

theorem stringAt_ne_empty {m : VdfMap} {k s : String} (h : stringAt m k = some s) : s ≠ "" := by
  rw [stringAt] at h
  split at h
  next text _ =>
      dsimp only at h
      split at h
      next => cases h
      next hne =>
          obtain rfl := Option.some.inj h
          intro heq
          have hnil : trim text.toList = [] := by
            rw [← String.toList_ofList (l := trim text.toList), heq, String.toList_empty]
          exact hne (List.isEmpty_iff.mpr hnil)
  next => cases h

theorem manifestIds_ne_empty {doc : VdfMap} {installdir : String} (h : manifestIds doc = some (appid, installdir)) :
    appid ≠ "" := by
  rw [manifestIds] at h
  split at h
  next state _ =>
      split at h
      next id dir hid _ =>
          obtain ⟨rfl, -⟩ := Prod.mk.inj (Option.some.inj h)
          exact stringAt_ne_empty hid
      next => cases h
  next => cases h

theorem entryDir_spec (h : files.entryDir fold library name = some (key, appid)) :
    appsKey fold library <+: key ∧ (name ≠ [] → appid ≠ "") := by
  rw [Files.entryDir] at h
  split at h
  next hpfx =>
      obtain ⟨rfl, rfl⟩ := Prod.mk.inj (Option.some.inj h)
      refine ⟨?_, fun hne heq => hne ?_⟩
      · change _ <+: compatKey fold library name
        rw [compatKey_eq fold library ((Bool.and_eq_true _ _).mp hpfx).1]
        exact List.prefix_append _ _
      · rw [← String.toList_ofList (l := name), heq, String.toList_empty]
  next =>
      split at h
      next => cases h
      next =>
          obtain ⟨body, -, hids⟩ := Option.bind_eq_some_iff.mp h
          obtain ⟨⟨id, installdir⟩, hmanifest, hpair⟩ := Option.bind_eq_some_iff.mp hids
          obtain ⟨rfl, rfl⟩ := Prod.mk.inj (Option.some.inj hpair)
          refine ⟨(List.prefix_append _ _).trans (commonPrefix_appsKey fold library installdir.toList), fun _ => ?_⟩
          exact manifestIds_ne_empty hmanifest

theorem scanOf_spec {world : World} (h : world.scanOf fold library key = some appid) :
    appsKey fold library <+: key ∧ appid ≠ "" := by
  obtain ⟨name, hname, hentry⟩ := mem_scanned_of_lookup h
  obtain ⟨hstarts, hne⟩ := entryDir_spec hentry
  refine ⟨hstarts, hne ?_⟩
  rintro rfl
  obtain ⟨names, hnames, hmem⟩ : ∃ names, world.names (library.join steamapps) = some names ∧ [] ∈ names := by
    have hin := List.mem_of_mem_take hname
    cases hnames : world.names (library.join steamapps) with
    | none =>
        rw [hnames] at hin
        cases hin
    | some names =>
        rw [hnames] at hin
        exact ⟨names, rfl, hin⟩
  obtain ⟨entries, hentries, rfl⟩ := Option.map_eq_some_iff.mp hnames
  obtain ⟨entry, hentry, heq⟩ := List.mem_filterMap.mp hmem
  exact world.named _ entries hentries (heq ▸ hentry)

/-- What a library holds at a fingerprint, as far as it has been seen. -/
noncomputable abbrev held (fold : CaseFold) (seen : World → Prop) : Path → Fingerprint → Path → Option String :=
  contents seen (fun world library => world.libraryFingerprint library) fun world library => world.scanOf fold library

theorem KeptApart.tells {known : Path → Prop} (h : KeptApart fold known) (seen : World → Prop) :
    Tells (libraryOwnsPrefix fold) (held fold seen) known where
  owns_self := by
    intro library f key appid hknown hheld
    obtain ⟨world, -, hscan⟩ := scan_of_contents hheld
    rw [libraryOwnsPrefix, libraryPrefix_eq_appsKey (h.ends_open library hknown), List.isPrefixOf_iff_prefix]
    exact (scanOf_spec hscan).1
  eq_of_owns := by
    intro library other f key appid hknown hother hheld howns
    obtain ⟨world, -, hscan⟩ := scan_of_contents hheld
    have hstarts : libraryPrefix fold library <+: key := by
      rw [libraryPrefix_eq_appsKey (h.ends_open library hknown)]
      exact (scanOf_spec hscan).1
    rw [libraryOwnsPrefix, List.isPrefixOf_iff_prefix] at howns
    rcases List.prefix_or_prefix_of_prefix howns hstarts with hpre | hpre
    · exact h.apart other library hother hknown hpre
    · exact (h.apart library other hknown hother hpre).symm

end RichPresence.Steam
