import RichPresence.Detect.Unnamed

namespace RichPresence.Detect.Host

open Lib

variable (host : Host) (platform : Platform) (list custom : List ScannedEntry) (process : Exec)

section Titles

variable (bundle : DetectablesBundle) (path : Path)

/-- The entry that has the name of a folder for its title. -/
def folderEntry (folder : Path) : Option ScannedEntry :=
  if folder.contains '.' then lookupName bundle bundle.nameMapNodot (normalizeLoweredDedotted folder)
  else lookupName bundle bundle.nameMap (normalizeLowered folder)

/-- A title stands in the path: as the stem of the executable or else as one of
its folders. -/
def Titled : DetectSource → Prop
  | .exeStem => (lookupName bundle bundle.nameMap (exeStem path)).isSome = true
  | .folder => lookupName bundle bundle.nameMap (exeStem path) = none ∧
      ∃ folder ∈ (components path).reverse.drop 1, (folderEntry bundle folder).isSome = true
  | _ => False

variable {host bundle path process}

theorem isSome_liveOrNone {obj : ScannedEntry} {pid : Nat} {source : DetectSource} :
    (host.liveOrNone obj pid source).isSome = true ↔ host.isSuspended pid source = false := by
  rw [liveOrNone]
  split <;> simp_all

theorem isSome_folders_iff (folders : List Path) :
    ((folders.findSome? fun folder =>
        if folder.contains '.' then none else lookupName bundle bundle.nameMap (normalizeLowered folder)).or
      (folders.findSome? fun folder =>
        if folder.contains '.' then lookupName bundle bundle.nameMapNodot (normalizeLoweredDedotted folder)
        else none)).isSome = true ↔
      ∃ folder ∈ folders, (folderEntry bundle folder).isSome = true := by
  simp only [Option.isSome_or, Bool.or_eq_true, List.findSome?_isSome_iff, ← exists_or, ← and_or_left]
  refine exists_congr fun folder => and_congr_right fun _ => ?_
  rw [folderEntry]
  split <;> simp

theorem isSome_nameHit_iff :
    (host.nameHit bundle process).isSome = true ↔
      ∃ source, Titled bundle (lower process.processPath) source ∧ host.isSuspended process.pid source = false := by
  rw [nameHit, matchNameOrFolder]
  cases hstem : lookupName bundle bundle.nameMap (exeStem (lower process.processPath)) with
  | some obj =>
      refine isSome_liveOrNone.trans ⟨fun h => ⟨.exeStem, by simp [Titled, hstem], h⟩, ?_⟩
      rintro ⟨source, htitled, hlive⟩
      cases source <;> simp_all [Titled]
  | none =>
      have hlive (found : Option ScannedEntry) :
          (found.bind fun obj => host.liveOrNone obj process.pid .folder).isSome = true ↔
            found.isSome = true ∧ host.isSuspended process.pid .folder = false := by
        cases found with
        | none => simp
        | some obj => simpa using isSome_liveOrNone
      dsimp only
      rw [hlive, isSome_folders_iff]
      constructor
      · rintro ⟨hfolder, hawake⟩
        exact ⟨.folder, ⟨hstem, hfolder⟩, hawake⟩
      · rintro ⟨source, htitled, hawake⟩
        cases source with
        | exeStem => exact absurd htitled (by simp [Titled, hstem])
        | folder => exact ⟨htitled.2, hawake⟩
        | _ => exact htitled.elim

end Titles

/-- The name is asked before the Proton automaton and answers: the id is in the
range of the shortcuts and not in the store, and neither the main nor the custom
automaton has seen a pattern. -/
structure GuessesFirst : Prop where
  classified : host.skips process = false
  unseen : ∀ automaton ∈ [Automaton.main, .custom], ∀ s ∈ host.stringsOf process automaton,
    ¬Seen platform list custom automaton s
  shortcut : host.nonSteam process = true
  noStore : host.storeHit (buildBundle platform list custom) process .steamAppId
    ((host.appId process).map AppId.text) = none
  titled : ∃ source, Titled (buildBundle platform list custom) (lower process.processPath) source ∧
    host.isSuspended process.pid source = false

variable {host platform list custom process}

section Refused

variable (hseen : ∃ automaton, ∃ s ∈ host.stringsOf process automaton, Seen platform list custom automaton s)
  (hnamed : ∀ automaton, ∀ s ∈ host.probedStrings process, ¬Named platform list custom automaton s)

include hseen hnamed

theorem classify_refused :
    ∃ refused : Bool, (refused = true ↔ ∃ automaton ∈ [Automaton.main, .custom],
        ∃ s ∈ host.stringsOf process automaton, Seen platform list custom automaton s) ∧
      host.classify (buildBundle platform list custom) process =
        (host.storeHit (buildBundle platform list custom) process .steamAppId
          ((host.appId process).map AppId.text)).or
        (if refused then none else if host.nonSteam process then
          host.nameHit (buildBundle platform list custom) process else none) := by
  obtain ⟨hdirect, hjoined, hrefused⟩ := directProbe_unnamed hnamed
  obtain ⟨hproton, hprefused⟩ := proton_unnamed hnamed
  have hmain : (host.directProbe (buildBundle platform list custom) process.pid process.processPath).refused = true ↔
      ∃ automaton ∈ [Automaton.main, .custom], ∃ s ∈ host.stringsOf process automaton,
        Seen platform list custom automaton s := by
    rw [hrefused]
    simp [Automaton.passes, stringsOf]
  refine ⟨_, hmain, ?_⟩
  have htier : host.protonTier (buildBundle platform list custom) process
      (host.directProbe (buildBundle platform list custom) process.pid process.processPath).refused
      (host.candidatePath process) = none := by
    have hsome : ((host.directProbe (buildBundle platform list custom) process.pid process.processPath).refused ||
        (host.probeVariants (buildBundle platform list custom)
          ((host.candidatePath process).getD process.processPath) true).isRefused) = true := by
      rw [Bool.or_eq_true, hmain, hprefused]
      obtain ⟨automaton, hs⟩ := hseen
      cases automaton with
      | main => exact .inl ⟨.main, List.mem_cons_self, hs⟩
      | custom => exact .inl ⟨.custom, List.mem_cons_of_mem _ List.mem_cons_self, hs⟩
      | proton => exact .inr hs
    rw [protonTier]
    simp only [hproton, hsome, if_true]
  rw [classify]
  simp only [hdirect, hjoined, tailTiers_eq_or, htier, Option.or_none]

end Refused

/-- After a refusal, whichever automaton it comes from, neither a name nor a
library answers, unless the name is asked before that automaton. -/
theorem refusal_stands_down_iff (obsOpen : Bool)
    (hseen : ∃ automaton, ∃ s ∈ host.stringsOf process automaton, Seen platform list custom automaton s)
    (hnamed : ∀ automaton, ∀ s ∈ host.probedStrings process, ¬Named platform list custom automaton s) :
    (∀ hit, (host.matchProcess (buildBundle platform list custom) process obsOpen).1 = some hit →
      hit.source ∉ [.exeStem, .folder, .steamLibrary]) ↔
    ¬host.GuessesFirst platform list custom process := by
  obtain ⟨refused, hrefused, hclassify⟩ := classify_refused hseen hnamed
  by_cases hskips : host.skips process = true
  · rw [matchProcess, if_pos hskips]
    exact iff_of_true (by rintro _ ⟨⟩) fun h => absurd hskips (by simp [h.classified])
  · rw [matchProcess, if_neg hskips]
    change (∀ hit, host.classify _ process = some hit → _) ↔ _
    rw [hclassify]
    constructor
    · intro hquiet hguess
      have hfree : refused = false := by
        rw [Bool.eq_false_iff, ne_eq, hrefused]
        rintro ⟨automaton, ha, s, hs, hsees⟩
        exact hguess.unseen automaton ha s hs hsees
      obtain ⟨hit, hhit⟩ := Option.isSome_iff_exists.mp (isSome_nameHit_iff.mpr hguess.titled)
      have hsource := hquiet hit (by simp [hguess.noStore, hfree, hguess.shortcut, hhit])
      rcases source_of_nameHit hhit with hs | hs <;> simp [hs] at hsource
    · intro hguess hit hhit
      rcases Option.or_eq_some_iff.mp hhit with hstore | ⟨hnone, hname⟩
      · rw [source_of_storeHit hstore]
        decide
      · split at hname
        · cases hname
        next hfree =>
            split at hname
            next hshortcut =>
                have htitled := isSome_nameHit_iff.mp (Option.isSome_of_mem hname)
                refine absurd ⟨by simpa using hskips, ?_, hshortcut, hnone, htitled⟩ hguess
                intro automaton ha s hs hsees
                exact hfree (hrefused.mpr ⟨automaton, ha, s, hs, hsees⟩)
            next => cases hname

theorem portal_helper_stands_down :
    let process : Exec := ⟨78, "/opt/Portal 2/portal2_linux.d/helper", none⟩
    Seen .linux [portalTwo] [] .main process.processPath ∧
      ∀ hit, (bare.matchProcess (buildBundle .linux [portalTwo] []) process false).1 = some hit →
        hit.source ∉ [.exeStem, .folder, .steamLibrary] := by
  intro process
  have hseen : Seen .linux [portalTwo] [] .main process.processPath :=
    bare.probeOf_ne_nil_iff.mp (by decide +kernel)
  have hnamed : ∀ s ∈ bare.probedStrings process, ∀ obj ∈ [portalTwo] ++ [], ∀ exe ∈ obj.executables,
      exeNamesPath s exe.name.toList = false := by decide +kernel
  refine ⟨hseen, (refusal_stands_down_iff false ⟨.main, _, ?_, hseen⟩ ?_).mpr fun h => ?_⟩
  · decide +kernel
  · exact fun _ s hs => not_named_of_forall (hnamed s hs)
  · exact absurd h.shortcut (by decide +kernel)

def shortcut : Host := { bare with cachedAppId := fun _ => some ⟨"2532755798"⟩ }

/-- The executable is only known to the Proton automaton, and a shortcut is
guessed from its folder before that is asked. -/
theorem shortcut_text_guessed :
    let process : Exec := ⟨79, "/opt/Portal 2/portal2.exe.txt", none⟩
    (∃ s ∈ shortcut.stringsOf process .proton, Seen .linux [portalTwo] [] .proton s) ∧
      (∀ automaton, ∀ s ∈ shortcut.probedStrings process, ¬Named .linux [portalTwo] [] automaton s) ∧
      (shortcut.matchProcess (buildBundle .linux [portalTwo] []) process false).1 =
        some ⟨portalTwo, 79, 1763199000000, .folder⟩ := by
  intro process
  have hnamed : ∀ s ∈ shortcut.probedStrings process,
      ∀ obj ∈ [portalTwo] ++ [], ∀ exe ∈ obj.executables, exeNamesPath s exe.name.toList = false := by decide +kernel
  refine ⟨⟨process.processPath, ?_, shortcut.probeOf_ne_nil_iff.mp ?_⟩, ?_, ?_⟩
  · decide +kernel
  · decide +kernel
  · exact fun _ s hs => not_named_of_forall (hnamed s hs)
  · decide +kernel

end RichPresence.Detect.Host
