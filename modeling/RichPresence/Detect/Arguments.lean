import RichPresence.Detect.Probing

namespace RichPresence.Detect

open Lib

/-- The marker stands for the separator in front of a name. Behind it a name has
no separator of its own, or its pattern has two. -/
def wellMarked : Path → Bool
  | '>' :: name => !leadsWithSeparator name
  | _ => true

def withSeparator (name : Path) : Path :=
  if leadsWithSeparator name then name.map foldSeparator else '/' :: name.map foldSeparator

theorem foldSeparator_eq_slash_iff {c : Char} : foldSeparator c = '/' ↔ c = '/' ∨ c = '\\' := by
  rw [foldSeparator]
  split <;> simp_all

theorem foldSeparator_eq_marker {c : Char} (h : foldSeparator c = '>') : c = '>' := by
  rw [foldSeparator] at h
  split at h
  · cases h
  · exact h

theorem normalizeExePattern_eq {name : Path} (h : wellMarked name = true) :
    normalizeExePattern name = (withSeparator (stripMarker name)).reverse := by
  rw [normalizeExePattern]
  refine congrArg List.reverse ?_
  split
  next rest hfold =>
      obtain ⟨c, name, rfl, hc, rfl⟩ := List.map_eq_cons_iff.mp hfold
      obtain rfl := foldSeparator_eq_marker hc
      have hlead : leadsWithSeparator name = false := by simpa [wellMarked] using h
      simp [stripMarker, withSeparator, hlead]
  next rest hfold =>
      obtain ⟨c, name, rfl, hc, rfl⟩ := List.map_eq_cons_iff.mp hfold
      rcases foldSeparator_eq_slash_iff.mp hc with rfl | rfl <;> rfl
  next hmarker hslash =>
      have hstrip : stripMarker name = name := by
        simp only [stripMarker]
        split
        next rest => exact absurd rfl (hmarker (rest.map foldSeparator))
        next => rfl
      have hlead : leadsWithSeparator name = false := by
        cases name with
        | nil => rfl
        | cons c name =>
            simp only [leadsWithSeparator, Bool.or_eq_false_iff, decide_eq_false_iff_not, ← not_or,
              ← foldSeparator_eq_slash_iff]
            exact fun hc => hslash (name.map foldSeparator) (by rw [List.map_cons, hc])
      simp [hstrip, withSeparator, hlead]

theorem not_slash_of_agrees {c : Char} {part name : Path} (hlead : ¬leadsWithSeparator name = true)
    (hpart : lower (c :: part) = lower (name.map foldSeparator)) : c ≠ '/' := by
  rintro rfl
  cases name with
  | nil => cases hpart
  | cons d name =>
      simp only [lower, List.map_cons, List.cons.injEq] at hpart
      have hd : foldSeparator d = '/' := toLower_eq_slash_iff.mp (hpart.1.symm.trans (toLower_eq_slash_iff.mpr rfl))
      rcases foldSeparator_eq_slash_iff.mp hd with rfl | rfl <;> exact hlead rfl

theorem occurs_of_fronted {rest part after name : Path} (hslash : (rest ++ part ++ after).head? = some '/')
    (hname : name ≠ []) (hpart : agrees part name = true) (hrest : fronted rest name = true) :
    Occurs Char.toLower (withSeparator name) (rest ++ part ++ after) := by
  have hlen := length_of_agrees hpart
  rw [agrees_iff] at hpart
  rw [withSeparator]
  split
  next => exact ⟨part, ⟨rest, after, rfl⟩, hpart⟩
  next hlead =>
      have hfront : ∃ front, rest = front ++ ['/'] := by
        simp only [fronted, Bool.or_eq_true, List.isEmpty_iff, decide_eq_true_eq] at hrest
        rcases hrest.resolve_right hlead with rfl | hlast
        · -- at its start the path has a separator, which the name has not
          cases part with
          | nil => exact absurd (List.length_eq_zero_iff.mp hlen.symm) hname
          | cons c part => exact absurd (Option.some.inj hslash) (not_slash_of_agrees hlead hpart)
        · exact ⟨rest.dropLast, (List.dropLast_append_getLast? _ hlast).symm⟩
      obtain ⟨front, rfl⟩ := hfront
      refine ⟨'/' :: part, ⟨front, after, by simp⟩, ?_⟩
      rw [List.map_cons, List.map_cons]
      exact congrArg _ hpart

theorem occurs_of_exeNamesPath {path name : Path} (hslash : path.head? = some '/') (hmarked : wellMarked name = true)
    (h : exeNamesPath path name = true) : Occurs Char.toLower (normalizeExePattern name) path.reverse := by
  rw [normalizeExePattern_eq hmarked]
  obtain ⟨hname, ⟨rest, part, rfl, hpart, hrest⟩ | hbundle⟩ := exeNamesPath_iff.mp h
  · rw [← List.append_nil (rest ++ part)] at hslash ⊢
    exact (occurs_of_fronted hslash hname hpart hrest).reverse
  · obtain ⟨-, rest, part, after, rfl, hpart, hrest, -⟩ := namesABundle_iff.mp hbundle
    exact (occurs_of_fronted hslash hname hpart hrest).reverse

theorem head?_slashed (path : Path) : (slashed path).head? = some '/' := by
  rw [slashed]
  split <;> rfl

section Case

theorem take_lower (s : Path) (n : Nat) : (lower s).take n = lower (s.take n) := List.map_take.symm

theorem drop_lower (s : Path) (n : Nat) : (lower s).drop n = lower (s.drop n) := List.map_drop.symm

theorem length_lower (s : Path) : (lower s).length = s.length := List.length_map _

theorem agrees_lower (part name : Path) : agrees (lower part) name = agrees part name := by
  rw [agrees, agrees, lower_lower]

theorem fronted_lower (rest name : Path) : fronted (lower rest) name = fronted rest name := by
  have hlast : decide ((lower rest).getLast? = some '/') = decide (rest.getLast? = some '/') := by
    rw [decide_eq_decide, lower, List.getLast?_map, Option.map_eq_some_iff]
    constructor
    · rintro ⟨c, hc, hslash⟩
      rw [hc, toLower_eq_slash_iff.mp hslash]
    · exact fun h => ⟨'/', h, toLower_eq_slash_iff.mpr rfl⟩
  rw [fronted, fronted, hlast, lower, List.isEmpty_map]

theorem startsWithBundleInterior_lower (rest : Path) :
    startsWithBundleInterior (lower rest) = startsWithBundleInterior rest := by
  rw [startsWithBundleInterior, startsWithBundleInterior, take_lower, lower_lower, length_lower]

theorem namesABundle_lower (path name : Path) : namesABundle (lower path) name = namesABundle path name := by
  rw [namesABundle, namesABundle, length_lower]
  simp only [take_lower, drop_lower, agrees_lower, fronted_lower, startsWithBundleInterior_lower]

theorem exeNamesPath_lower (path name : Path) : exeNamesPath (lower path) name = exeNamesPath path name := by
  rw [exeNamesPath, exeNamesPath]
  simp only [length_lower, take_lower, drop_lower, agrees_lower, fronted_lower, namesABundle_lower]

end Case

/-- A name with a separator of its own behind the marker names a path in which
its pattern, which has both, does not occur. -/
theorem exists_unseen_of_not_wellMarked {name : Path} (h : wellMarked name = false) :
    ∃ path : Path, path.head? = some '/' ∧ exeNamesPath path name = true ∧
      ¬Occurs Char.toLower (normalizeExePattern name) path.reverse := by
  simp only [wellMarked] at h
  split at h
  next name =>
      cases name with
      | nil => cases h
      | cons c rest =>
          have hc : foldSeparator c = '/' := by
            rw [foldSeparator_eq_slash_iff]
            simpa [leadsWithSeparator, or_iff_not_imp_left] using h
          refine ⟨'/' :: rest.map foldSeparator, rfl, ?_, ?_⟩
          · refine exeNamesPath_iff.mpr ⟨List.cons_ne_nil _ _, .inl ⟨[], _, rfl, ?_, rfl⟩⟩
            rw [agrees_iff, stripMarker, List.map_cons, hc]
          · rintro ⟨window, hinfix, hfold⟩
            have hpattern : normalizeExePattern ('>' :: c :: rest) =
                ('/' :: '/' :: rest.map foldSeparator).reverse := by
              rw [normalizeExePattern, List.map_cons, List.map_cons, hc]
              rfl
            have hle := hinfix.length_le
            have hlen := congrArg List.length hfold
            simp only [hpattern, List.length_map, List.length_reverse, List.length_cons] at hle hlen
            omega
  next => cases h

/-- A name with a separator behind its marker apart, the automaton that indexes an
executable sees it wherever the naming rule does, and so confirms what the
store-id tier accepts. -/
theorem naming_rule_seen_iff (name : Path) :
    ((∀ path : Path, path.head? = some '/' → exeNamesPath path name = true →
        Occurs Char.toLower (normalizeExePattern name) path.reverse) ∧
      ∀ (host : Host) (platform : Platform) (list custom : List ScannedEntry) (process : Exec)
        (automaton : Automaton) (obj : ScannedEntry) (exeIndex : Nat) (exe : ScannedExe),
        Indexed (automaton.eligible platform) (automaton.entries list custom) obj exeIndex exe →
        exe.name.toList = name → exeNamesPath (lower process.processPath) name = true →
        (obj, exeIndex) ∈ host.probeOf (buildBundle platform list custom) automaton process.processPath ∧
          namedBy process.processPath (obj, exeIndex) = true) ↔
      wellMarked name = true := by
  constructor
  · intro h
    by_contra hmarked
    obtain ⟨path, hslash, hnames, hunseen⟩ :=
      exists_unseen_of_not_wellMarked (Bool.eq_false_iff.mpr hmarked)
    exact hunseen (h.1 path hslash hnames)
  · intro hmarked
    refine ⟨fun path hslash => occurs_of_exeNamesPath hslash hmarked, ?_⟩
    intro host platform list custom process automaton obj exeIndex exe hidx hname hlowered
    subst hname
    rw [exeNamesPath_lower] at hlowered
    refine ⟨(host.mem_probeOf platform list custom).mpr ⟨exe, hidx, ?_⟩, ?_⟩
    · exact occurs_of_exeNamesPath (head?_slashed _) hmarked hlowered
    · rw [namedBy, hidx.executable]
      exact hlowered

/-- The pattern of the name has two separators, the path one. -/
theorem marked_separator_unseen :
    exeNamesPath "/opt/run".toList ">/run".toList = true ∧
      normalizeExePattern ">/run".toList = "nur//".toList ∧
      ¬Occurs Char.toLower (normalizeExePattern ">/run".toList) "/opt/run".toList.reverse := by
  refine ⟨by decide +kernel, by decide +kernel, fun hocc => ?_⟩
  have hnone : (Matcher.naive Char.toLower).find [normalizeExePattern ">/run".toList] "/opt/run".toList.reverse =
      [] := by decide +kernel
  have hpattern : [normalizeExePattern ">/run".toList][0]? = some (normalizeExePattern ">/run".toList) := rfl
  obtain ⟨found, hfound, -⟩ := (Matcher.naive Char.toLower).exists_of_occurs hpattern hocc
  rw [hnone] at hfound
  cases hfound

namespace Host

variable {host : Host} {platform : Platform} {list custom : List ScannedEntry} {process : Exec}

/-- Of the matches of the main automaton that name the path, the first has its
arguments on the command line. -/
def FirstFits (host : Host) (bundle : DetectablesBundle) (process : Exec) : Prop :=
  ∃ obj exeIndex exe, (host.mainProbe bundle process.processPath).find? (namedBy process.processPath) =
    some (obj, exeIndex) ∧ obj.executables[exeIndex]? = some exe ∧ hasArguments process exe = true

theorem classify_of_first {bundle : DetectablesBundle} {obj : ScannedEntry} {exeIndex : Nat}
    (h : (host.mainProbe bundle process.processPath).find? (namedBy process.processPath) = some (obj, exeIndex)) :
    host.classify bundle process = host.finishDirectHit obj exeIndex process .automaton := by
  have hprobe : host.probeVariants bundle process.processPath false = .corroborated obj exeIndex := by
    obtain ⟨stripped, hvariants⟩ := pathVariants_cons process.processPath
    have hfirst : firstHitNamingPath (host.probeOf bundle .main process.processPath) process.processPath =
        .corroborated obj exeIndex := firstHit_corroborated_iff.mpr h
    rw [probeVariants_eq, hvariants]
    simp only [Automaton.passes, Bool.false_eq_true, if_false, List.flatMap_cons, List.map_cons, List.cons_append,
      hfirst, settle]
  have hhit : (host.probeVariants bundle process.processPath false).takeHit = some (obj, exeIndex) := by
    rw [hprobe]
    rfl
  rw [classify, directProbe_plain (.inl (by simp [hhit]))]
  simp only [hhit]

/-- Of the executables with one name that is running, the automaton settles on
the first, and no other is found unless that one has its arguments. -/
theorem detected_iff_firstFits (host : Host) (platform : Platform) (list custom : List ScannedEntry)
    (process : Exec) (obsOpen : Bool) {obj : ScannedEntry} {exeIndex : Nat} {exe : ScannedExe}
    (hskips : host.skips process = false) (hawake : ∀ source, host.isSuspended process.pid source = false)
    (hidx : Indexed (Automaton.main.eligible platform) list obj exeIndex exe)
    (hnames : exeNamesPath process.processPath exe.name.toList = true)
    (hmarked : wellMarked exe.name.toList = true) :
    (host.matchProcess (buildBundle platform list custom) process obsOpen).1.isSome = true ↔
      host.FirstFits (buildBundle platform list custom) process := by
  have hmem : (obj, exeIndex) ∈ host.probeOf (buildBundle platform list custom) .main process.processPath := by
    rw [mem_probeOf]
    exact ⟨exe, hidx, occurs_of_exeNamesPath (head?_slashed _) hmarked hnames⟩
  have hnamed : namedBy process.processPath (obj, exeIndex) = true := by
    rw [namedBy, hidx.executable]
    exact hnames
  have hfound := List.find?_isSome.mpr ⟨_, hmem, hnamed⟩
  obtain ⟨⟨first, firstIndex⟩, hfirst⟩ := Option.isSome_iff_exists.mp hfound
  rw [matchProcess, if_neg (by simp [hskips])]
  change (host.classify _ process).isSome = true ↔ _
  rw [classify_of_first hfirst, finishDirectHit]
  constructor
  · intro hsome
    obtain ⟨hit, hhit⟩ := Option.isSome_iff_exists.mp hsome
    obtain ⟨exe, hexe, hhit⟩ := Option.bind_eq_some_iff.mp hhit
    split at hhit
    next hargs => exact ⟨first, firstIndex, exe, hfirst, hexe, hargs⟩
    next => cases hhit
  · rintro ⟨obj, exeIndex, exe, hobj, hexe, hargs⟩
    obtain ⟨rfl, rfl⟩ := Prod.mk.inj (Option.some.inj (hfirst.symm.trans hobj))
    simp [hexe, hargs, liveOrNone, hawake]

def garrysMod : ScannedEntry where
  id := ⟨"4000"⟩
  name := "Garry's Mod"
  executables := [{ name := "hl2.exe", os := .win32, arguments := some "-game garrysmod" }]

def teamFortress : ScannedEntry where
  id := ⟨"440"⟩
  name := "Team Fortress 2"
  executables := [{ name := "hl2.exe", os := .win32, arguments := some "-game tf" }]

theorem first_listed_detected :
    (bare.matchProcess (buildBundle .windows [teamFortress, garrysMod] [])
      ⟨80, "C:/Steam/hl2.exe", some "hl2.exe -game tf"⟩ false).1.isSome = true := by
  have hidx : Indexed (Automaton.main.eligible .windows) [teamFortress, garrysMod] teamFortress 0
      { name := "hl2.exe", os := .win32, arguments := some "-game tf" } := by
    refine ⟨List.mem_cons_self, rfl, rfl, ?_, ?_⟩ <;> decide +kernel
  refine (detected_iff_firstFits bare .windows [teamFortress, garrysMod] [] _ false ?_ (fun _ => rfl) hidx
    ?_ ?_).mpr ⟨teamFortress, 0, _, ?_, rfl, ?_⟩ <;> decide +kernel

/-- The game that is running is listed second, and its arguments are never
looked at. -/
theorem second_listed_missed :
    let process : Exec := ⟨80, "C:/Steam/hl2.exe", some "hl2.exe -game tf"⟩
    bare.skips process = false ∧ (∀ source, bare.isSuspended process.pid source = false) ∧
      (∃ exe, Indexed (Automaton.main.eligible .windows) [garrysMod, teamFortress] teamFortress 0 exe ∧
        exeNamesPath process.processPath exe.name.toList = true ∧ hasArguments process exe = true) ∧
      bare.matchProcess (buildBundle .windows [garrysMod, teamFortress] []) process false = (none, false) := by
  refine ⟨?_, fun _ => rfl, ⟨_, ⟨List.mem_cons_of_mem _ List.mem_cons_self, rfl, ?_, ?_, ?_⟩, ?_, ?_⟩, ?_⟩ <;>
    decide +kernel

end Host

end RichPresence.Detect
