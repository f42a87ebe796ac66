import RichPresence.Detect.Probing

namespace RichPresence.Detect.Host

open Lib

section Soundness

variable {host : Host} {platform : Platform} {list custom : List ScannedEntry} {process : Exec}

/-- Some executable of the entry that is no launcher names a string probed for
the process. -/
def Corroborated (host : Host) (process : Exec) (obj : ScannedEntry) : Prop :=
  ∃ s ∈ host.probedStrings process, ∃ exe ∈ obj.executables, exe.isLauncher = false ∧ Names exe.name.toList s

theorem corroborated_of_takeHit {path : Path} {proton : Bool} {obj : ScannedEntry} {exeIndex : Nat}
    (hpath : ∀ s ∈ pathVariants path, s ∈ host.probedStrings process)
    (h : (host.probeVariants (buildBundle platform list custom) path proton).takeHit = some (obj, exeIndex)) :
    host.Corroborated process obj := by
  obtain ⟨automaton, -, variant, hvariant, hmem, hnamed⟩ := host.named_of_takeHit _ h
  obtain ⟨exe, hidx, -⟩ := (host.mem_probeOf platform list custom).mp hmem
  rw [namedBy, hidx.executable] at hnamed
  exact ⟨variant, hpath variant hvariant, exe, List.mem_of_getElem? hidx.executable, hidx.noLauncher,
    names_of_exeNamesPath hnamed⟩

theorem path_probed : ∀ s ∈ pathVariants process.processPath, s ∈ host.probedStrings process :=
  fun _ hs => List.mem_append_left _ hs

theorem candidate_probed {candidate : Path} (h : host.candidatePath process = some candidate) :
    ∀ s ∈ pathVariants candidate, s ∈ host.probedStrings process := by
  intro s hs
  rw [probedStrings, h]
  exact List.mem_append_right _ hs

theorem directProbe_spec (host : Host) (platform : Platform) (list custom : List ScannedEntry) (process : Exec) :
    let direct := host.directProbe (buildBundle platform list custom) process.pid process.processPath
    (∀ obj exeIndex, direct.found.takeHit = some (obj, exeIndex) → host.Corroborated process obj) ∧
      ∀ candidate, direct.joined = some candidate → host.candidatePath process = some candidate := by
  intro direct
  by_cases hfound : (host.probeVariants (buildBundle platform list custom) process.processPath false).takeHit = none
  · cases hcandidate : host.candidatePath process with
    | some candidate =>
        simp only [direct, directProbe_joined hfound hcandidate]
        split
        · exact ⟨fun _ _ h => corroborated_of_takeHit (candidate_probed hcandidate) h, nofun⟩
        · exact ⟨fun _ _ h => corroborated_of_takeHit (candidate_probed hcandidate) h, fun _ h => h⟩
    | none =>
        simp only [direct, directProbe_plain (.inr hcandidate)]
        exact ⟨fun _ _ h => corroborated_of_takeHit path_probed h, nofun⟩
  · simp only [direct, directProbe_plain (.inl hfound)]
    exact ⟨fun _ _ h => corroborated_of_takeHit path_probed h, nofun⟩

theorem entry_of_liveOrNone {obj : ScannedEntry} {pid : Nat} {source : DetectSource} {hit : ScannedHit}
    (h : host.liveOrNone obj pid source = some hit) : hit.entry = obj ∧ hit.source = source := by
  rw [liveOrNone] at h
  split at h
  · cases h
  · obtain rfl := Option.some.inj h
    exact ⟨rfl, rfl⟩

theorem entry_of_finishDirectHit {obj : ScannedEntry} {exeIndex : Nat} {source : DetectSource} {hit : ScannedHit}
    (h : host.finishDirectHit obj exeIndex process source = some hit) : hit.entry = obj ∧ hit.source = source := by
  obtain ⟨exe, -, h⟩ := Option.bind_eq_some_iff.mp h
  split at h
  · exact entry_of_liveOrNone h
  · cases h

theorem corroborated_of_argv {obj : ScannedEntry}
    (h : argvNamesAnExecutable (lower process.processPath) obj = true) (hexes : obj.executables ≠ []) :
    host.Corroborated process obj := by
  rw [argvNamesAnExecutable, Bool.or_eq_true, List.isEmpty_iff] at h
  obtain ⟨exe, hexe, hnames⟩ := List.any_eq_true.mp (h.resolve_left hexes)
  obtain ⟨hmem, hlauncher⟩ := List.mem_filter.mp hexe
  obtain ⟨stripped, hvariants⟩ := pathVariants_cons process.processPath
  refine ⟨process.processPath, path_probed _ ?_, exe, hmem, by simpa using hlauncher, ?_⟩
  · rw [hvariants]
    exact List.mem_cons_self
  · exact (names_of_exeNamesPath hnames).of_lower

theorem corroborated_of_storeHit {bundle : DetectablesBundle} {source : DetectSource} {appId : Option String}
    {hit : ScannedHit} (h : host.storeHit bundle process source appId = some hit)
    (hexes : hit.entry.executables ≠ []) : host.Corroborated process hit.entry := by
  obtain ⟨appId, -, h⟩ := Option.bind_eq_some_iff.mp h
  cases hindex : bundle.steamMap.get appId with
  | some index =>
      rw [hindex] at h
      obtain ⟨obj, -, h⟩ := Option.bind_eq_some_iff.mp h
      split at h
      next hargv =>
          obtain ⟨rfl, -⟩ := entry_of_liveOrNone h
          exact corroborated_of_argv hargv hexes
      next => cases h
  | none =>
      rw [hindex] at h
      obtain ⟨obj, hfind, h⟩ := Option.bind_eq_some_iff.mp h
      obtain ⟨rfl, -⟩ := entry_of_liveOrNone h
      have hfound := List.find?_some hfind
      rw [Bool.and_eq_true] at hfound
      exact corroborated_of_argv hfound.2 hexes

theorem source_of_storeHit {bundle : DetectablesBundle} {source : DetectSource} {appId : Option String}
    {hit : ScannedHit} (h : host.storeHit bundle process source appId = some hit) : hit.source = source := by
  obtain ⟨appId, -, h⟩ := Option.bind_eq_some_iff.mp h
  cases hindex : bundle.steamMap.get appId with
  | some index =>
      rw [hindex] at h
      obtain ⟨obj, -, h⟩ := Option.bind_eq_some_iff.mp h
      split at h
      · exact (entry_of_liveOrNone h).2
      · cases h
  | none =>
      rw [hindex] at h
      obtain ⟨obj, -, h⟩ := Option.bind_eq_some_iff.mp h
      exact (entry_of_liveOrNone h).2

theorem source_of_nameHit {bundle : DetectablesBundle} {hit : ScannedHit}
    (h : host.nameHit bundle process = some hit) : hit.source = .exeStem ∨ hit.source = .folder := by
  rw [nameHit, matchNameOrFolder] at h
  dsimp only at h
  split at h
  · exact .inl (entry_of_liveOrNone h).2
  · obtain ⟨obj, -, h⟩ := Option.bind_eq_some_iff.mp h
    exact .inr (entry_of_liveOrNone h).2

def Evident (hit : ScannedHit) : Prop :=
  hit.source ∈ [.automaton, .cwdJoined, .protonAutomaton, .steamAppId, .steamLibrary]

theorem not_evident_of_nameHit {bundle : DetectablesBundle} {hit : ScannedHit}
    (h : host.nameHit bundle process = some hit) : ¬Evident hit := by
  rw [Evident]
  rcases source_of_nameHit h with hs | hs <;> simp [hs]

theorem lastTiers_sound {bundle : DetectablesBundle} {hit : ScannedHit}
    (h : host.lastTiers bundle process = some hit) (hsource : Evident hit) (hexes : hit.entry.executables ≠ []) :
    host.Corroborated process hit.entry := by
  rw [lastTiers] at h
  split at h
  next hstore =>
      obtain rfl := Option.some.inj h
      exact corroborated_of_storeHit hstore hexes
  next =>
      split at h
      · cases h
      · exact absurd hsource (not_evident_of_nameHit h)

theorem protonTier_sound {refused : Bool} {joined : Option Path} {hit : ScannedHit}
    (hjoined : ∀ candidate, joined = some candidate → host.candidatePath process = some candidate)
    (h : host.protonTier (buildBundle platform list custom) process refused joined = some hit)
    (hsource : Evident hit) (hexes : hit.entry.executables ≠ []) : host.Corroborated process hit.entry := by
  rw [protonTier] at h
  split at h
  next obj exeIndex hproton =>
      obtain ⟨rfl, -⟩ := entry_of_finishDirectHit h
      cases joined with
      | none => exact corroborated_of_takeHit path_probed hproton
      | some candidate => exact corroborated_of_takeHit (candidate_probed (hjoined candidate rfl)) hproton
  next =>
      split at h
      · cases h
      · exact lastTiers_sound h hsource hexes

theorem tailTiers_sound {refused : Bool} {joined : Option Path} {hit : ScannedHit}
    (hjoined : ∀ candidate, joined = some candidate → host.candidatePath process = some candidate)
    (h : host.tailTiers (buildBundle platform list custom) process refused joined = some hit)
    (hsource : Evident hit) (hexes : hit.entry.executables ≠ []) : host.Corroborated process hit.entry := by
  rw [tailTiers] at h
  split at h
  next hstore =>
      obtain rfl := Option.some.inj h
      exact corroborated_of_storeHit hstore hexes
  next =>
      split at h
      next hname =>
          obtain rfl := Option.some.inj h
          split at hname
          · cases hname
          · split at hname
            · exact absurd hsource (not_evident_of_nameHit hname)
            · cases hname
      next => exact protonTier_sound hjoined h hsource hexes

/-- A hit that does not rest on a name alone is for an entry that declares no
executables, or one of its executables names a string probed. -/
theorem detection_sound (host : Host) (platform : Platform) (list custom : List ScannedEntry) (process : Exec)
    (obsOpen : Bool) {hit : ScannedHit}
    (h : (host.matchProcess (buildBundle platform list custom) process obsOpen).1 = some hit)
    (hsource : hit.source ∈ [.automaton, .cwdJoined, .protonAutomaton, .steamAppId, .steamLibrary])
    (hexes : hit.entry.executables ≠ []) :
    ∃ s ∈ host.probedStrings process, ∃ exe ∈ hit.entry.executables,
      exe.isLauncher = false ∧ Names exe.name.toList s := by
  rw [matchProcess] at h
  split at h
  · cases h
  · obtain ⟨hdirect, hjoined⟩ := host.directProbe_spec platform list custom process
    change host.classify _ process = some hit at h
    rw [classify] at h
    split at h
    next obj exeIndex hfound =>
        obtain ⟨rfl, -⟩ := entry_of_finishDirectHit h
        exact hdirect _ _ hfound
    next => exact tailTiers_sound hjoined h hsource hexes

def portalTwo : ScannedEntry where
  id := ⟨"620"⟩
  name := "Portal 2"
  executables := [{ name := "portal2.exe", os := .win32 }, { name := "portal 2/portal2_linux", os := .linux }]

theorem portal_hit_sound :
    ∃ s ∈ bare.probedStrings ⟨77, "/opt/Portal 2/Portal2_linux", none⟩, ∃ exe ∈ portalTwo.executables,
      exe.isLauncher = false ∧ Names exe.name.toList s := by
  have hhit : (bare.matchProcess (buildBundle .linux [portalTwo] []) ⟨77, "/opt/Portal 2/Portal2_linux", none⟩
      false).1 = some ⟨portalTwo, 77, 1763199000000, .automaton⟩ := by decide +kernel
  exact detection_sound bare .linux [portalTwo] [] _ false hhit (by decide) (by decide)

end Soundness

section Unnamed

variable (host : Host) (platform : Platform) (list custom : List ScannedEntry) (process : Exec)

/-- The strings that an automaton is probed with when none before it answers. -/
def stringsOf : Automaton → List Path
  | .main | .custom => host.probedStrings process
  | .proton => pathVariants ((host.candidatePath process).getD process.processPath)

section Patterns

variable (automaton : Automaton) (s : Path)

def Seen : Prop :=
  ∃ obj exeIndex exe, Indexed (automaton.eligible platform) (automaton.entries list custom) obj exeIndex exe ∧
    Occurs Char.toLower (normalizeExePattern exe.name.toList) s.reverse

def Named : Prop :=
  ∃ obj exeIndex exe, Indexed (automaton.eligible platform) (automaton.entries list custom) obj exeIndex exe ∧
    exeNamesPath s exe.name.toList = true

variable {platform list custom automaton s}

theorem probeOf_ne_nil_iff :
    host.probeOf (buildBundle platform list custom) automaton s ≠ [] ↔ Seen platform list custom automaton s := by
  simp only [ne_eq, List.eq_nil_iff_forall_not_mem, not_forall, not_not, host.mem_probeOf, Prod.exists, Seen]

theorem namedBy_of_not_named (h : ¬Named platform list custom automaton s) {candidate : ScannedEntry × Nat}
    (hmem : candidate ∈ host.probeOf (buildBundle platform list custom) automaton s) :
    namedBy s candidate = false := by
  obtain ⟨exe, hidx, -⟩ := (host.mem_probeOf platform list custom).mp hmem
  rw [namedBy, hidx.executable, Option.any_some, Bool.eq_false_iff]
  exact fun hnames => h ⟨candidate.1, candidate.2, exe, hidx, hnames⟩

theorem not_named_of_forall
    (h : ∀ obj ∈ list ++ custom, ∀ exe ∈ obj.executables, exeNamesPath s exe.name.toList = false) :
    ¬Named platform list custom automaton s := by
  rintro ⟨obj, exeIndex, exe, hidx, hnames⟩
  have hobj : obj ∈ list ++ custom := by
    have hentry := hidx.entry
    cases automaton with
    | main => exact List.mem_append_left custom hentry
    | custom => exact List.mem_append_right list hentry
    | proton => exact List.mem_append_left custom hentry
  rw [h obj hobj exe (List.mem_of_getElem? hidx.executable)] at hnames
  cases hnames

end Patterns

section Walks

variable {host platform list custom process}

theorem walk_unnamed (path : Path) (proton : Bool)
    (hnamed : ∀ automaton, ∀ s ∈ host.probedStrings process, ¬Named platform list custom automaton s)
    (hpath : ∀ s ∈ pathVariants path, s ∈ host.probedStrings process) :
    (host.probeVariants (buildBundle platform list custom) path proton).takeHit = none ∧
      ((host.probeVariants (buildBundle platform list custom) path proton).isRefused = true ↔
        ∃ automaton ∈ Automaton.passes proton, ∃ s ∈ pathVariants path, Seen platform list custom automaton s) := by
  have h := host.probeVariants_unnamed (buildBundle platform list custom) path proton
    fun automaton _ s hs _ hmem => host.namedBy_of_not_named (hnamed automaton s (hpath s hs)) hmem
  simpa only [host.probeOf_ne_nil_iff] using h

theorem directProbe_unnamed
    (hnamed : ∀ automaton, ∀ s ∈ host.probedStrings process, ¬Named platform list custom automaton s) :
    let direct := host.directProbe (buildBundle platform list custom) process.pid process.processPath
    direct.found.takeHit = none ∧ direct.joined = host.candidatePath process ∧
      (direct.refused = true ↔ ∃ automaton ∈ Automaton.passes false, ∃ s ∈ host.probedStrings process,
        Seen platform list custom automaton s) := by
  intro direct
  obtain ⟨hhit, hrefused⟩ := walk_unnamed process.processPath false hnamed path_probed
  cases hcandidate : host.candidatePath process with
  | none =>
      have hstrings : host.probedStrings process = pathVariants process.processPath := by
        rw [probedStrings, hcandidate]
        exact List.append_nil _
      simp only [direct, directProbe_plain (.inr hcandidate)]
      exact ⟨hhit, trivial, hrefused.trans (by rw [hstrings])⟩
  | some candidate =>
      obtain ⟨hhit', hrefused'⟩ := walk_unnamed candidate false hnamed (candidate_probed hcandidate)
      have hstrings : host.probedStrings process =
          pathVariants process.processPath ++ pathVariants candidate := by rw [probedStrings, hcandidate]; rfl
      simp only [direct, directProbe_joined hhit hcandidate, hhit', Option.isSome_none, Bool.false_eq_true, if_false]
      refine ⟨trivial, trivial, ?_⟩
      rw [Bool.or_eq_true, hrefused, hrefused', hstrings]
      simp only [List.mem_append, or_and_right, exists_or, and_or_left]

theorem proton_unnamed
    (hnamed : ∀ automaton, ∀ s ∈ host.probedStrings process, ¬Named platform list custom automaton s) :
    let proton := host.probeVariants (buildBundle platform list custom)
      ((host.candidatePath process).getD process.processPath) true
    proton.takeHit = none ∧ (proton.isRefused = true ↔
      ∃ s ∈ host.stringsOf process .proton, Seen platform list custom .proton s) := by
  intro proton
  have hprobed : ∀ s ∈ pathVariants ((host.candidatePath process).getD process.processPath),
      s ∈ host.probedStrings process := by
    cases hcandidate : host.candidatePath process with
    | none => exact path_probed
    | some candidate => exact candidate_probed hcandidate
  obtain ⟨hhit, hrefused⟩ := walk_unnamed _ true hnamed hprobed
  refine ⟨hhit, hrefused.trans ?_⟩
  simp only [Automaton.passes, if_true, List.mem_singleton, exists_eq_left, stringsOf]

end Walks

end Unnamed

end RichPresence.Detect.Host
