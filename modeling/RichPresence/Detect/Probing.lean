import RichPresence.Detect.MatchProcess

namespace RichPresence.Detect

open Lib

/-- An executable that has a pattern in an automaton. -/
structure Indexed (eligible : ScannedExe → Bool) (entries : List ScannedEntry) (obj : ScannedEntry) (exeIndex : Nat)
    (exe : ScannedExe) : Prop where
  entry : obj ∈ entries
  executable : obj.executables[exeIndex]? = some exe
  noLauncher : exe.isLauncher = false
  eligible : eligible exe = true
  pattern : normalizeExePattern exe.name.toList ≠ ['/']

theorem mem_collectPatterns {eligible : ScannedExe → Bool} {entries : List ScannedEntry} {pattern : Path}
    {index : PatternIndex} :
    (pattern, index) ∈ collectPatterns eligible entries ↔ ∃ obj exe, entries[index.1]? = some obj ∧
      Indexed eligible entries obj index.2 exe ∧ pattern = normalizeExePattern exe.name.toList := by
  constructor
  · intro h
    obtain ⟨⟨obj, i⟩, hobj, h⟩ := List.mem_flatMap.mp h
    obtain ⟨⟨exe, j⟩, hexe, h⟩ := List.mem_filterMap.mp h
    rw [List.mem_zipIdx_iff_getElem?] at hobj hexe
    dsimp only at h hobj hexe
    split at h
    · cases h
    next hkept =>
      obtain ⟨rfl, rfl⟩ := Prod.mk.inj (Option.some.inj h)
      simp only [Bool.or_eq_true, Bool.not_eq_true', decide_eq_true_eq, not_or, Bool.not_eq_false,
        Bool.not_eq_true] at hkept
      exact ⟨obj, exe, hobj, ⟨List.mem_of_getElem? hobj, hexe, hkept.1.1, hkept.1.2, hkept.2⟩, rfl⟩
  · rintro ⟨obj, exe, hobj, hidx, rfl⟩
    refine List.mem_flatMap.mpr ⟨(obj, index.1), List.mem_zipIdx_iff_getElem?.mpr hobj, ?_⟩
    refine List.mem_filterMap.mpr ⟨(exe, index.2), List.mem_zipIdx_iff_getElem?.mpr hidx.executable, ?_⟩
    simp [hidx.noLauncher, hidx.eligible, hidx.pattern]

namespace Host

variable (host : Host)

theorem mem_probe {eligible : ScannedExe → Bool} {entries : List ScannedEntry} {variant : Path}
    {candidate : ScannedEntry × Nat} :
    candidate ∈ host.probe ((collectPatterns eligible entries).map Prod.fst)
        ((collectPatterns eligible entries).map Prod.snd) entries variant ↔
      ∃ exe, Indexed eligible entries candidate.1 candidate.2 exe ∧
        Occurs Char.toLower (normalizeExePattern exe.name.toList) variant.reverse := by
  rw [probe, List.mem_filterMap]
  constructor
  · rintro ⟨found, hfound, h⟩
    obtain ⟨pattern, hpattern, hocc⟩ := host.matcher.occurs_of_mem hfound
    obtain ⟨index, hindex, h⟩ := Option.bind_eq_some_iff.mp h
    obtain ⟨obj, hobj, h⟩ := Option.bind_eq_some_iff.mp h
    obtain rfl := Option.some.inj h
    rw [List.getElem?_map, Option.map_eq_some_iff] at hpattern hindex
    obtain ⟨⟨_, _⟩, hcol, rfl⟩ := hpattern
    obtain ⟨_, hcol', rfl⟩ := hindex
    obtain rfl := Option.some.inj (hcol.symm.trans hcol')
    obtain ⟨obj', exe, hobj', hidx, rfl⟩ := mem_collectPatterns.mp (List.mem_of_getElem? hcol)
    obtain rfl := Option.some.inj (hobj.symm.trans hobj')
    exact ⟨exe, hidx, hocc⟩
  · rintro ⟨exe, hidx, hocc⟩
    obtain ⟨i, hi⟩ := List.mem_iff_getElem?.mp hidx.entry
    have hcol : (normalizeExePattern exe.name.toList, (i, candidate.2)) ∈ collectPatterns eligible entries :=
      mem_collectPatterns.mpr ⟨candidate.1, exe, hi, hidx, rfl⟩
    obtain ⟨k, hk⟩ := List.mem_iff_getElem?.mp hcol
    have hpattern := congrArg (Option.map Prod.fst) hk
    have hindex := congrArg (Option.map Prod.snd) hk
    rw [← List.getElem?_map] at hpattern hindex
    obtain ⟨found, hfound, rfl⟩ := host.matcher.exists_of_occurs hpattern hocc
    refine ⟨found, hfound, ?_⟩
    rw [hindex]
    simp [hi]

end Host

theorem firstHit_corroborated_iff {probe : List (ScannedEntry × Nat)} {variant : Path} {obj : ScannedEntry}
    {exeIndex : Nat} :
    firstHitNamingPath probe variant = .corroborated obj exeIndex ↔
      probe.find? (namedBy variant) = some (obj, exeIndex) := by
  rw [firstHitNamingPath]
  cases probe.find? (namedBy variant) with
  | some found => simp [Prod.ext_iff]
  | none => cases probe.isEmpty <;> simp

theorem firstHit_unnamed {probe : List (ScannedEntry × Nat)} {variant : Path}
    (h : ∀ candidate ∈ probe, namedBy variant candidate = false) :
    firstHitNamingPath probe variant = if probe.isEmpty then .noMatch else .refused := by
  have hnone : probe.find? (namedBy variant) = none := List.find?_eq_none.mpr fun candidate hc => by
    simp [h candidate hc]
  rw [firstHitNamingPath, hnone]

theorem settle_mem {outcomes : List MatchOutcome} {obj : ScannedEntry} {exeIndex : Nat}
    (h : settle outcomes = .corroborated obj exeIndex) : .corroborated obj exeIndex ∈ outcomes := by
  induction outcomes with
  | nil => cases h
  | cons outcome rest ih =>
      cases outcome with
      | corroborated obj' exeIndex' =>
          rw [← h]
          exact List.mem_cons_self
      | noMatch => exact List.mem_cons_of_mem _ (ih h)
      | refused =>
          rw [settle] at h
          refine List.mem_cons_of_mem _ (ih ?_)
          cases hrest : settle rest <;> simp_all

theorem settle_unnamed {outcomes : List MatchOutcome} (h : ∀ outcome ∈ outcomes, outcome.takeHit = none) :
    (settle outcomes).takeHit = none ∧ ((settle outcomes).isRefused = true ↔ .refused ∈ outcomes) := by
  induction outcomes with
  | nil => exact ⟨rfl, by simp [settle, MatchOutcome.isRefused]⟩
  | cons outcome rest ih =>
      rw [List.forall_mem_cons] at h
      cases outcome with
      | corroborated _ _ => cases h.1
      | noMatch => simpa [settle] using ih h.2
      | refused =>
          rw [settle]
          cases hrest : settle rest with
          | corroborated _ _ =>
              have hhit := (ih h.2).1
              rw [hrest] at hhit
              cases hhit
          | refused => simp [MatchOutcome.takeHit, MatchOutcome.isRefused]
          | noMatch => simp [MatchOutcome.takeHit, MatchOutcome.isRefused]

theorem settle_append_noMatch (outcomes : List MatchOutcome) (n : Nat) :
    settle (outcomes ++ List.replicate n .noMatch) = settle outcomes := by
  induction outcomes with
  | nil =>
      induction n with
      | zero => rfl
      | succ n ih => exact ih
  | cons outcome rest ih => cases outcome <;> simp [settle, ih]

inductive Automaton
  | main
  | custom
  | proton
  deriving DecidableEq, Repr

namespace Automaton

def eligible (platform : Platform) : Automaton → ScannedExe → Bool
  | main => fun exe => exe.os = .empty || osMatches platform exe.os.asStr
  | custom => fun _ => true
  | proton => fun exe => platform = .linux && exe.os = .win32

def entries (list custom : List ScannedEntry) : Automaton → List ScannedEntry
  | .main | .proton => list
  | .custom => custom

def patterns (platform : Platform) (list custom : List ScannedEntry) (automaton : Automaton) :
    List (Path × PatternIndex) :=
  collectPatterns (automaton.eligible platform) (automaton.entries list custom)

def passes (proton : Bool) : List Automaton := if proton then [.proton] else [.main, .custom]

end Automaton

namespace Host

variable (host : Host) (bundle : DetectablesBundle) (platform : Platform) (list custom : List ScannedEntry)

def probeOf : Automaton → Path → List (ScannedEntry × Nat)
  | .main => host.mainProbe bundle
  | .custom => host.customProbe bundle
  | .proton => host.protonProbe bundle

theorem probeOf_eq (automaton : Automaton) (variant : Path) :
    host.probeOf (buildBundle platform list custom) automaton variant =
      host.probe ((automaton.patterns platform list custom).map Prod.fst)
        ((automaton.patterns platform list custom).map Prod.snd) (automaton.entries list custom) variant := by
  have hnil (entries : List ScannedEntry) : host.probe [] [] entries variant = [] := by simp [probe]
  cases automaton with
  | main => rfl
  | custom =>
      by_cases hempty : custom = []
      · subst hempty
        exact (hnil []).symm
      · simp only [probeOf, customProbe, buildBundle, List.isEmpty_iff, hempty, if_false]
        rfl
  | proton =>
      by_cases hempty : protonPatterns platform list = []
      · have hpatterns : Automaton.patterns platform list custom .proton = [] := hempty
        rw [hpatterns]
        simp only [probeOf, protonProbe, buildBundle, hempty, List.isEmpty_nil, if_true]
        exact (hnil _).symm
      · simp only [probeOf, protonProbe, buildBundle, List.isEmpty_iff, hempty, if_false]
        rfl

theorem mem_probeOf {automaton : Automaton} {variant : Path} {candidate : ScannedEntry × Nat} :
    candidate ∈ host.probeOf (buildBundle platform list custom) automaton variant ↔
      ∃ exe, Indexed (automaton.eligible platform) (automaton.entries list custom) candidate.1 candidate.2 exe ∧
        Occurs Char.toLower (normalizeExePattern exe.name.toList) variant.reverse := by
  rw [probeOf_eq]
  exact host.mem_probe

theorem probeVariants_eq (path : Path) (proton : Bool) :
    host.probeVariants bundle path proton = settle ((Automaton.passes proton).flatMap fun automaton =>
      (pathVariants path).map fun variant => firstHitNamingPath (host.probeOf bundle automaton variant) variant) := by
  cases proton with
  | true => rfl
  | false =>
      rw [probeVariants]
      cases hcustom : bundle.customAc with
      | some ac => rfl
      | none =>
          have hnone : ((pathVariants path).map fun variant =>
              firstHitNamingPath (host.probeOf bundle .custom variant) variant) =
              List.replicate (pathVariants path).length .noMatch := by
            simp [probeOf, customProbe, hcustom, firstHitNamingPath]
          simp only [Automaton.passes, Bool.false_eq_true, if_false, Option.isNone_none, if_true, List.flatMap_cons,
            List.flatMap_nil, List.append_nil, hnone, settle_append_noMatch]
          rfl

theorem named_of_takeHit {path : Path} {proton : Bool} {obj : ScannedEntry} {exeIndex : Nat}
    (h : (host.probeVariants bundle path proton).takeHit = some (obj, exeIndex)) :
    ∃ automaton ∈ Automaton.passes proton, ∃ variant ∈ pathVariants path,
      (obj, exeIndex) ∈ host.probeOf bundle automaton variant ∧ namedBy variant (obj, exeIndex) = true := by
  have hout : host.probeVariants bundle path proton = .corroborated obj exeIndex := by
    cases hprobe : host.probeVariants bundle path proton <;> simp_all [MatchOutcome.takeHit]
  rw [probeVariants_eq] at hout
  obtain ⟨automaton, hpass, hmem⟩ := List.mem_flatMap.mp (settle_mem hout)
  obtain ⟨variant, hvariant, hfirst⟩ := List.mem_map.mp hmem
  have hfind := firstHit_corroborated_iff.mp hfirst
  exact ⟨automaton, hpass, variant, hvariant, List.mem_of_find?_eq_some hfind, List.find?_some hfind⟩

theorem probeVariants_unnamed (path : Path) (proton : Bool)
    (h : ∀ automaton ∈ Automaton.passes proton, ∀ variant ∈ pathVariants path,
      ∀ candidate ∈ host.probeOf bundle automaton variant, namedBy variant candidate = false) :
    (host.probeVariants bundle path proton).takeHit = none ∧
      ((host.probeVariants bundle path proton).isRefused = true ↔
        ∃ automaton ∈ Automaton.passes proton, ∃ variant ∈ pathVariants path,
          host.probeOf bundle automaton variant ≠ []) := by
  have hfirst (automaton) (ha : automaton ∈ Automaton.passes proton) (variant) (hv : variant ∈ pathVariants path) :
      firstHitNamingPath (host.probeOf bundle automaton variant) variant =
        if (host.probeOf bundle automaton variant).isEmpty then .noMatch else .refused :=
    firstHit_unnamed (h automaton ha variant hv)
  have hunnamed : ∀ outcome ∈ (Automaton.passes proton).flatMap fun automaton =>
      (pathVariants path).map fun variant => firstHitNamingPath (host.probeOf bundle automaton variant) variant,
      outcome.takeHit = none := by
    intro outcome hout
    obtain ⟨automaton, ha, hmem⟩ := List.mem_flatMap.mp hout
    obtain ⟨variant, hv, rfl⟩ := List.mem_map.mp hmem
    rw [hfirst automaton ha variant hv]
    split <;> rfl
  obtain ⟨hhit, hrefused⟩ := settle_unnamed hunnamed
  rw [probeVariants_eq]
  refine ⟨hhit, hrefused.trans ?_⟩
  simp only [List.mem_flatMap, List.mem_map]
  refine exists_congr fun automaton => and_congr_right fun ha => ?_
  refine exists_congr fun variant => and_congr_right fun hv => ?_
  rw [hfirst automaton ha variant hv]
  cases host.probeOf bundle automaton variant <;> simp

end Host

end RichPresence.Detect
