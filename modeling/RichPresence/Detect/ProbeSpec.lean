import RichPresence.Detect.Unnamed

namespace RichPresence.Detect

theorem settle_append_of_hit {outcomes rest : List MatchOutcome} {obj : ScannedEntry} {exeIndex : Nat}
    (h : settle outcomes = .corroborated obj exeIndex) :
    settle (outcomes ++ rest) = .corroborated obj exeIndex := by
  induction outcomes with
  | nil => cases h
  | cons outcome outcomes ih =>
      cases outcome with
      | corroborated _ _ => exact h
      | noMatch => exact ih h
      | refused =>
          rw [settle] at h
          have hrest : settle outcomes = .corroborated obj exeIndex := by
            split at h
            · cases h
            · exact h
          rw [List.cons_append, settle, ih hrest]

theorem exists_hit_of_settle {outcomes : List MatchOutcome} {obj : ScannedEntry} {exeIndex : Nat}
    (h : .corroborated obj exeIndex ∈ outcomes) :
    ∃ first firstIndex, settle outcomes = .corroborated first firstIndex := by
  induction outcomes with
  | nil => cases h
  | cons outcome outcomes ih =>
      cases outcome with
      | corroborated first firstIndex => exact ⟨first, firstIndex, rfl⟩
      | noMatch => exact ih ((List.mem_cons.mp h).resolve_left nofun)
      | refused =>
          obtain ⟨first, firstIndex, hrest⟩ := ih ((List.mem_cons.mp h).resolve_left nofun)
          exact ⟨first, firstIndex, by rw [settle, hrest]⟩

namespace Host

variable (host : Host) (platform : Platform) (list custom : List ScannedEntry) (path : Path)

/-- The executable is confirmed on some variant of the path: its pattern occurs
there and it names it. -/
def Confirmed (automaton : Automaton) (obj : ScannedEntry) (exeIndex : Nat) : Prop :=
  ∃ variant ∈ pathVariants path, ∃ exe,
    Indexed (automaton.eligible platform) (automaton.entries list custom) obj exeIndex exe ∧
      Lib.Occurs Char.toLower (normalizeExePattern exe.name.toList) variant.reverse ∧
      exeNamesPath variant exe.name.toList = true

/-- Some pattern of the automaton occurs in some variant of the path. -/
def SeenOn (automaton : Automaton) : Prop :=
  ∃ variant ∈ pathVariants path, Seen platform list custom automaton variant

def pass (automaton : Automaton) : List MatchOutcome :=
  (pathVariants path).map fun variant =>
    firstHitNamingPath (host.probeOf (buildBundle platform list custom) automaton variant) variant

variable {host platform list custom path} {automaton : Automaton} {obj : ScannedEntry} {exeIndex : Nat}

theorem confirmed_of_mem_pass (h : .corroborated obj exeIndex ∈ host.pass platform list custom path automaton) :
    Confirmed platform list custom path automaton obj exeIndex := by
  obtain ⟨variant, hvariant, hfirst⟩ := List.mem_map.mp h
  have hfind := firstHit_corroborated_iff.mp hfirst
  obtain ⟨exe, hidx, hocc⟩ := (host.mem_probeOf platform list custom).mp (List.mem_of_find?_eq_some hfind)
  have hnamed := List.find?_some hfind
  rw [namedBy, hidx.executable, Option.any_some] at hnamed
  exact ⟨variant, hvariant, exe, hidx, hocc, hnamed⟩

theorem mem_probeOf_of_indexed {variant : Path} {exe : ScannedExe}
    (hidx : Indexed (automaton.eligible platform) (automaton.entries list custom) obj exeIndex exe)
    (hocc : Lib.Occurs Char.toLower (normalizeExePattern exe.name.toList) variant.reverse) :
    (obj, exeIndex) ∈ host.probeOf (buildBundle platform list custom) automaton variant :=
  (host.mem_probeOf platform list custom).mpr ⟨exe, hidx, hocc⟩

theorem exists_mem_pass_of_confirmed (h : Confirmed platform list custom path automaton obj exeIndex) :
    ∃ first firstIndex, .corroborated first firstIndex ∈ host.pass platform list custom path automaton := by
  obtain ⟨variant, hvariant, exe, hidx, hocc, hnames⟩ := h
  have hnamed : namedBy variant (obj, exeIndex) = true := by
    rw [namedBy, hidx.executable]
    exact hnames
  have hfound := List.find?_isSome.mpr ⟨_, host.mem_probeOf_of_indexed hidx hocc, hnamed⟩
  obtain ⟨⟨first, firstIndex⟩, hfind⟩ := Option.isSome_iff_exists.mp hfound
  exact ⟨first, firstIndex, List.mem_map.mpr ⟨variant, hvariant, firstHit_corroborated_iff.mpr hfind⟩⟩

theorem probeVariants_main (h : ∃ obj exeIndex, Confirmed platform list custom path .main obj exeIndex) :
    ∃ obj exeIndex, host.probeVariants (buildBundle platform list custom) path false = .corroborated obj exeIndex ∧
      Confirmed platform list custom path .main obj exeIndex := by
  obtain ⟨obj, exeIndex, hconfirmed⟩ := h
  obtain ⟨obj, exeIndex, hmem⟩ := host.exists_mem_pass_of_confirmed hconfirmed
  obtain ⟨first, firstIndex, hsettle⟩ := exists_hit_of_settle hmem
  refine ⟨first, firstIndex, ?_, confirmed_of_mem_pass (settle_mem hsettle)⟩
  rw [probeVariants_eq]
  exact settle_append_of_hit hsettle

theorem confirmed_of_probeVariants {proton : Bool}
    (h : host.probeVariants (buildBundle platform list custom) path proton = .corroborated obj exeIndex) :
    ∃ automaton ∈ Automaton.passes proton, Confirmed platform list custom path automaton obj exeIndex := by
  rw [probeVariants_eq] at h
  obtain ⟨automaton, hpass, hmem⟩ := List.mem_flatMap.mp (settle_mem h)
  exact ⟨automaton, hpass, confirmed_of_mem_pass hmem⟩

theorem probeVariants_hit {proton : Bool} (hpass : automaton ∈ Automaton.passes proton)
    (h : ∃ obj exeIndex, Confirmed platform list custom path automaton obj exeIndex) :
    ∃ obj exeIndex, host.probeVariants (buildBundle platform list custom) path proton =
      .corroborated obj exeIndex := by
  obtain ⟨obj, exeIndex, hconfirmed⟩ := h
  obtain ⟨obj, exeIndex, hmem⟩ := host.exists_mem_pass_of_confirmed hconfirmed
  rw [probeVariants_eq]
  exact exists_hit_of_settle (List.mem_flatMap.mpr ⟨automaton, hpass, hmem⟩)

theorem probeVariants_unconfirmed {proton : Bool} (h : ∀ automaton ∈ Automaton.passes proton,
      ¬∃ obj exeIndex, Confirmed platform list custom path automaton obj exeIndex) :
    ((∃ automaton ∈ Automaton.passes proton, SeenOn platform list custom path automaton) →
      host.probeVariants (buildBundle platform list custom) path proton = .refused) ∧
    ((¬∃ automaton ∈ Automaton.passes proton, SeenOn platform list custom path automaton) →
      host.probeVariants (buildBundle platform list custom) path proton = .noMatch) := by
  have hunnamed : ∀ automaton ∈ Automaton.passes proton, ∀ variant ∈ pathVariants path,
      ∀ candidate ∈ host.probeOf (buildBundle platform list custom) automaton variant,
      namedBy variant candidate = false := by
    intro automaton hpass variant hvariant candidate hmem
    obtain ⟨exe, hidx, hocc⟩ := (host.mem_probeOf platform list custom).mp hmem
    rw [namedBy, hidx.executable, Option.any_some, Bool.eq_false_iff]
    intro hnames
    exact h automaton hpass ⟨candidate.1, candidate.2, variant, hvariant, exe, hidx, hocc, hnames⟩
  obtain ⟨hhit, hrefused⟩ := host.probeVariants_unnamed _ path proton hunnamed
  simp only [host.probeOf_ne_nil_iff] at hrefused
  constructor
  · intro hseen
    have hr := hrefused.mpr hseen
    cases hout : host.probeVariants (buildBundle platform list custom) path proton with
    | refused => rfl
    | corroborated _ _ => simp [hout, MatchOutcome.isRefused] at hr
    | noMatch => simp [hout, MatchOutcome.isRefused] at hr
  · intro hunseen
    cases hout : host.probeVariants (buildBundle platform list custom) path proton with
    | noMatch => rfl
    | corroborated _ _ => simp [hout, MatchOutcome.takeHit] at hhit
    | refused => exact absurd (hrefused.mp (by rw [hout]; rfl)) hunseen

end Host

/-- What a probe answers, in the order of its automata: an executable confirmed by
the main one, else one confirmed by the custom one, else a refusal if a pattern of
either occurs. -/
theorem probeVariants_exact (host : Host) (platform : Platform) (list custom : List ScannedEntry) (path : Path) :
    let confirmed := fun automaton => ∃ obj exeIndex, Host.Confirmed platform list custom path automaton obj exeIndex
    let seen := Host.SeenOn platform list custom path
    let direct := host.probeVariants (buildBundle platform list custom) path false
    let proton := host.probeVariants (buildBundle platform list custom) path true
    ((confirmed .main → ∃ obj exeIndex, direct = .corroborated obj exeIndex ∧
          Host.Confirmed platform list custom path .main obj exeIndex) ∧
        (¬confirmed .main → confirmed .custom → ∃ obj exeIndex, direct = .corroborated obj exeIndex ∧
          Host.Confirmed platform list custom path .custom obj exeIndex) ∧
        (¬confirmed .main → ¬confirmed .custom → seen .main ∨ seen .custom → direct = .refused) ∧
        (¬confirmed .main → ¬confirmed .custom → ¬(seen .main ∨ seen .custom) → direct = .noMatch)) ∧
      (confirmed .proton → ∃ obj exeIndex, proton = .corroborated obj exeIndex ∧
          Host.Confirmed platform list custom path .proton obj exeIndex) ∧
        (¬confirmed .proton → seen .proton → proton = .refused) ∧
        (¬confirmed .proton → ¬seen .proton → proton = .noMatch) := by
  intro confirmed seen direct proton
  have hpasses : Automaton.passes false = [.main, .custom] := rfl
  have hproton : Automaton.passes true = [.proton] := rfl
  have hnone (hmain : ¬confirmed .main) (hcustom : ¬confirmed .custom) :
      ∀ automaton ∈ Automaton.passes false, ¬confirmed automaton := by
    simp [hpasses, hmain, hcustom]
  have hnoProton (h : ¬confirmed .proton) : ∀ automaton ∈ Automaton.passes true, ¬confirmed automaton := by
    simpa [hproton] using h
  have hseen : (∃ automaton ∈ Automaton.passes false, seen automaton) ↔ seen .main ∨ seen .custom := by
    simp [hpasses]
  have hseenProton : (∃ automaton ∈ Automaton.passes true, seen automaton) ↔ seen .proton := by
    simp [hproton]
  refine ⟨⟨Host.probeVariants_main, ?_, ?_, ?_⟩, ?_, ?_, ?_⟩
  · intro hmain hcustom
    have hpass : Automaton.custom ∈ Automaton.passes false := by decide
    obtain ⟨obj, exeIndex, hhit⟩ := host.probeVariants_hit hpass hcustom
    obtain ⟨automaton, hpass, hconfirmed⟩ := host.confirmed_of_probeVariants hhit
    refine ⟨obj, exeIndex, hhit, ?_⟩
    rw [hpasses, List.mem_cons, List.mem_singleton] at hpass
    rcases hpass with rfl | rfl
    · exact absurd ⟨obj, exeIndex, hconfirmed⟩ hmain
    · exact hconfirmed
  · intro hmain hcustom hs
    exact (host.probeVariants_unconfirmed (hnone hmain hcustom)).1 (hseen.mpr hs)
  · intro hmain hcustom hs
    exact (host.probeVariants_unconfirmed (hnone hmain hcustom)).2 fun h => hs (hseen.mp h)
  · intro hconfirmed
    have hpass : Automaton.proton ∈ Automaton.passes true := by decide
    obtain ⟨obj, exeIndex, hhit⟩ := host.probeVariants_hit hpass hconfirmed
    obtain ⟨automaton, hpass, hfound⟩ := host.confirmed_of_probeVariants hhit
    rw [hproton, List.mem_singleton] at hpass
    exact ⟨obj, exeIndex, hhit, hpass ▸ hfound⟩
  · intro hn hs
    exact (host.probeVariants_unconfirmed (hnoProton hn)).1 (hseenProton.mpr hs)
  · intro hn hs
    exact (host.probeVariants_unconfirmed (hnoProton hn)).2 fun h => hs (hseenProton.mp h)

end RichPresence.Detect
