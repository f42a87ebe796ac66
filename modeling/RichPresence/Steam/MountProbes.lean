import RichPresence.Steam.MountTable

namespace RichPresence.Steam

open Lib

variable {m : Mount} {ms : List Mount}

theorem render_getLast (m : Mount) : m.render.getLast? = some '0' := by
  have hconcat : m.render =
      [' '].intercalate [escape m.device, escape m.mountPoint, escape m.fstype, escape m.options, ['0']] ++
        [' ', '0'] := by
    simp [Mount.render, List.intercalate]
  rw [hconcat, List.getLast?_append]
  rfl

theorem newline_not_mem_render (m : Mount) : '\n' ∉ m.render := by
  have hfields := newline_not_mem_escape
  simp [Mount.render, List.intercalate, hfields]

theorem splitOnP_render (ms : List Mount) : (renderMounts ms).splitOnP (· == '\n') = ms.map Mount.render ++ [[]] := by
  induction ms with
  | nil => rw [renderMounts, List.flatMap_nil, List.splitOnP_nil, List.map_nil, List.nil_append]
  | cons m ms ih =>
      have hline : ∀ c ∈ m.render, (c == '\n') = false := by
        intro c hc
        exact beq_false_of_ne fun heq => newline_not_mem_render m (heq ▸ hc)
      have hcons : renderMounts (m :: ms) = m.render ++ '\n' :: renderMounts ms := by
        rw [renderMounts, List.flatMap_cons, List.append_assoc]
        rfl
      rw [hcons, List.splitOnP_append_cons _ _ (by decide), List.splitOnP_eq_singleton hline, ih]
      rfl

theorem lines_render (ms : List Mount) : lines (renderMounts ms) = ms.map Mount.render := by
  rw [lines, splitOnP_render, List.dropLast_concat, List.getLast?_concat, Option.getD_some, List.isEmpty_nil,
    if_pos rfl, List.append_nil, List.map_map]
  refine List.map_congr_left fun m _ => ?_
  rw [Function.comp_apply, render_getLast, if_neg (by decide)]

theorem words_render (m : Mount) : words isWhiteSpace m.render =
    words isWhiteSpace (escape m.device) ++ (words isWhiteSpace (escape m.mountPoint) ++
      (words isWhiteSpace (escape m.fstype) ++ (words isWhiteSpace (escape m.options) ++ [['0'], ['0']]))) := by
  rw [Mount.render, words_intercalate (by decide)]
  simp only [List.flatMap_cons, List.flatMap_nil, List.append_nil]
  rfl

theorem escaped_not_mem {texts : List (List Char)} (hall : texts.all (·.all (· ∉ escapedChars)) = true) :
    ∀ text ∈ texts, ∀ c ∈ text, c ∉ escapedChars := by
  intro text htext c hc
  exact of_decide_eq_true (List.all_eq_true.mp (List.all_eq_true.mp hall text htext) c hc)

theorem skipTypes_escape (fstype : List Char) :
    String.ofList (escape fstype) ∈ skipTypes ↔ String.ofList fstype ∈ skipTypes := by
  have hplain : ∀ text ∈ skipTypes.map String.toList, ∀ c ∈ text, c ∉ escapedChars := escaped_not_mem (by decide)
  have hiff (field : List Char) : String.ofList field ∈ skipTypes ↔ field ∈ skipTypes.map String.toList := by
    rw [List.mem_map]
    constructor
    · intro h
      exact ⟨_, h, String.toList_ofList⟩
    · rintro ⟨text, h, rfl⟩
      rwa [String.ofList_toList]
  rw [hiff, hiff]
  constructor
  · intro h
    have heq : fstype = escape fstype := (escape_eq_iff (hplain _ h)).mp rfl
    rwa [← heq] at h
  · intro h
    rwa [(escape_eq_iff (hplain _ h)).mpr rfl]

theorem pseudoTrees_escape (mountPoint : Path) :
    pseudoTrees.any (·.isPrefixOf (escape mountPoint)) = pseudoTrees.any (·.isPrefixOf mountPoint) := by
  have hplain : ∀ text ∈ pseudoTrees, ∀ c ∈ text, c ∉ escapedChars := escaped_not_mem (by decide)
  rw [Bool.eq_iff_iff, List.any_eq_true, List.any_eq_true]
  refine exists_congr fun tree => and_congr_right fun htree => ?_
  rw [List.isPrefixOf_iff_prefix, List.isPrefixOf_iff_prefix]
  exact prefix_escape (hplain tree htree) mountPoint

theorem mountOf_render (hdevice : Unbroken m.device) (hpoint : Unbroken m.mountPoint) (hfstype : Unbroken m.fstype) :
    mountOf m.render = if m.kept then some m.mountPoint else none := by
  rw [mountOf, words_render, words_escape hdevice, words_escape hpoint, words_escape hfstype]
  simp only [List.cons_append, List.nil_append]
  rw [Mount.kept]
  simp only [skipTypes_escape, pseudoTrees_escape, unescapeMount_escape]
  by_cases hskip : String.ofList m.fstype ∈ skipTypes
  · simp [hskip]
  · cases htree : pseudoTrees.any (·.isPrefixOf m.mountPoint) <;> simp [hskip]

section Probing

variable (isDir : Path → Bool)

theorem probed_fold (candidates : List Path) (s : Probes) :
    (candidates.foldl (probe isDir) s).probed = s.probed ++ candidates.map (Path.join · steamapps) := by
  induction candidates generalizing s with
  | nil => rw [List.foldl_nil, List.map_nil, List.append_nil]
  | cons candidate candidates ih =>
      rw [List.foldl_cons, ih, probe, List.append_assoc]
      rfl

theorem probed_probeLine (s : Probes) (line : List Char) :
    (probeLine isDir s line).probed =
      s.probed ++ (mountOf line).toList.flatMap fun mount =>
        (layouts.map (candidate mount)).map (Path.join · steamapps) := by
  rw [probeLine]
  cases mountOf line with
  | none => exact (List.append_nil _).symm
  | some mount =>
      have hfold : layouts.foldl (fun s layout => probe isDir s (candidate mount layout)) s =
          (layouts.map (candidate mount)).foldl (probe isDir) s := List.foldl_map.symm
      dsimp only
      rw [hfold, probed_fold]
      exact congrArg (s.probed ++ ·) (List.append_nil _).symm

theorem probed_lines (ls : List (List Char)) (s : Probes) :
    (ls.foldl (probeLine isDir) s).probed =
      s.probed ++ (ls.filterMap mountOf).flatMap fun mount =>
        (layouts.map (candidate mount)).map (Path.join · steamapps) := by
  induction ls generalizing s with
  | nil => simp
  | cons line ls ih =>
      rw [List.foldl_cons, ih, probed_probeLine, List.append_assoc, List.filterMap_cons]
      cases mountOf line with
      | none => rfl
      | some mount =>
          rw [List.flatMap_cons]
          simp only [Option.toList_some, List.flatMap_cons, List.flatMap_nil, List.append_nil]

theorem probed_render (ms : List Mount) :
    (mountLibraryRootsFor isDir (renderMounts ms)).probed =
      ((ms.map Mount.render).filterMap mountOf).flatMap fun mount =>
        (layouts.map (candidate mount)).map (Path.join · steamapps) := by
  rw [mountLibraryRootsFor, probed_lines, lines_render]
  rfl

theorem probed_unbroken (h : ∀ m ∈ ms, Unbroken m.device ∧ Unbroken m.mountPoint ∧ Unbroken m.fstype) :
    (mountLibraryRootsFor isDir (renderMounts ms)).probed = expectedProbes ms := by
  have hread : (ms.map Mount.render).filterMap mountOf = (ms.filter Mount.kept).map Mount.mountPoint := by
    rw [List.filterMap_map]
    induction ms with
    | nil => rfl
    | cons m ms ih =>
        obtain ⟨hdevice, hpoint, hfstype⟩ := h m List.mem_cons_self
        rw [List.filterMap_cons, Function.comp_apply, mountOf_render hdevice hpoint hfstype,
          ih fun n hn => h n (List.mem_cons_of_mem m hn)]
        cases hkept : m.kept with
        | true => rw [List.filter_cons_of_pos hkept, List.map_cons, if_pos rfl]
        | false => rw [List.filter_cons_of_neg (by simp [hkept]), if_neg (by simp)]
  rw [probed_render, hread, List.flatMap_map, expectedProbes, List.map_flatMap]
  rfl

theorem mountOf_broken {before after : List Char} {c : Char} (hdevice : Unbroken m.device)
    (hbefore : Unbroken before) (hpoint : m.mountPoint = before ++ c :: after) (hc : isWhiteSpace c = true)
    (hplain : c ∉ escapedChars) : mountOf m.render = none ∨ mountOf m.render = some before := by
  have hescape : escape m.mountPoint = escape before ++ c :: escape after := by
    rw [hpoint, escape, List.flatMap_append, List.flatMap_cons, escapeChar_plain hplain]
    rfl
  have hwords : words isWhiteSpace (escape m.mountPoint) = escape before :: words isWhiteSpace (escape after) := by
    rw [hescape, words, List.splitOnP_append_cons _ _ hc, List.filter_append]
    exact congrArg (· ++ _) (words_escape hbefore)
  rw [mountOf, words_render, words_escape hdevice, hwords]
  simp only [List.cons_append, List.nil_append]
  split
  next heq =>
      rw [List.cons.injEq, List.cons.injEq] at heq
      obtain ⟨-, rfl, -⟩ := heq
      rw [unescapeMount_escape]
      split
      · exact .inl rfl
      · split
        · exact .inl rfl
        · exact .inr rfl
  next => exact .inl rfl

theorem mem_join {path other : Path} {c : Char} (h : c ∈ path.join other) : c ∈ path ∨ c = '/' ∨ c ∈ other := by
  rw [Path.join] at h
  split at h
  · exact .inr (.inr h)
  · split at h
    · exact (List.mem_append.mp h).imp_right .inr
    · exact (List.mem_append.mp h).imp_right List.mem_cons.mp

theorem mem_join_steamapps {path : Path} {c : Char} (h : c ∈ path) : c ∈ path.join steamapps := by
  have hrel : steamapps.isAbsolute = false := rfl
  rw [Path.join, hrel, if_neg (by simp)]
  split <;> exact List.mem_append_left _ h

theorem probed_broken (hdevice : Unbroken m.device) (habsolute : m.mountPoint.isAbsolute = true)
    (hkept : m.kept = true) (hbroken : ¬Unbroken m.mountPoint) :
    (mountLibraryRootsFor isDir (renderMounts [m])).probed ≠ expectedProbes [m] := by
  obtain ⟨rest, hstart⟩ : ∃ rest, m.mountPoint = '/' :: rest := by
    rcases hm : m.mountPoint with _ | ⟨c, rest⟩
    · rw [hm] at habsolute
      cases habsolute
    · rw [hm, Path.isAbsolute, List.head?_cons, beq_iff_eq] at habsolute
      exact ⟨rest, by rw [Option.some.inj habsolute]⟩
  -- the first character that the kernel leaves as it is and the code splits at
  obtain ⟨c, before, after, hc, hpoint, hbefore⟩ : ∃ c before after, (isWhiteSpace c = true ∧ c ∉ escapedChars) ∧
      m.mountPoint = before ++ c :: after ∧ ∀ d ∈ before, isWhiteSpace d = true → d ∈ escapedChars := by
    cases hfind : m.mountPoint.find? fun c => isWhiteSpace c && c ∉ escapedChars with
    | none =>
        refine absurd ⟨by simp [hstart], fun c hc hwhite => ?_⟩ hbroken
        have hnot := List.find?_eq_none.mp hfind c hc
        by_contra hplain
        exact hnot (by simp [hwhite, hplain])
    | some c =>
        obtain ⟨hc, before, after, hpoint, hbefore⟩ := List.find?_eq_some_iff_append.mp hfind
        refine ⟨c, before, after, by simpa using hc, hpoint, fun d hd hwhite => ?_⟩
        simpa [hwhite] using hbefore d hd
  have hne : before ≠ [] := by
    rintro rfl
    rw [hstart, List.nil_append, List.cons.injEq] at hpoint
    rw [← hpoint.1] at hc
    exact absurd hc.1 (by decide)
  have hexpected : expectedProbes [m] = m.mountPoint.join steamapps ::
      ((layouts.drop 1).map (candidate m.mountPoint)).map (Path.join · steamapps) := by
    rw [expectedProbes, List.filter_cons_of_pos hkept]
    rfl
  rw [probed_render, hexpected, List.map_cons, List.map_nil, List.filterMap_cons]
  rcases mountOf_broken hdevice ⟨hne, hbefore⟩ hpoint hc.1 hc.2 with hnone | hcut
  · rw [hnone]
    simp
  · rw [hcut]
    intro heq
    have hhead : before.join steamapps = m.mountPoint.join steamapps := (List.cons.inj heq).1
    have hmem : c ∈ before.join steamapps := by
      rw [hhead]
      exact mem_join_steamapps (by simp [hpoint])
    rcases mem_join hmem with hin | rfl | hin
    · exact hc.2 (hbefore c hin hc.1)
    · exact absurd hc.1 (by decide)
    · have hplain : (steamapps.all fun d => !isWhiteSpace d) = true := by decide
      have hnot := List.all_eq_true.mp hplain c hin
      rw [hc.1] at hnot
      cases hnot

end Probing

/-- Tables whose fields hold no white space but what the kernel escapes are read back. A mount
point that holds other white space is not. -/
theorem mounts_read_back (isDir : Path → Bool) :
    (∀ ms : List Mount, (∀ m ∈ ms, Unbroken m.device ∧ Unbroken m.mountPoint ∧ Unbroken m.fstype) →
      (mountLibraryRootsFor isDir (renderMounts ms)).probed = expectedProbes ms) ∧
    ∀ m : Mount, Unbroken m.device → Unbroken m.fstype → m.mountPoint.isAbsolute = true → m.kept = true →
      ((mountLibraryRootsFor isDir (renderMounts [m])).probed = expectedProbes [m] ↔ Unbroken m.mountPoint) := by
  refine ⟨fun ms h => probed_unbroken isDir h, fun m hdevice hfstype habsolute hkept => ⟨fun heq => ?_, fun h => ?_⟩⟩
  · by_contra hbroken
    exact probed_broken isDir hdevice habsolute hkept hbroken heq
  · refine probed_unbroken isDir fun n hn => ?_
    rw [List.mem_singleton.mp hn]
    exact ⟨hdevice, h, hfstype⟩

def gamesDisk (mountPoint : String) : Mount :=
  ⟨"/dev/sda1".toList, mountPoint.toList, "ext4".toList, "rw,relatime".toList⟩

theorem mounts_read_back_blank :
    (mountLibraryRootsFor (fun _ => false) (renderMounts [gamesDisk "/mnt/my #1 disk"])).probed =
      expectedProbes [gamesDisk "/mnt/my #1 disk"] := by
  refine (mounts_read_back fun _ => false).1 _ fun m hm => ?_
  rw [List.mem_singleton.mp hm]
  exact ⟨by decide +kernel, by decide +kernel, by decide +kernel⟩

/-- A no-break space is not escaped, and splits the mount point. -/
theorem no_break_space_splits_mount :
    (mountLibraryRootsFor (fun _ => false) (renderMounts [gamesDisk "/mnt/my\u00a0disk"])).probed ≠
      expectedProbes [gamesDisk "/mnt/my\u00a0disk"] := by
  decide +kernel

end RichPresence.Steam
