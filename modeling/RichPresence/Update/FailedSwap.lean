import RichPresence.Update.BootRule

namespace RichPresence.Update

open Lib

/-- What becomes of each operation of a call. No call makes the same operation twice. -/
abbrev Pattern := FileOp → Verdict

namespace Pattern

def act (p : Pattern) (o : FileOp) (disk : Disk) : o.Answer × Disk := perform (p o) o disk

variable {p : Pattern} {disk : Disk} {source target : FilePath} {bytes : Bytes}

theorem act_rename (h : p (.rename source target) = .succeeds) (hs : disk source = some bytes) :
    p.act (.rename source target) disk = (.ok (), disk.move source target) := by
  simp only [act, h, perform, hs]

theorem act_rename_fails (h : p (.rename source target) ≠ .succeeds) (disk : Disk) :
    ∃ err, p.act (.rename source target) disk = (.error err, disk) := by
  obtain ⟨hv, -, -⟩ | ⟨-, -, heq⟩ | ⟨-, -, heq⟩ := rename_cases (p (.rename source target)) source target disk
  · exact absurd hv h
  · exact ⟨_, heq⟩
  · exact ⟨_, heq⟩

theorem act_rename_ok (h : (p.act (.rename source target) disk).1 = .ok ()) :
    (disk source).isSome ∧ p.act (.rename source target) disk = (.ok (), disk.move source target) := by
  obtain ⟨-, hsome, heq⟩ | ⟨-, -, heq⟩ | ⟨-, -, heq⟩ :=
    rename_cases (p (.rename source target)) source target disk
  · exact ⟨hsome, heq⟩
  all_goals
    rw [act, heq] at h
    exact nomatch h

theorem act_copy (h : p (.copy source target) = .succeeds) (hs : disk source = some bytes) :
    p.act (.copy source target) disk = (.ok (), Function.update disk target (some bytes)) := by
  simp only [act, h, perform, hs]

theorem act_setPermissions (h : p (.setPermissions target) = .succeeds) (ht : disk target = some bytes) :
    p.act (.setPermissions target) disk = (.ok (), disk) := by
  simp only [act, h, perform, ht]

theorem act_setPermissions_fails (h : p (.setPermissions target) ≠ .succeeds) (disk : Disk) :
    p.act (.setPermissions target) disk = (.error .other, disk) := by
  rw [act]
  generalize p (.setPermissions target) = v at h
  cases v with
  | succeeds => exact absurd rfl h
  | crosses | fails => rfl

end Pattern

section

variable {p : Pattern} {exe newImage : FilePath} {disk : Disk} {original new : Bytes}

def CopiesAcross (p : Pattern) (exe newImage : FilePath) : Prop :=
  p (.copy newImage (tmpPath exe)) = .succeeds ∧ p (.setPermissions (tmpPath exe)) = .succeeds ∧
    p (.rename (tmpPath exe) exe) = .succeeds

theorem run_copyAcross (h : CopiesAcross p exe newImage) (hnew : disk newImage = some new) (hexe : exe ≠ newImage) :
    ((copyAcross exe newImage).run p.act disk).1 = .ok () ∧
      ((copyAcross exe newImage).run p.act disk).2 exe = some new ∧
      ∀ other, other ≠ exe → other ≠ newImage → other ≠ tmpPath exe →
        ((copyAcross exe newImage).run p.act disk).2 other = disk other := by
  obtain ⟨hcopy, hperm, hrename⟩ := h
  have htmp : Function.update disk (tmpPath exe) (some new) (tmpPath exe) = some new := Function.update_self ..
  rw [copyAcross]
  simp only [op, Script.run_bind, Script.run_perform, Script.run_pure, Pattern.act_copy hcopy hnew,
    Pattern.act_setPermissions hperm htmp, Pattern.act_rename hrename htmp]
  refine ⟨trivial, ?_, fun other ho hn ht => ?_⟩
  · rw [Pattern.act, removeFile_other _ hexe, Disk.move_target, htmp]
  · rw [Pattern.act, removeFile_other _ hn, Disk.move_other _ ht ho, Function.update_of_ne ht]

theorem update_ne_some {path target : FilePath} (h : disk path ≠ some original) (hother : new ≠ original) :
    Function.update disk target (some new) path ≠ some original := by
  by_cases he : path = target
  · rw [he, Function.update_self]
    exact fun heq => hother (Option.some.inj heq)
  · rwa [Function.update_of_ne he]

theorem run_copyAcross_fails (h : ¬CopiesAcross p exe newImage) (hnew : disk newImage = some new)
    (hexe : disk exe ≠ some original) (hother : new ≠ original)
    (hleft : p (.copy newImage (tmpPath exe)) ≠ .fails (some original)) :
    ∃ err, ((copyAcross exe newImage).run p.act disk).1 = .error err ∧
      ((copyAcross exe newImage).run p.act disk).2 exe ≠ some original := by
  rw [copyAcross]
  simp only [op, Script.run_bind, Script.run_perform]
  cases hcopy : p (.copy newImage (tmpPath exe)) with
  | crosses =>
      simp only [Pattern.act, hcopy, perform, Script.run_pure]
      exact ⟨.other, rfl, hexe⟩
  | fails left =>
      simp only [Pattern.act, hcopy, perform, Script.run_pure]
      refine ⟨.other, rfl, ?_⟩
      cases left with
      | none => exact hexe
      | some left => exact update_ne_some hexe fun he => hleft (by rw [hcopy, he])
  | succeeds =>
      have hkept : Function.update disk (tmpPath exe) (some new) exe ≠ some original := update_ne_some hexe hother
      have htmp : Function.update disk (tmpPath exe) (some new) (tmpPath exe) = some new := Function.update_self ..
      by_cases hperm : p (.setPermissions (tmpPath exe)) = .succeeds
      · have hrename : p (.rename (tmpPath exe) exe) ≠ .succeeds := fun hr => h ⟨hcopy, hperm, hr⟩
        obtain ⟨err, hfails⟩ := Pattern.act_rename_fails hrename (Function.update disk (tmpPath exe) (some new))
        simp only [Pattern.act_copy hcopy hnew, Script.run_bind, Script.run_perform,
          Pattern.act_setPermissions hperm htmp, hfails, Script.run_pure]
        exact ⟨err, rfl, hkept⟩
      · simp only [Pattern.act_copy hcopy hnew, Script.run_bind, Script.run_perform,
          Pattern.act_setPermissions_fails hperm, Script.run_pure]
        exact ⟨.other, rfl, hkept⟩

/-- The previous image is put back when the new one cannot take its place, but not
when the new one has to be copied from another filesystem and that fails. -/
def Stranded (p : Pattern) (exe newImage : FilePath) : Prop :=
  p (.rename exe (prevPath exe)) = .succeeds ∧ p (.rename newImage exe) = .crosses ∧ ¬CopiesAcross p exe newImage

def KeepsImages (disk : Disk) (exe newImage : FilePath) (original : Bytes) : Except IoError Unit × Disk → Prop
  | (.error _, after) => after exe = some original
  | (.ok (), after) =>
      ∃ new, disk newImage = some new ∧ after exe = some new ∧ after (prevPath exe) = some original

variable {paths : OtaPaths}

theorem run_swapBinary_aside (hstaged : exe ≠ paths.stagedFile) (hexe : disk exe = some original) :
    (p (.rename exe (prevPath exe)) ≠ .succeeds ∧ ∃ err cleared,
      (swapBinary exe paths.stagedFile).run p.act disk = (.error err, cleared) ∧ cleared exe = some original) ∨
    p (.rename exe (prevPath exe)) = .succeeds ∧ ∃ moved : Disk, moved exe = none ∧
      moved (prevPath exe) = some original ∧ moved paths.stagedFile = disk paths.stagedFile ∧
      (swapBinary exe paths.stagedFile).run p.act disk = (placeImage exe paths.stagedFile).run p.act moved := by
  rw [swapBinary]
  simp only [op, Script.run_bind, Script.run_perform]
  have hcleared (other) (h : other ≠ prevPath exe) : (p.act (.removeFile (prevPath exe)) disk).2 other = disk other :=
    removeFile_other _ h disk
  generalize (p.act (.removeFile (prevPath exe)) disk).2 = cleared at hcleared ⊢
  have hcurrent := (hcleared exe (prevPath_ne exe).symm).trans hexe
  by_cases haside : p (.rename exe (prevPath exe)) = .succeeds
  · refine .inr ⟨haside, cleared.move exe (prevPath exe), cleared.move_source (prevPath_ne exe).symm,
      cleared.move_target.trans hcurrent, ?_, ?_⟩
    · rw [cleared.move_other hstaged.symm (prevPath_ne_stagedFile exe paths).symm,
        hcleared _ (prevPath_ne_stagedFile exe paths).symm]
    · simp only [Pattern.act_rename haside hcurrent]
  · obtain ⟨err, hfails⟩ := Pattern.act_rename_fails haside cleared
    refine .inl ⟨haside, err, cleared, ?_, hcurrent⟩
    simp only [hfails, Script.run_pure]

theorem run_swapBinary (hrestore : p (.rename (prevPath exe) exe) = .succeeds)
    (hstranded : ¬Stranded p exe paths.stagedFile) (hstaged : exe ≠ paths.stagedFile)
    (hexe : disk exe = some original) :
    KeepsImages disk exe paths.stagedFile original ((swapBinary exe paths.stagedFile).run p.act disk) := by
  obtain ⟨-, err, cleared, heq, hkept⟩ | ⟨haside, moved, -, hprev, hnew, heq⟩ :=
    run_swapBinary_aside (p := p) hstaged hexe
  · rw [heq]
    exact hkept
  rw [heq, placeImage]
  simp only [op, Script.run_bind, Script.run_perform]
  obtain ⟨-, hsome, hmove⟩ | ⟨hcross, hsome, hmove⟩ | ⟨-, -, hmove⟩ :=
    rename_cases (p (.rename paths.stagedFile exe)) paths.stagedFile exe moved
  · obtain ⟨new, hsome⟩ := Option.isSome_iff_exists.1 hsome
    simp only [Pattern.act, hmove, Script.run_pure]
    refine ⟨new, hnew.symm.trans hsome, moved.move_target.trans hsome, ?_⟩
    rw [moved.move_other (prevPath_ne_stagedFile exe paths) (prevPath_ne exe), hprev]
  · obtain ⟨new, hsome⟩ := Option.isSome_iff_exists.1 hsome
    have hcopies : CopiesAcross p exe paths.stagedFile := by
      by_contra hnot
      exact hstranded ⟨haside, hcross, hnot⟩
    obtain ⟨hok, hholds, hothers⟩ := run_copyAcross hcopies hsome hstaged
    simp only [Pattern.act, hmove]
    rw [← Prod.eta ((copyAcross exe paths.stagedFile).run _ moved), hok]
    exact ⟨new, hnew.symm.trans hsome, hholds, (hothers _ (prevPath_ne exe) (prevPath_ne_stagedFile exe paths)
      (tmpPath_ne_prevPath exe).symm).trans hprev⟩
  · -- the arm that puts the previous image back
    have hrefused : p.act (.rename paths.stagedFile exe) moved = (.error .other, moved) := hmove
    simp only [hrefused, Script.run_bind, Script.run_perform, Pattern.act_rename hrestore hprev, Script.run_pure]
    exact moved.move_target.trans hprev

theorem run_swapBinary_stranded (h : Stranded p exe paths.stagedFile) (hstaged : exe ≠ paths.stagedFile)
    (hexe : disk exe = some original) (hnew : disk paths.stagedFile = some new) (hother : new ≠ original)
    (hleft : p (.copy paths.stagedFile (tmpPath exe)) ≠ .fails (some original)) :
    ¬KeepsImages disk exe paths.stagedFile original ((swapBinary exe paths.stagedFile).run p.act disk) := by
  obtain ⟨haside, hcross, hcopies⟩ := h
  obtain ⟨hnot, -⟩ | ⟨-, moved, hgone, -, hstays, heq⟩ := run_swapBinary_aside (p := p) hstaged hexe
  · exact absurd haside hnot
  have hmoved := hstays.trans hnew
  have hrefused : p.act (.rename paths.stagedFile exe) moved = (.error .crossesDevices, moved) := by
    simp only [Pattern.act, hcross, perform, hmoved]
  obtain ⟨err, herr, hlost⟩ := run_copyAcross_fails hcopies hmoved (by simp [hgone]) hother hleft
  rw [heq, placeImage]
  simp only [op, Script.run_bind, Script.run_perform, hrefused]
  rw [← Prod.eta ((copyAcross exe paths.stagedFile).run _ moved), herr]
  exact hlost

end

end RichPresence.Update
