import RichPresence.Update.Boot

namespace RichPresence.Update

open Lib

namespace FilePath

theorem ne_of_lastChar {a b : FilePath} (h : a.lastChar ≠ b.lastChar) : a ≠ b := fun he => h (he ▸ rfl)

theorem lastChar_append (dir : List String) (start suffix : String) (h : suffix.toList ≠ []) :
    lastChar ⟨dir, start ++ suffix⟩ = suffix.toList.getLast? := by
  rw [lastChar, String.toList_append, List.getLast?_append_of_ne_nil _ h]

end FilePath

@[simp] theorem lastChar_prevPath (exe : FilePath) : (prevPath exe).lastChar = some 'v' :=
  (FilePath.lastChar_append _ _ _ (by decide)).trans (by decide)

@[simp] theorem lastChar_tmpPath (exe : FilePath) : (tmpPath exe).lastChar = some 'p' :=
  (FilePath.lastChar_append _ _ _ (by decide)).trans (by decide)

@[simp] theorem lastChar_swapPath (exe : FilePath) : (swapPath exe).lastChar = some 'p' :=
  (FilePath.lastChar_append _ _ _ (by decide)).trans (by decide)

@[simp] theorem lastChar_stagedFile (paths : OtaPaths) : paths.stagedFile.lastChar = some 'd' := by
  rw [FilePath.lastChar, OtaPaths.stagedFile]
  dsimp only
  decide

@[simp] theorem lastChar_partFile (paths : OtaPaths) : paths.partFile.lastChar = some 't' :=
  (FilePath.lastChar_append _ _ _ (by decide)).trans (by decide)

@[simp] theorem lastChar_stateFile (paths : OtaPaths) : paths.stateFile.lastChar = some 'n' := by
  rw [FilePath.lastChar, OtaPaths.stateFile]
  dsimp only
  decide

theorem prevPath_ne (exe : FilePath) : prevPath exe ≠ exe := by
  intro h
  have hlength := congrArg (fun path : FilePath => path.name.toList.length) h
  simp [prevPath] at hlength

theorem prevPath_ne_stagedFile (exe : FilePath) (paths : OtaPaths) : prevPath exe ≠ paths.stagedFile :=
  FilePath.ne_of_lastChar (by simp)

theorem tmpPath_ne_prevPath (exe : FilePath) : tmpPath exe ≠ prevPath exe :=
  FilePath.ne_of_lastChar (by simp)

theorem swapPath_ne_prevPath (exe : FilePath) : swapPath exe ≠ prevPath exe :=
  FilePath.ne_of_lastChar (by simp)

variable {ν V : Type} {act : ν → (o : FileOp) → Disk → o.Answer × Disk} {J : Disk → Prop}

/-- The operations by which `applyPendingOnBoot` looks around and cleans up. -/
inductive Minor (paths : OtaPaths) : FileOp → Prop
  | currentExe : Minor paths .currentExe
  | readState : Minor paths (.read paths.stateFile)
  | readStaged : Minor paths (.read paths.stagedFile)
  | readonly (dir : List String) : Minor paths (.readonly dir)
  | removeStaged : Minor paths (.removeFile paths.stagedFile)
  | createDir : Minor paths (.createDir paths.dir)
  | writeState (bytes : Bytes) : Minor paths (.write paths.stateFile bytes)

theorem minor_other {paths : OtaPaths} {exe : FilePath} (hstaged : exe ≠ paths.stagedFile)
    (hstate : exe ≠ paths.stateFile) {o : FileOp} (h : Minor paths o) (v : Verdict) (disk : Disk) :
    (perform v o disk).2 exe = disk exe := by
  cases h with
  | currentExe | readonly | createDir => rfl
  | readState | readStaged => rw [read_disk]
  | removeStaged => rw [removeFile_other _ hstaged]
  | writeState bytes => rw [write_other _ _ hstate]

variable {C : Crates V} {paths : OtaPaths} {exe : FilePath} {I : Disk → Prop} {disk : Disk}

theorem op_holds {P : FileOp → Prop} (hJ : ∀ d, I d → J d) (hkept : Script.Kept act P I) {o : FileOp} (ho : P o)
    (h : I disk) : Script.Holds act J (fun _ d => I d) (op o) disk :=
  .kept hJ hkept ho h

theorem loadState_holds (hJ : ∀ d, I d → J d) (hkept : Script.Kept act (Minor paths) I) (h : I disk) :
    Script.Holds act J (fun _ d => I d) (loadState C paths) disk :=
  .bind (op_holds hJ hkept .readState h) fun _ _ _ hd => .pure (hJ _ hd) hd

theorem saveState_holds (hJ : ∀ d, I d → J d) (hkept : Script.Kept act (Minor paths) I) (state : OtaState)
    (h : I disk) : Script.Holds act J (fun _ d => I d) (saveState C paths state) disk := by
  refine .bind (op_holds hJ hkept .createDir h) fun made d _ hd => ?_
  split
  · exact op_holds hJ hkept (.writeState _) hd
  · exact .pure (hJ _ hd) hd

theorem discard_holds (hJ : ∀ d, I d → J d) (hkept : Script.Kept act (Minor paths) I) (h : I disk) :
    Script.Holds act J (fun outcome d => I d ∧ outcome = .discarded) (discard C paths) disk := by
  refine .bind (op_holds hJ hkept .removeStaged h) fun _ d _ hd => ?_
  refine .bind (saveState_holds hJ hkept {} hd) fun _ d _ hd => ?_
  exact .pure (hJ _ hd) ⟨hd, rfl⟩

/-- An install that `checkEligibility` takes for one it may replace. -/
def Eligible (exe : FilePath) : Prop :=
  isDevBuild exe = false ∧ isCargoManaged exe = false ∧ exe.fileStem = "rsrpc-cli"

theorem checkEligibility_holds (hJ : ∀ d, I d → J d) (hkept : ∀ v d, I d → I (act v (.readonly exe.dir) d).2)
    (h : I disk) :
    Script.Holds act J (fun answer d => I d ∧ (answer = .ok () → Eligible exe)) (checkEligibility exe) disk := by
  rw [checkEligibility]
  split
  next => exact .pure (hJ _ h) ⟨h, nofun⟩
  next hdev =>
    split
    next => exact .pure (hJ _ h) ⟨h, nofun⟩
    next hcargo =>
      split
      next => exact .pure (hJ _ h) ⟨h, nofun⟩
      next hstem =>
        refine .bind (R := fun _ d => I d) (.perform (hJ _ h) fun v => ⟨hJ _ (hkept v _ h), hkept v _ h⟩)
          fun readonly d _ hd => ?_
        split
        · exact .pure (hJ _ hd) ⟨hd, nofun⟩
        · exact .pure (hJ _ hd) ⟨hd, fun _ => ⟨by simpa using hdev, by simpa using hcargo, by simpa using hstem⟩⟩

/-- The rule for `applyPendingOnBoot`: an assertion that the minor operations keep and
the swap turns into another holds at the end, and an image the call reports is one it
read from the staged file. -/
theorem applyPendingOnBoot_holds [LE V] [DecidableLE V] {K : Disk → Prop} {G : Bytes → Prop}
    (hJ : ∀ d, I d → J d) (hK : ∀ d, K d → J d) (hIK : ∀ d, I d → K d)
    (hI : Script.Kept act (Minor paths) I) (hkeptK : Script.Kept act (Minor paths) K)
    (hread : ∀ v d, I d → ∀ bytes ∈ (act v (.read paths.stagedFile) d).1, G bytes)
    (hswap : Eligible exe → ∀ d, I d → Script.Holds act J (fun _ d => K d) (swapBinary exe paths.stagedFile) d)
    (applied : Bool) (h : I disk) :
    Script.Holds act J (fun outcome d => K d ∧ ∀ version image, outcome = .updated version image → G image)
      (applyPendingOnBoot C paths exe applied) disk := by
  rw [applyPendingOnBoot]
  have hdiscard (d) (hd : K d) : Script.Holds act J
      (fun outcome d => K d ∧ ∀ version image, outcome = .updated version image → G image) (discard C paths) d :=
    (discard_holds hK hkeptK hd).mono fun outcome d _ ⟨hd, ho⟩ => ⟨hd, by rw [ho]; nofun⟩
  split
  · exact .pure (hJ _ h) ⟨hIK _ h, nofun⟩
  refine .bind (op_holds hJ hI .currentExe h) fun found d _ hd => ?_
  split
  · exact .pure (hJ _ hd) ⟨hIK _ hd, nofun⟩
  refine .bind (loadState_holds hJ hI hd) fun state d _ hd => ?_
  split
  case h_2 => exact .pure (hJ _ hd) ⟨hIK _ hd, nofun⟩
  split
  case h_1 => exact hdiscard d (hIK _ hd)
  split
  case isTrue => exact hdiscard d (hIK _ hd)
  refine .bind (checkEligibility_holds hJ (fun v d => hI v _ d (.readonly _)) hd) fun answer d _ ⟨hd, heligible⟩ => ?_
  split
  case h_1 => exact hdiscard d (hIK _ hd)
  refine .bind (R := fun read d => I d ∧ ∀ bytes ∈ read, G bytes)
    (.perform (hJ _ hd) fun v => ⟨hJ _ (hI v _ d .readStaged hd), hI v _ d .readStaged hd, hread v d hd⟩)
    fun read d _ ⟨hd, hgood⟩ => ?_
  split
  case h_1 => exact hdiscard d (hIK _ hd)
  split
  case isTrue => exact hdiscard d (hIK _ hd)
  refine .bind (hswap (heligible rfl) d hd) fun swapped d _ hd => ?_
  split
  case h_1 => exact hdiscard d hd
  refine .bind (saveState_holds hK hkeptK _ hd) fun _ d _ hd => .pure (hK _ hd) ⟨hd, fun version image heq => ?_⟩
  injection heq with _ himage
  exact himage ▸ hgood _ rfl

end RichPresence.Update
