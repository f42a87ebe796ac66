import RichPresence.Update.BootRule

namespace RichPresence.Update

open Lib

variable {T : Bytes → Prop} {L : List FilePath} {disk : Disk}

/-- Where the listed files hold an image at all, it is a trusted one. -/
def Safe (T : Bytes → Prop) (L : List FilePath) (disk : Disk) : Prop := ∀ path ∈ L, ∀ image ∈ disk path, T image

namespace Safe

variable {source target : FilePath}

theorem weaken (h : Safe T (target :: L) disk) : Safe T L disk := fun path hpath => h path (.tail _ hpath)

theorem removed (h : Safe T L disk) (path : FilePath) : Safe T L (Function.update disk path none) := by
  intro other hother image himage
  by_cases he : other = path
  · rw [he, Function.update_self] at himage
    exact nomatch himage
  · rw [Function.update_of_ne he] at himage
    exact h other hother image himage

theorem updated (h : Safe T L disk) (hpath : target ∉ L) (content : Option Bytes) :
    Safe T L (Function.update disk target content) := by
  intro other hother image himage
  have hne : other ≠ target := fun he => hpath (he ▸ hother)
  rw [Function.update_of_ne hne] at himage
  exact h other hother image himage

theorem spilled (h : Safe T L disk) (hpath : target ∉ L) (left : Option Bytes) :
    Safe T L (disk.spill target left) := by
  cases left with
  | none => exact h
  | some left => exact h.updated hpath _

theorem filled (h : Safe T L disk) {content : Option Bytes} (hcontent : ∀ image ∈ content, T image) :
    Safe T (target :: L) (Function.update disk target content) := by
  intro other hother image himage
  by_cases he : other = target
  · rw [he, Function.update_self] at himage
    exact hcontent image himage
  · rw [Function.update_of_ne he] at himage
    exact h other ((List.mem_cons.1 hother).resolve_left he) image himage

theorem moved (h : Safe T L disk) (hsource : source ∈ L) : Safe T (target :: L) (disk.move source target) :=
  (h.removed source).filled (h source hsource)

theorem listed {path : FilePath} {bytes : Bytes} (h : Safe T L disk) (hpath : disk path = some bytes)
    (hbytes : T bytes) : Safe T (path :: L) disk := by
  intro other hother image himage
  obtain rfl | hother := List.mem_cons.1 hother
  · rw [hpath] at himage
    exact Option.some.inj himage ▸ hbytes
  · exact h other hother image himage

end Safe

/-- The operations that keep the listed files trusted, in all their outcomes. -/
inductive Harmless (L : List FilePath) : FileOp → Prop
  | removeFile (path : FilePath) : Harmless L (.removeFile path)
  | rename {source : FilePath} (target : FilePath) (h : source ∈ L) : Harmless L (.rename source target)
  | setPermissions (path : FilePath) : Harmless L (.setPermissions path)
  | read (path : FilePath) : Harmless L (.read path)
  | write {target : FilePath} (bytes : Bytes) (h : target ∉ L) : Harmless L (.write target bytes)
  | isFile (path : FilePath) : Harmless L (.isFile path)
  | createDir (dir : List String) : Harmless L (.createDir dir)
  | readonly (dir : List String) : Harmless L (.readonly dir)
  | currentExe : Harmless L .currentExe

theorem kept_harmless : Script.Kept perform (Harmless L) (Safe T L) := by
  intro v o d ho hd
  cases ho with
  | removeFile path =>
      cases v with
      | succeeds => exact hd.removed path
      | crosses | fails => exact hd
  | @rename source target h =>
      obtain ⟨-, -, heq⟩ | ⟨-, -, heq⟩ | ⟨-, -, heq⟩ := rename_cases v source target d
      · rw [heq]
        exact (hd.moved h).weaken
      all_goals
        rw [heq]
        exact hd
  | setPermissions path => rwa [setPermissions_disk]
  | read path => rwa [read_disk]
  | write bytes h =>
      cases v with
      | succeeds => exact hd.updated h _
      | fails left => exact hd.spilled h left
      | crosses => exact hd
  | isFile | createDir | readonly | currentExe => exact hd

theorem harmless_holds {o : FileOp} (ho : Harmless L o) (h : Safe T L disk) :
    Script.Holds perform (Safe T L) (fun _ d => Safe T L d) (op o) disk :=
  op_holds (fun _ => id) kept_harmless ho h

theorem harmless_holds_cons {o : FileOp} {extra : FilePath} (ho : Harmless (extra :: L) o)
    (h : Safe T (extra :: L) disk) :
    Script.Holds perform (Safe T L) (fun _ d => Safe T (extra :: L) d) (op o) disk :=
  op_holds (fun _ => Safe.weaken) kept_harmless ho h

theorem rename_holds {source target : FilePath} (hsource : source ∈ L) (h : Safe T L disk) :
    Script.Holds perform (Safe T L) (fun answer d => Safe T L d ∧ (answer = .ok () → Safe T (target :: L) d))
      (op (.rename source target)) disk := by
  refine .perform h fun v => ?_
  obtain ⟨-, -, heq⟩ | ⟨-, -, heq⟩ | ⟨-, -, heq⟩ := rename_cases v source target disk
  · rw [heq]
    exact ⟨(h.moved hsource).weaken, (h.moved hsource).weaken, fun _ => h.moved hsource⟩
  all_goals
    rw [heq]
    exact ⟨h, h, nofun⟩

theorem copy_holds {source target : FilePath} (hsource : source ∈ L) (htarget : target ∉ L) (h : Safe T L disk) :
    Script.Holds perform (Safe T L) (fun answer d => Safe T L d ∧ (answer = .ok () → Safe T (target :: L) d))
      (op (.copy source target)) disk := by
  refine .perform h fun v => ?_
  cases v with
  | fails left => exact ⟨h.spilled htarget left, h.spilled htarget left, by rintro ⟨⟩⟩
  | crosses => exact ⟨h, h, by rintro ⟨⟩⟩
  | succeeds =>
      cases hcontent : disk source with
      | none =>
          simp only [perform, hcontent]
          exact ⟨h, h, by rintro ⟨⟩⟩
      | some bytes =>
          have hfilled : Safe T (target :: L) (Function.update disk target (some bytes)) :=
            h.filled (hcontent ▸ h source hsource)
          simp only [perform, hcontent]
          exact ⟨hfilled.weaken, hfilled.weaken, fun _ => hfilled⟩

variable {paths : OtaPaths} {exe : FilePath}

theorem minor_harmless (hstate : paths.stateFile ∉ L) {o : FileOp} (h : Minor paths o) : Harmless L o := by
  cases h with
  | currentExe => exact .currentExe
  | readState | readStaged => exact .read _
  | readonly dir => exact .readonly dir
  | removeStaged => exact .removeFile _
  | createDir => exact .createDir _
  | writeState bytes => exact .write bytes hstate

theorem kept_minor (hstate : paths.stateFile ∉ L) : Script.Kept perform (Minor paths) (Safe T L) :=
  fun v o d ho => kept_harmless v o d (minor_harmless hstate ho)

theorem copyAcross_holds (hstaged : paths.stagedFile ∈ L) (htmp : tmpPath exe ∉ L) (h : Safe T L disk) :
    Script.Holds perform (Safe T L) (fun _ d => Safe T L d) (copyAcross exe paths.stagedFile) disk := by
  refine .bind (copy_holds hstaged htmp h) fun answer d _ ⟨hd, hcopied⟩ => ?_
  split
  · exact .pure hd hd
  refine .bind (harmless_holds_cons (.setPermissions _) (hcopied rfl)) fun answer d _ hd => ?_
  split
  · exact .pure hd.weaken hd.weaken
  refine .bind (harmless_holds_cons (.rename exe (.head _)) hd) fun answer d _ hd => ?_
  split
  · exact .pure hd.weaken hd.weaken
  refine .bind (harmless_holds_cons (.removeFile _) hd) fun _ d _ hd => ?_
  exact .pure hd.weaken hd.weaken

theorem swapBinary_holds (hexe : exe ∈ L) (hprev : prevPath exe ∈ L) (hstaged : paths.stagedFile ∈ L)
    (htmp : tmpPath exe ∉ L) (h : Safe T L disk) :
    Script.Holds perform (Safe T L) (fun _ d => Safe T L d) (swapBinary exe paths.stagedFile) disk := by
  refine .bind (harmless_holds (.removeFile _) h) fun _ d _ hd => ?_
  refine .bind (harmless_holds (.rename _ hexe) hd) fun answer d _ hd => ?_
  split
  · exact .pure hd hd
  refine .bind (harmless_holds (.rename _ hstaged) hd) fun answer d _ hd => ?_
  split
  · exact .pure hd hd
  · exact copyAcross_holds hstaged htmp hd
  · exact .bind (harmless_holds (.rename _ hprev) hd) fun _ d _ hd => .pure hd hd

theorem swapBack_holds (hexe : exe ∈ L) (hprev : prevPath exe ∈ L) (h : Safe T L disk) :
    Script.Holds perform (Safe T L) (fun _ d => Safe T L d) (swapBack exe (prevPath exe)) disk := by
  -- what an earlier call left under the name does not matter, the first rename covers it
  refine .bind (rename_holds hexe h) fun answer d _ ⟨hd, haside⟩ => ?_
  split
  · exact .pure hd hd
  refine .bind (harmless_holds_cons (.rename exe (.tail _ hprev)) (haside rfl)) fun answer d _ hd => ?_
  split
  · exact .bind (harmless_holds_cons (.rename exe (.head _)) hd) fun _ d _ hd => .pure hd.weaken hd.weaken
  · exact (harmless_holds_cons (.rename _ (.head _)) hd).mono fun _ d _ hd => hd.weaken

end RichPresence.Update
