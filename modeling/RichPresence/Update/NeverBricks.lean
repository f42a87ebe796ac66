import RichPresence.Update.FailedSwap

namespace RichPresence.Update

open Lib

section

variable {p : Pattern} {exe : FilePath} {disk : Disk} {current previous : Bytes}

theorem run_swapBack_fails (hrestore : p (.rename (swapPath exe) exe) = .succeeds) (hexe : disk exe = some current)
    (hprev : disk (prevPath exe) = some previous) {err : IoError}
    (h : ((swapBack exe (prevPath exe)).run p.act disk).1 = .error err) :
    ((swapBack exe (prevPath exe)).run p.act disk).2 exe = some current ∨
      ((swapBack exe (prevPath exe)).run p.act disk).2 exe = some previous := by
  rw [swapBack] at h ⊢
  simp only [op, Script.run_bind, Script.run_perform] at h ⊢
  by_cases haside : p (.rename exe (swapPath exe)) = .succeeds
  case neg =>
    obtain ⟨err, hfails⟩ := Pattern.act_rename_fails haside disk
    simp only [hfails, Script.run_pure]
    exact .inl hexe
  simp only [Pattern.act_rename haside hexe, Script.run_bind, Script.run_perform] at h ⊢
  have hswap : disk.move exe (swapPath exe) (swapPath exe) = some current := disk.move_target.trans hexe
  have hother : disk.move exe (swapPath exe) (prevPath exe) = some previous :=
    (disk.move_other (prevPath_ne exe) (swapPath_ne_prevPath exe).symm).trans hprev
  generalize disk.move exe (swapPath exe) = moved at hswap hother h ⊢
  by_cases hback : p (.rename (prevPath exe) exe) = .succeeds
  · simp only [Pattern.act_rename hback hother, Script.run_perform] at h ⊢
    obtain ⟨-, -, hlast⟩ | ⟨-, -, hlast⟩ | ⟨-, -, hlast⟩ := rename_cases (p (.rename (swapPath exe) (prevPath exe)))
      (swapPath exe) (prevPath exe) (moved.move (prevPath exe) exe)
    · simp only [Pattern.act, hlast] at h
      cases h
    all_goals
      simp only [Pattern.act, hlast]
      exact .inr (moved.move_target.trans hother)
  · obtain ⟨err, hfails⟩ := Pattern.act_rename_fails hback moved
    simp only [hfails, Script.run_bind, Script.run_perform, Pattern.act_rename hrestore hswap, Script.run_pure]
    exact .inl (moved.move_target.trans hswap)

theorem run_swapBack_ok (h : ((swapBack exe (prevPath exe)).run p.act disk).1 = .ok ()) :
    (disk exe).isSome ∧ ((swapBack exe (prevPath exe)).run p.act disk).2 =
      ((disk.move exe (swapPath exe)).move (prevPath exe) exe).move (swapPath exe) (prevPath exe) := by
  rw [swapBack] at h ⊢
  simp only [op, Script.run_bind, Script.run_perform] at h ⊢
  cases hfirst : (p.act (.rename exe (swapPath exe)) disk).1 with
  | error err =>
      simp only [hfirst, Script.run_pure] at h
      cases h
  | ok =>
    obtain ⟨hsome, haside⟩ := Pattern.act_rename_ok hfirst
    simp only [haside, Script.run_bind, Script.run_perform] at h ⊢
    cases hsecond : (p.act (.rename (prevPath exe) exe) (disk.move exe (swapPath exe))).1 with
    | error err =>
        simp only [hsecond, Script.run_bind, Script.run_pure] at h
        cases h
    | ok =>
        simp only [(Pattern.act_rename_ok hsecond).2, Script.run_perform] at h ⊢
        exact ⟨hsome, by rw [(Pattern.act_rename_ok h).2]⟩

theorem run_swapBack_exchanges (he : exe ≠ swapPath exe)
    (h : ((swapBack exe (prevPath exe)).run p.act disk).1 = .ok ()) :
    ((swapBack exe (prevPath exe)).run p.act disk).2 exe = disk (prevPath exe) ∧
      ((swapBack exe (prevPath exe)).run p.act disk).2 (prevPath exe) = disk exe := by
  have hprev := prevPath_ne exe
  have hswap := swapPath_ne_prevPath exe
  rw [(run_swapBack_ok h).2]
  constructor
  · rw [Disk.move_other _ he hprev.symm, Disk.move_target, Disk.move_other _ hprev hswap.symm]
  · rw [Disk.move_target, Disk.move_other _ hswap he.symm, Disk.move_target]

/-- Two calls that succeed bring both images back. The executable cannot have the name
of the file that the images are exchanged through: the first call would lose it. -/
theorem run_swapBack_twice {q : Pattern} (h : ((swapBack exe (prevPath exe)).run p.act disk).1 = .ok ())
    (h' : ((swapBack exe (prevPath exe)).run q.act ((swapBack exe (prevPath exe)).run p.act disk).2).1 = .ok ()) :
    ((swapBack exe (prevPath exe)).run q.act ((swapBack exe (prevPath exe)).run p.act disk).2).2 exe = disk exe ∧
      ((swapBack exe (prevPath exe)).run q.act ((swapBack exe (prevPath exe)).run p.act disk).2).2 (prevPath exe) =
        disk (prevPath exe) := by
  by_cases he : exe = swapPath exe
  · have hsome := (run_swapBack_ok h').1
    rw [(run_swapBack_ok h).2, ← he, Disk.move_source _ (prevPath_ne exe).symm] at hsome
    exact nomatch hsome
  · rw [(run_swapBack_exchanges he h').1, (run_swapBack_exchanges he h').2]
    exact (run_swapBack_exchanges he h).symm

end

section

variable {V : Type} [LE V] [DecidableLE V] (C : Crates V) {paths : OtaPaths} {p : Pattern} {exe : FilePath}
  {disk : Disk}

theorem minor_isSome (hstaged : exe ≠ paths.stagedFile) :
    Script.Kept (fun _ : Unit => p.act) (Minor paths) fun d => (d exe).isSome := by
  intro _ o d ho hd
  cases ho with
  | currentExe | readonly | createDir => exact hd
  | readState | readStaged => exact (congrArg (fun d' : Disk => (d' exe).isSome) (read_disk _ _ d)).trans hd
  | removeStaged => exact (congrArg Option.isSome (removeFile_other _ hstaged d)).trans hd
  | writeState bytes => exact write_isSome _ _ _ hd

theorem run_applyPendingOnBoot_isSome (hrestore : p (.rename (prevPath exe) exe) = .succeeds)
    (hstranded : ¬Stranded p exe paths.stagedFile) (hstaged : exe ≠ paths.stagedFile) (applied : Bool)
    (h : (disk exe).isSome) : (((applyPendingOnBoot C paths exe applied).run p.act disk).2 exe).isSome := by
  have hkept := minor_isSome (p := p) hstaged
  refine (applyPendingOnBoot_holds (J := fun _ => True) (G := fun _ => True) (fun _ _ => trivial) (fun _ _ => trivial)
    (fun _ => id) hkept hkept (fun _ _ _ _ _ => trivial) (fun _ d hd => ?_) applied h).run.1
  obtain ⟨original, horiginal⟩ := Option.isSome_iff_exists.1 hd
  have hswap := run_swapBinary hrestore hstranded hstaged horiginal
  refine .of_run ?_
  generalize (swapBinary exe paths.stagedFile).run p.act d = result at hswap ⊢
  obtain ⟨_ | _, after⟩ := result
  · exact Option.isSome_of_eq_some hswap
  · obtain ⟨new, -, hholds, -⟩ := hswap
    exact Option.isSome_of_eq_some hholds

end

/-- No failed file operation leaves an install without its image. The patterns are those
of a swap, of two calls of `swapBack` in a row, and of a boot. -/
structure NeverBricks {V : Type} [LE V] [DecidableLE V] (C : Crates V) (paths : OtaPaths) (exe : FilePath)
    (p q q' : Pattern) : Prop where
  swapped : ∀ disk original, disk exe = some original →
    KeepsImages disk exe paths.stagedFile original ((swapBinary exe paths.stagedFile).run p.act disk)
  rolledBack : ∀ disk current previous err, disk exe = some current → disk (prevPath exe) = some previous →
    ((swapBack exe (prevPath exe)).run q.act disk).1 = .error err →
    ((swapBack exe (prevPath exe)).run q.act disk).2 exe = some current ∨
      ((swapBack exe (prevPath exe)).run q.act disk).2 exe = some previous
  restored : ∀ disk : Disk, (disk exe).isSome → (disk (prevPath exe)).isSome →
    let (answer, between) := (swapBack exe (prevPath exe)).run q.act disk
    let (answer', after) := (swapBack exe (prevPath exe)).run q'.act between
    answer = .ok () → answer' = .ok () → after exe = disk exe ∧ after (prevPath exe) = disk (prevPath exe)
  booted : ∀ disk applied, (disk exe).isSome →
    (((applyPendingOnBoot C paths exe applied).run p.act disk).2 exe).isSome

/-- An image other than what a failed copy leaves behind. -/
def untouched (p : Pattern) (exe newImage : FilePath) : Bytes :=
  match p (.copy newImage (tmpPath exe)) with
  | .fails (some left) => 0 :: left
  | _ => [0]

theorem untouched_ne_left (p : Pattern) (exe newImage : FilePath) :
    p (.copy newImage (tmpPath exe)) ≠ .fails (some (untouched p exe newImage)) := by
  rw [untouched]
  split
  next left hleft =>
    rw [hleft]
    simp
  next hnone => exact fun h => hnone _ h

section

variable {V : Type} [LE V] [DecidableLE V] (C : Crates V) {paths : OtaPaths} {exe : FilePath} {p q q' : Pattern}

theorem not_stranded_of_swapped (hstaged : exe ≠ paths.stagedFile)
    (h : ∀ disk original, disk exe = some original →
      KeepsImages disk exe paths.stagedFile original ((swapBinary exe paths.stagedFile).run p.act disk)) :
    ¬Stranded p exe paths.stagedFile := by
  intro hstranded
  let disk : Disk := Function.update (Function.update (fun _ => none) paths.stagedFile (some [1])) exe
    (some (untouched p exe paths.stagedFile))
  have hexe : disk exe = some (untouched p exe paths.stagedFile) := Function.update_self ..
  have hnew : disk paths.stagedFile = some [1] :=
    (Function.update_of_ne hstaged.symm _ _).trans (Function.update_self ..)
  refine run_swapBinary_stranded hstranded hstaged hexe hnew ?_ (untouched_ne_left p exe paths.stagedFile)
    (h disk _ hexe)
  rw [untouched]
  split <;> simp

/-- The install survives every failure of the swap but one: when the staged image is on
another filesystem, the previous image is moved aside and the copy then fails. -/
theorem never_bricks_iff (hstaged : exe ≠ paths.stagedFile)
    (hp : p (.rename (prevPath exe) exe) = .succeeds) (hq : q (.rename (swapPath exe) exe) = .succeeds) :
    NeverBricks C paths exe p q q' ↔ ¬Stranded p exe paths.stagedFile := by
  constructor
  · exact fun h => not_stranded_of_swapped hstaged h.swapped
  · intro hstranded
    exact {
      swapped := fun disk original hexe => run_swapBinary hp hstranded hstaged hexe
      rolledBack := fun disk current previous err hexe hprev => run_swapBack_fails hq hexe hprev
      restored := fun disk _ _ hfirst hsecond => run_swapBack_twice hfirst hsecond
      booted := fun disk applied hexe => run_applyPendingOnBoot_isSome C hp hstranded hstaged applied hexe }

end

def sampleDigest (letter : Nat) : String := String.ofList (List.replicate 64 (Char.ofNat letter))

def sampleVersion (n : Nat) : String := String.ofList (List.replicate n '1')

def sampleText : String := sampleDigest 99 ++ "  rsrpc-cli-x86_64-unknown-linux-gnu\n"

def sampleManifest : Bytes := sampleText.toUTF8.data.toList

/-- Versions are counted, and a digest only tells the length of an image. -/
def sampleCrates : Crates Nat where
  parseVersion text := some text.toList.length
  versionText := sampleVersion
  sha256Hex bytes := sampleDigest (97 + bytes.length % 6)
  verifySignature manifest signature := manifest = sampleManifest && signature = "signed"
  encodeState
    | ⟨some version, some sha256, _⟩ => UInt8.ofNat (sha256.toList.headD 'a').toNat :: version.toList.map fun _ => 49
    | _ => []
  decodeState
    | letter :: version =>
        some ⟨sampleVersion version.length, sampleDigest letter.toNat, sampleVersion version.length⟩
    | [] => none
  currentVersion := 2
  targetTriple := some "x86_64-unknown-linux-gnu"
  platform := "x86_64-linux"

def sampleExe : FilePath := ⟨["home", "bin"], "rsrpc-cli"⟩

def samplePaths : OtaPaths := ⟨["cache", "rsrpc", "ota"]⟩

/-- The OTA directory is on another filesystem than the install. -/
def apart : Pattern
  | .rename source _ => if source = samplePaths.stagedFile then .crosses else .succeeds
  | _ => .succeeds

def apartAndFull : Pattern
  | .copy _ _ => .fails (some [])
  | o => apart o

theorem apart_never_bricks : NeverBricks sampleCrates samplePaths sampleExe apart apart apart :=
  (never_bricks_iff sampleCrates (by decide +kernel) (by decide +kernel) (by decide +kernel)).2
    fun h => h.2.2 (by rw [CopiesAcross]; decide +kernel)

theorem full_disk_strands_install :
    let disk : Disk := Function.update (Function.update (fun _ => none) sampleExe (some [1])) samplePaths.stagedFile
      (some [2, 2])
    let (answer, after) := (swapBinary sampleExe samplePaths.stagedFile).run apartAndFull.act disk
    apartAndFull (.rename (prevPath sampleExe) sampleExe) = .succeeds ∧ answer = .error .other ∧
      after sampleExe = none ∧ after (prevPath sampleExe) = some [1] := by
  decide +kernel

end RichPresence.Update
