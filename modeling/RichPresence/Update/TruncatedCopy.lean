import RichPresence.Update.NeverBricks
import RichPresence.Update.SignedImages

namespace RichPresence.Update

open Lib

section SmoothRuns

def smooth : Pattern := fun _ => .succeeds

variable {V : Type} {C : Crates V} {paths : OtaPaths} {exe : FilePath} {disk : Disk} {body : Bytes}

def stagedState (C : Crates V) (version : V) (body : Bytes) : OtaState :=
  ⟨some (C.versionText version), some (C.sha256Hex body), some (C.versionText version)⟩

def staged (C : Crates V) (paths : OtaPaths) (version : V) (body : Bytes) (disk : Disk) : Disk :=
  Function.update (Disk.move (Function.update disk paths.partFile (some body)) paths.partFile paths.stagedFile)
    paths.stateFile (some (C.encodeState (stagedState C version body)))

theorem staged_stagedFile (version : V) : staged C paths version body disk paths.stagedFile = some body := by
  rw [staged, Function.update_of_ne (FilePath.ne_of_lastChar (by simp)), Disk.move_target, Function.update_self]

theorem staged_stateFile (version : V) :
    staged C paths version body disk paths.stateFile = some (C.encodeState (stagedState C version body)) :=
  Function.update_self ..

theorem staged_other (version : V) (hpart : exe ≠ paths.partFile) (hstaged : exe ≠ paths.stagedFile)
    (hstate : exe ≠ paths.stateFile) : staged C paths version body disk exe = disk exe := by
  rw [staged, Function.update_of_ne hstate, Disk.move_other _ hpart hstaged, Function.update_of_ne hpart]

theorem run_checkEligibility {p : Pattern} (h : Eligible exe) (hp : p (.readonly exe.dir) = .succeeds) :
    (checkEligibility exe).run p.act disk = (.ok (), disk) := by
  obtain ⟨hdev, hcargo, hstem⟩ := h
  rw [checkEligibility]
  simp only [hdev, Bool.false_eq_true, if_false, hcargo, hstem, ne_eq, not_true_eq_false, op, Script.run_bind,
    Script.run_perform, Pattern.act, hp, perform]
  rfl

theorem run_stageBinary (update : Available V) :
    (stageBinary C paths update (C.sha256Hex body) body).run smooth.act disk =
      (.ok update.latest, staged C paths update.latest body disk) := by
  rw [stageBinary]
  have hpart : Function.update disk paths.partFile (some body) paths.partFile = some body := Function.update_self ..
  have hdownload : smooth.act (.download paths.partFile body) disk =
      (true, Function.update disk paths.partFile (some body)) := rfl
  simp only [op, Script.run_bind, Script.run_perform, hdownload, Bool.not_true, Bool.false_eq_true, if_false, ne_eq,
    not_true_eq_false, Pattern.act_setPermissions (p := smooth) rfl hpart, Pattern.act_rename (p := smooth) rfl hpart,
    saveState]
  rfl

theorem run_cmdStage [LE V] [DecidableLE V] {server : Server} {version : V} (h : Offers C server version body)
    (heligible : Eligible exe) :
    (cmdStage C paths server exe true none).run smooth.act disk =
      (.ok (some version), staged C paths version body disk) := by
  obtain ⟨update, hcheck, rfl, hdigest, hbody⟩ := offers_iff.1 h
  have hfound : smooth.act .currentExe disk = (true, disk) := rfl
  have hmade : smooth.act (.createDir paths.dir) disk = (true, disk) := rfl
  rw [cmdStage, hcheck]
  simp only [Bool.not_true, Bool.false_and, Bool.false_eq_true, if_false, op, Script.run_bind, Script.run_perform,
    hfound, stage, run_checkEligibility heligible (p := smooth) rfl, hmade, hdigest, hbody, run_stageBinary,
    Script.run_pure]

theorem run_swapBinary_smooth {original : Bytes} (hne : exe ≠ paths.stagedFile) (hexe : disk exe = some original)
    (hstaged : disk paths.stagedFile = some body) :
    ((swapBinary exe paths.stagedFile).run smooth.act disk).1 = .ok () := by
  obtain ⟨hnot, -⟩ | ⟨-, moved, -, -, hstays, heq⟩ := run_swapBinary_aside (p := smooth) hne hexe
  · exact absurd rfl hnot
  · rw [heq]
    simp only [placeImage, op, Script.run_bind, Script.run_perform,
      Pattern.act_rename (p := smooth) rfl (hstays.trans hstaged), Script.run_pure]

theorem Eligible.ne_stateFile (h : Eligible exe) : exe ≠ paths.stateFile := by
  rintro rfl
  exact absurd h.2.2 (show (⟨[], "ota.json"⟩ : FilePath).fileStem ≠ "rsrpc-cli" by decide)

variable [LE V] [DecidableLE V]

theorem run_applyPendingOnBoot {p : Pattern} {version : V} {bytes : Bytes}
    (hfound : p .currentExe = .succeeds) (hread : p (.read paths.stateFile) = .succeeds)
    (hwritable : p (.readonly exe.dir) = .succeeds) (hreadStaged : p (.read paths.stagedFile) = .succeeds)
    (hstate : disk paths.stateFile = some bytes) (hdecode : C.decodeState bytes = some (stagedState C version body))
    (hversion : C.parseVersion (C.versionText version) = some version) (hnewer : ¬version ≤ C.currentVersion)
    (heligible : Eligible exe) (hstaged : disk paths.stagedFile = some body) :
    (applyPendingOnBoot C paths exe false).run p.act disk =
      match (swapBinary exe paths.stagedFile).run p.act disk with
      | (.error _, after) => (discard C paths).run p.act after
      | (.ok (), after) => (.updated version body,
          ((saveState C paths { latestSeen := some (C.versionText version) }).run p.act after).2) := by
  have hexe : p.act .currentExe disk = (true, disk) := by simp only [Pattern.act, hfound, perform]
  have hloaded : (loadState C paths).run p.act disk = (stagedState C version body, disk) := by
    simp only [loadState, op, Script.run_bind, Script.run_perform, Pattern.act, hread, perform, hstate,
      Option.bind_some, hdecode, Option.getD_some, Script.run_pure]
  have hbody : p.act (.read paths.stagedFile) disk = (some body, disk) := by
    simp only [Pattern.act, hreadStaged, perform, hstaged]
  rw [applyPendingOnBoot]
  simp only [Bool.false_eq_true, if_false, op, Script.run_bind, Script.run_perform, hexe, Bool.not_true, hloaded,
    stagedState, hversion, hnewer, run_checkEligibility heligible hwritable, hbody, ne_eq, not_true_eq_false]
  generalize (swapBinary exe paths.stagedFile).run p.act disk = result
  obtain ⟨_ | _, after⟩ := result
  · rfl
  · exact Script.run_bind p.act _ _ after

end SmoothRuns

section TruncatedCopy

/-- The image has to be copied, and the copy breaks off. -/
def breaksOff (paths : OtaPaths) (left : Bytes) : Pattern
  | .rename source _ => if source = paths.stagedFile then .crosses else .succeeds
  | .copy _ _ => .fails (some left)
  | _ => .succeeds

variable {paths : OtaPaths} {exe : FilePath} {disk : Disk} {original body : Bytes}

namespace Clash

theorem eligible (h : Clash exe) : Eligible exe := by
  refine ⟨h.2.1, h.2.2, ?_⟩
  rw [FilePath.fileStem, h.1]
  decide

theorem tmpPath_eq (h : Clash exe) : tmpPath exe = exe := by
  have hname : exe.name = "rsrpc-cli.ota-tmp" := h.1
  rw [tmpPath, FilePath.withExtension, h.eligible.2.2]
  obtain ⟨dir, name⟩ := exe
  dsimp only at hname ⊢
  rw [hname]
  congr

theorem lastChar_eq (h : Clash exe) : exe.lastChar = some 'p' := by rw [← h.tmpPath_eq, lastChar_tmpPath]

theorem run_swapBinary (h : Clash exe) (hexe : disk exe = some original) (hstaged : disk paths.stagedFile = some body)
    (left : Bytes) :
    ∃ after, (swapBinary exe paths.stagedFile).run (breaksOff paths left).act disk = (.error .other, after) ∧
      after exe = some left := by
  have hne : exe ≠ paths.stagedFile := FilePath.ne_of_lastChar (by rw [h.lastChar_eq]; simp)
  obtain ⟨hnot, -⟩ | ⟨-, moved, -, -, hstays, heq⟩ := run_swapBinary_aside (p := breaksOff paths left) hne hexe
  · exact absurd (if_neg hne) hnot
  · have hrefused : (breaksOff paths left).act (.rename paths.stagedFile exe) moved =
        (.error .crossesDevices, moved) := by
      simp only [Pattern.act, breaksOff, if_true, perform, hstays.trans hstaged]
    have hcopy : (breaksOff paths left).act (.copy paths.stagedFile (tmpPath exe)) moved =
        (.error .other, moved.spill exe (some left)) := by
      rw [h.tmpPath_eq]
      rfl
    refine ⟨moved.spill exe (some left), ?_, Function.update_self ..⟩
    rw [heq]
    simp only [placeImage, op, Script.run_bind, Script.run_perform, hrefused, copyAcross, hcopy, Script.run_pure]

end Clash

variable {V : Type} {C : Crates V} [LE V] [DecidableLE V]

theorem exists_stage_session (paths : OtaPaths) {server : Server} {v version : V}
    (hoffer : Offers (C.running v) server version body) (heligible : Eligible exe) (disk : Disk) :
    ∃ session : Session V, session.step C paths exe disk = staged C paths version body disk := by
  obtain ⟨verdicts, hrun⟩ := Script.exists_attempt_eq_run perform smooth
    (cmdStage (C.running v) paths server exe true none) disk
  refine ⟨.stage v server true none verdicts, ?_⟩
  have heq : ((cmdStage (C.running v) paths server exe true none).run smooth.act disk) =
      (.ok (some version), staged (C.running v) paths version body disk) := run_cmdStage hoffer heligible
  rw [Session.step, hrun]
  exact congrArg Prod.snd heq

theorem Clash.exists_boot_session (h : Clash exe) (paths : OtaPaths) {v version : V} (hnewer : ¬version ≤ v)
    (hversion : C.parseVersion (C.versionText version) = some version)
    (hsaved : C.decodeState (C.encodeState (stagedState C version body)) = some (stagedState C version body))
    (hexe : disk exe = some original) (left : Bytes) :
    ∃ session : Session V, session.step C paths exe (staged C paths version body disk) exe = some left := by
  have hpart : exe ≠ paths.partFile := FilePath.ne_of_lastChar (by rw [h.lastChar_eq]; simp)
  have hstaged : exe ≠ paths.stagedFile := FilePath.ne_of_lastChar (by rw [h.lastChar_eq]; simp)
  have hstate : exe ≠ paths.stateFile := FilePath.ne_of_lastChar (by rw [h.lastChar_eq]; simp)
  have hbody : staged C paths version body disk paths.stagedFile = some body := staged_stagedFile version
  obtain ⟨after, hswap, hleft⟩ := h.run_swapBinary ((staged_other version hpart hstaged hstate).trans hexe) hbody left
  obtain ⟨verdicts, hrun⟩ := Script.exists_attempt_eq_run perform (breaksOff paths left)
    (applyPendingOnBoot (C.running v) paths exe false) (staged C paths version body disk)
  refine ⟨.boot v false verdicts, ?_⟩
  have heq : (applyPendingOnBoot (C.running v) paths exe false).run (breaksOff paths left).act
        (staged C paths version body disk) = (discard (C.running v) paths).run (breaksOff paths left).act after := by
    rw [run_applyPendingOnBoot (C := C.running v) (p := breaksOff paths left) rfl rfl rfl rfl
      (staged_stateFile version) hsaved hversion hnewer h.eligible hbody, hswap]
  have hkept : Script.Kept (fun _ : Unit => (breaksOff paths left).act) (Minor paths) fun d => d exe = some left :=
    fun _ o d ho hd => (minor_other hstaged hstate ho _ d).trans hd
  have hdiscard := (discard_holds (C := C.running v) (J := fun _ => True) (fun _ _ => trivial) hkept hleft).run.1
  rw [Session.step, hrun]
  exact (congrArg (fun result : BootOutcome V × Disk => result.2 exe) heq).trans hdiscard

/-- Some server can offer an update, and not every image is listed. -/
def Updatable (C : Crates V) : Prop :=
  (∃ v server version body, Offers (C.running v) server version body ∧
    C.parseVersion (C.versionText version) = some version ∧
    C.decodeState (C.encodeState (stagedState C version body)) = some (stagedState C version body)) ∧
  ∃ left, ¬Listed C left

theorem fresh_single (original : Bytes) (hprev : prevPath exe ≠ exe) (hstate : paths.stateFile ≠ exe)
    (hstaged : paths.stagedFile ≠ exe) (hpart : paths.partFile ≠ exe) :
    Fresh paths exe original (Function.update (fun _ => none) exe (some original)) where
  installed := Function.update_self ..
  noPrev := Function.update_of_ne hprev _ _
  noState := Function.update_of_ne hstate _ _
  noStaged := Function.update_of_ne hstaged _ _
  noPart := Function.update_of_ne hpart _ _

theorem Clash.not_onlySigned (h : Clash exe) (hupdatable : Updatable C) : ¬OnlySigned C paths exe := by
  obtain ⟨⟨v, server, version, body, hoffer, hversion, hsaved⟩, left, hleft⟩ := hupdatable
  intro hsigned
  have hne {path : FilePath} (hpath : path.lastChar ≠ some 'p') : path ≠ exe :=
    FilePath.ne_of_lastChar (by rwa [h.lastChar_eq])
  have hfresh : Fresh paths exe (0 :: left) (Function.update (fun _ => none) exe (some (0 :: left))) :=
    fresh_single _ (prevPath_ne exe) (hne (by simp)) (hne (by simp)) (hne (by simp))
  obtain ⟨stage, hstage⟩ := exists_stage_session paths hoffer h.eligible
    (Function.update (fun _ => none) exe (some (0 :: left)))
  obtain ⟨boot, hboot⟩ := h.exists_boot_session paths hoffer.newer hversion hsaved hfresh.installed left
  have hruns : [stage, boot].foldl (Session.step C paths exe) (Function.update (fun _ => none) exe (some (0 :: left)))
      exe = some left := by
    rw [List.foldl_cons, List.foldl_cons, List.foldl_nil, hstage, hboot]
  obtain heq | hlisted := hsigned _ _ hfresh [stage, boot] left hruns
  · exact List.cons_ne_self 0 left heq.symm
  · exact hleft hlisted

/-- Only signed images are ever installed, unless the executable has the name of the
file that an image is copied through: there a copy that breaks off stays. -/
theorem only_signed_images :
    (¬Clash exe → OnlySigned C paths exe) ∧ (Updatable C → OnlySigned C paths exe → ¬Clash exe) :=
  ⟨onlySigned_of_not_clash, fun hupdatable hsigned hclash => hclash.not_onlySigned hupdatable hsigned⟩

def sampleAssets : List Asset :=
  ["SHA256SUMS.txt", "SHA256SUMS.txt.minisig", "rsrpc-cli-x86_64-unknown-linux-gnu"].map fun name => ⟨name, name⟩

/-- A release under a tag of its own choice, with the one signed manifest and the binary
it lists. -/
def sampleServer : Server where
  release := some (.object [("tag_name", .string "v111"), ("assets", .array (sampleAssets.map fun asset =>
    .object [("name", .string asset.name), ("browser_download_url", .string asset.url)]))])
  downloads := { manifest := fun _ => some sampleManifest
                 signature := fun _ => some "signed".toUTF8.data.toList
                 binary := fun _ => some [2, 2] }

theorem sample_text : String.fromUTF8? ⟨sampleManifest.toArray⟩ = some sampleText := by decide +kernel

theorem sample_listed :
    listedDigest sampleText (assetName "x86_64-unknown-linux-gnu") = some (sampleDigest 99) := by decide +kernel

theorem sample_offers : Offers sampleCrates sampleServer 3 [2, 2] := by
  have hrelease : parseRelease sampleCrates (sampleServer.release.getD .null) = some ⟨3, "v111", sampleAssets⟩ := by
    decide +kernel
  have hsig : String.fromUTF8? ⟨"signed".toUTF8.data.toList.toArray⟩ = some "signed" := by decide +kernel
  have hasset : selectAsset ⟨3, "v111", sampleAssets⟩ (assetName "x86_64-unknown-linux-gnu") =
      some ⟨"rsrpc-cli-x86_64-unknown-linux-gnu", "rsrpc-cli-x86_64-unknown-linux-gnu"⟩ := by decide +kernel
  have hsums : selectAsset ⟨3, "v111", sampleAssets⟩ "SHA256SUMS.txt" =
      some ⟨"SHA256SUMS.txt", "SHA256SUMS.txt"⟩ := by decide +kernel
  have hminisig : selectAsset ⟨3, "v111", sampleAssets⟩ "SHA256SUMS.txt.minisig" =
      some ⟨"SHA256SUMS.txt.minisig", "SHA256SUMS.txt.minisig"⟩ := by decide +kernel
  exact .mk rfl rfl hrelease (by decide) hasset hsums hminisig rfl rfl hsig (by decide +kernel) sample_text
    sample_listed rfl

theorem sample_not_listed : ¬Listed sampleCrates [2] := by
  rintro ⟨triple, htriple, manifest, sig, text, hverified, htext, hlisted⟩
  obtain rfl : "x86_64-unknown-linux-gnu" = triple := Option.some.inj htriple
  have hmanifest : manifest = sampleManifest := of_decide_eq_true (Bool.and_eq_true_iff.1 hverified).1
  rw [hmanifest, sample_text] at htext
  rw [← Option.some.inj htext, sample_listed] at hlisted
  exact absurd (Option.some.inj hlisted) (by decide +kernel)

def clashingExe : FilePath := ⟨["home", "bin"], "rsrpc-cli.ota-tmp"⟩

theorem sample_only_signed :
    OnlySigned sampleCrates samplePaths sampleExe ∧ ¬OnlySigned sampleCrates samplePaths clashingExe := by
  have hsaved : sampleCrates.decodeState (sampleCrates.encodeState (stagedState sampleCrates 3 [2, 2])) =
      some (stagedState sampleCrates 3 [2, 2]) := by decide +kernel
  have hupdatable : Updatable sampleCrates :=
    ⟨⟨2, sampleServer, 3, [2, 2], sample_offers, by decide +kernel, hsaved⟩, [2], sample_not_listed⟩
  refine ⟨only_signed_images.1 ?_, fun hsigned => only_signed_images.2 hupdatable hsigned ?_⟩
  · rw [Clash]
    decide +kernel
  · rw [Clash]
    decide +kernel

theorem truncated_copy_installed :
    let disk : Disk := Function.update (fun _ => none) clashingExe (some [1])
    let sessions : List (Session Nat) := [.stage 2 sampleServer true none (List.replicate 8 .succeeds),
      .boot 2 false (List.replicate 6 .succeeds ++ [.crosses, .fails (some [2])])]
    Fresh samplePaths clashingExe [1] disk ∧
      sessions.foldl (Session.step sampleCrates samplePaths clashingExe) disk clashingExe = some [2] ∧
      ¬Listed sampleCrates [2] := by
  refine ⟨⟨?_, ?_, ?_, ?_, ?_⟩, ?_, sample_not_listed⟩ <;> decide +kernel

end TruncatedCopy

end RichPresence.Update
