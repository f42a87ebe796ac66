import RichPresence.Update.TruncatedCopy

namespace RichPresence.Update

open Lib

variable {V : Type} [LE V] (C : Crates V) (paths : OtaPaths) (exe : FilePath) (published : V → Bytes → Prop)
  (server : Server)

/-- The image was published as a release that is not newer than the running version. -/
def Outdated (image : Bytes) : Prop := ∃ version, published version image ∧ version ≤ C.currentVersion

/-- The server offers an outdated release as an update. Its manifest was signed when it
was published, and the tag is not part of what was signed. -/
def Replay : Prop := ∃ version body, Offers C server version body ∧ Outdated C published body

structure RoundTrips : Prop where
  version : ∀ version, C.parseVersion (C.versionText version) = some version
  state : ∀ version body,
    C.decodeState (C.encodeState (stagedState C version body)) = some (stagedState C version body)

variable [DecidableLE V]

/-- What `applyPendingOnBoot` installs after `cmdStage` is not an outdated release. -/
def NoDowngrade : Prop :=
  ∀ disk : Disk, (∀ image ∈ disk paths.stagedFile, ¬Outdated C published image) →
    ∀ yes answer applied verdicts verdicts' version image,
      ((applyPendingOnBoot C paths exe applied).attempt perform verdicts'
        ((cmdStage C paths server exe yes answer).attempt perform verdicts disk).2).1 =
          some (.updated version image) →
      ¬Outdated C published image

variable {C paths exe published server}

theorem read_mem {v : Verdict} {path : FilePath} {disk : Disk} {bytes : Bytes}
    (h : bytes ∈ (perform v (.read path) disk).1) : bytes ∈ disk path := by
  cases v with
  | succeeds => exact h
  | crosses | fails => exact nomatch h

theorem noDowngrade_of_not_replay (h : ¬Replay C published server) : NoDowngrade C paths exe published server := by
  intro disk hbefore yes answer applied verdicts verdicts' version image
  have hstate : paths.stateFile ∉ [paths.stagedFile] := by
    rw [List.mem_singleton]
    exact FilePath.ne_of_lastChar (by simp)
  have hpart : paths.partFile ∉ [paths.stagedFile] := by
    rw [List.mem_singleton]
    exact FilePath.ne_of_lastChar (by simp)
  have hdisk : Safe (fun image => ¬Outdated C published image) [paths.stagedFile] disk := by
    intro path hpath
    rw [List.mem_singleton.1 hpath]
    exact hbefore
  have hstage : Script.Holds perform _
      (fun _ d => Safe (fun image => ¬Outdated C published image) [paths.stagedFile] d)
      (cmdStage C paths server exe yes answer) disk :=
    cmdStage_holds hpart hstate yes answer (fun version body hoffer hold => h ⟨version, body, hoffer, hold⟩) hdisk
  have hkept := kept_minor (T := fun image => ¬Outdated C published image) hstate
  have hboot : Script.Holds perform (fun _ => True)
      (fun outcome _ => True ∧ ∀ version image, outcome = .updated version image → ¬Outdated C published image)
      (applyPendingOnBoot C paths exe applied)
      ((cmdStage C paths server exe yes answer).attempt perform verdicts disk).2 :=
    applyPendingOnBoot_holds (fun _ _ => trivial) (fun _ _ => trivial) (fun _ _ => trivial) hkept
      (fun _ _ _ _ _ => trivial) (fun v d hd bytes hbytes => hd _ (.head _) bytes (read_mem hbytes))
      (fun _ d _ => .always _ d) applied (hstage.attempt verdicts).1
  exact fun heq => ((hboot.attempt verdicts').2 _ heq).2 version image rfl

theorem Replay.not_noDowngrade (h : Replay C published server) (hC : RoundTrips C) (heligible : Eligible exe)
    (hpart : exe ≠ paths.partFile) (hstaged : exe ≠ paths.stagedFile) :
    ¬NoDowngrade C paths exe published server := by
  obtain ⟨version, body, hoffer, hold⟩ := h
  intro hno
  let disk : Disk := Function.update (fun _ => none) exe (some [])
  have hexe : staged C paths version body disk exe = some [] :=
    (staged_other version hpart hstaged heligible.ne_stateFile).trans (Function.update_self ..)
  have hbody : staged C paths version body disk paths.stagedFile = some body := staged_stagedFile version
  obtain ⟨verdicts, hstage⟩ := Script.exists_attempt_eq_run perform smooth
    (cmdStage C paths server exe true none) disk
  obtain ⟨verdicts', hboot⟩ := Script.exists_attempt_eq_run perform smooth (applyPendingOnBoot C paths exe false)
    (staged C paths version body disk)
  have hafter : ((cmdStage C paths server exe true none).attempt perform verdicts disk).2 =
      staged C paths version body disk := by
    rw [hstage]
    exact congrArg Prod.snd (run_cmdStage hoffer heligible)
  have hupdated : ((applyPendingOnBoot C paths exe false).run smooth.act (staged C paths version body disk)).1 =
      .updated version body := by
    rw [run_applyPendingOnBoot rfl rfl rfl rfl (staged_stateFile version) (hC.state version body) (hC.version version)
      hoffer.newer heligible hbody, ← Prod.eta ((swapBinary exe paths.stagedFile).run smooth.act _),
      run_swapBinary_smooth hstaged hexe hbody]
  refine hno disk ?_ true none false verdicts verdicts' version body ?_ hold
  · rw [show disk paths.stagedFile = none from Function.update_of_ne hstaged.symm _ _]
    nofun
  · rw [hafter, hboot]
    exact congrArg some hupdated

/-- The updater never goes back, unless an outdated release is offered again under a
newer tag. -/
theorem no_downgrade :
    (¬Replay C published server → NoDowngrade C paths exe published server) ∧
      (RoundTrips C → Eligible exe → exe ≠ paths.partFile → exe ≠ paths.stagedFile →
        NoDowngrade C paths exe published server → ¬Replay C published server) :=
  ⟨noDowngrade_of_not_replay, fun hC heligible hpart hstaged hno hreplay =>
    hreplay.not_noDowngrade hC heligible hpart hstaged hno⟩

theorem sample_roundTrips : RoundTrips sampleCrates where
  version version := by
    show some (sampleVersion version).toList.length = some version
    rw [sampleVersion, String.toList_ofList, List.length_replicate]
  state version body := by
    have hhead (letter : Nat) : (sampleDigest letter).toList.headD 'a' = Char.ofNat letter := by
      rw [sampleDigest, String.toList_ofList]
      rfl
    have hletter : ∀ k < 6, (UInt8.ofNat (Char.ofNat (97 + k)).toNat).toNat = 97 + k := by decide
    have hlength : ((sampleVersion version).toList.map fun _ => (49 : UInt8)).length = version := by
      rw [List.length_map, sampleVersion, String.toList_ofList, List.length_replicate]
    have hdigest := hletter (body.length % 6) (Nat.mod_lt _ (by decide))
    simp only [sampleCrates, stagedState, hlength, hhead, hdigest]

/-- The one signed manifest is that of the first release. -/
def samplePublished (version : Nat) (image : Bytes) : Prop := version = 1 ∧ image = [2, 2]

theorem sample_no_downgrade :
    NoDowngrade sampleCrates samplePaths sampleExe (fun version image => version = 3 ∧ image = [2, 2]) sampleServer ∧
      ¬NoDowngrade sampleCrates samplePaths sampleExe samplePublished sampleServer := by
  refine ⟨no_downgrade.1 ?_, fun hno => ?_⟩
  · rintro ⟨_, _, _, _, ⟨rfl, _⟩, hle⟩
    exact absurd hle (by decide)
  · have heligible : Eligible sampleExe := ⟨by decide +kernel, by decide +kernel, by decide +kernel⟩
    exact no_downgrade.2 sample_roundTrips heligible (by decide +kernel) (by decide +kernel) hno
      ⟨3, [2, 2], sample_offers, 1, ⟨rfl, rfl⟩, by decide⟩

theorem replayed_release_installed :
    let disk : Disk := Function.update (fun _ => none) sampleExe (some [1])
    let staging := (cmdStage sampleCrates samplePaths sampleServer sampleExe true none).attempt perform
      (List.replicate 8 .succeeds) disk
    let booting := (applyPendingOnBoot sampleCrates samplePaths sampleExe false).attempt perform
      (List.replicate 9 .succeeds) staging.2
    Outdated sampleCrates samplePublished [2, 2] ∧
      (booting.1, booting.2 sampleExe) = (some (.updated 3 [2, 2]), some [2, 2]) := by
  intro disk staging booting
  exact ⟨⟨1, ⟨rfl, rfl⟩, by decide⟩, by decide +kernel⟩

end RichPresence.Update
