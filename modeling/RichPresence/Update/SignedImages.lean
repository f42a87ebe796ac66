import RichPresence.Update.Offer
import RichPresence.Update.Trusted

namespace RichPresence.Update

open Lib

section Staging

variable {V : Type} {C : Crates V} {server : Server} {T : Bytes → Prop} {L : List FilePath} {paths : OtaPaths}
  {exe : FilePath} {disk : Disk}

theorem download_holds {path : FilePath} (hpath : path ∉ L) (body : Bytes) (h : Safe T L disk) :
    Script.Holds perform (Safe T L) (fun stored d => Safe T L d ∧ (stored = true → d path = some body))
      (op (.download path body)) disk := by
  refine Script.Holds.perform (o := FileOp.download path body) h fun v => ?_
  cases v with
  | succeeds => exact ⟨h.updated hpath _, h.updated hpath _, fun _ => Function.update_self ..⟩
  | fails left => exact ⟨h.spilled hpath left, h.spilled hpath left, nofun⟩
  | crosses => exact ⟨h, h, nofun⟩

theorem stageBinary_holds (hpart : paths.partFile ∉ L) (hstate : paths.stateFile ∉ L) (update : Available V)
    {expected : String} {body : Bytes} (htrust : C.sha256Hex body = expected → T body) (h : Safe T L disk) :
    Script.Holds perform (Safe T L) (fun _ d => Safe T L d) (stageBinary C paths update expected body) disk := by
  refine .bind (download_holds hpart body h) fun stored d _ ⟨hd, hstored⟩ => ?_
  split
  · exact .bind (harmless_holds (.removeFile _) hd) fun _ d _ hd => .pure hd hd
  next hanswer =>
    split
    · exact .bind (harmless_holds (.removeFile _) hd) fun _ d _ hd => .pure hd hd
    next hdigest =>
      -- from here on the download is an image like the others
      have hbody : Safe T (paths.partFile :: L) d :=
        hd.listed (hstored (by simpa using hanswer)) (htrust (by simpa using hdigest))
      refine .bind (harmless_holds_cons (.setPermissions _) hbody) fun answer d _ hd => ?_
      split
      · exact .bind (harmless_holds_cons (.removeFile _) hd) fun _ d _ hd => .pure hd.weaken hd.weaken
      refine .bind (harmless_holds_cons (.rename _ (.head _)) hd) fun answer d _ hd => ?_
      split
      · exact .bind (harmless_holds_cons (.removeFile _) hd) fun _ d _ hd => .pure hd.weaken hd.weaken
      have hkept : Script.Kept perform (Minor paths) (Safe T L) := kept_minor hstate
      exact .bind (saveState_holds (fun _ => id) hkept _ hd.weaken) fun _ d _ hd => .pure hd hd

theorem stage_holds (hpart : paths.partFile ∉ L) (hstate : paths.stateFile ∉ L) {D : Downloads} {update : Available V}
    (htrust : ∀ body, expectedDigest C D update = .ok (C.sha256Hex body) → D.binary update.assetUrl = some body →
      T body) (h : Safe T L disk) :
    Script.Holds perform (Safe T L) (fun _ d => Safe T L d) (stage C paths D exe (.available update)) disk := by
  refine .bind (checkEligibility_holds (fun _ => id) (fun v d => kept_harmless v _ d (.readonly _)) h)
    fun answer d _ ⟨hd, _⟩ => ?_
  split
  · exact .pure hd hd
  refine .bind (harmless_holds (.createDir _) hd) fun made d _ hd => ?_
  split
  · exact .pure hd hd
  split
  · exact .pure hd hd
  next expected hexpected =>
    split
    · exact .bind (harmless_holds (.removeFile _) hd) fun _ d _ hd => .pure hd hd
    next body hbody =>
      exact stageBinary_holds hpart hstate update (fun hdigest => htrust body (hdigest ▸ hexpected) hbody) hd

/-- The rule for `cmdStage`: what it puts among the listed files is what the server
offers. -/
theorem cmdStage_holds [LE V] [DecidableLE V] (hpart : paths.partFile ∉ L) (hstate : paths.stateFile ∉ L)
    (yes : Bool) (answer : Option String)
    (htrust : ∀ version body, Offers C server version body → T body) (h : Safe T L disk) :
    Script.Holds perform (Safe T L) (fun _ d => Safe T L d) (cmdStage C paths server exe yes answer) disk := by
  rw [cmdStage]
  split
  · exact .pure h h
  next update hcheck =>
    split
    · exact .pure h h
    refine .bind (harmless_holds .currentExe h) fun found d _ hd => ?_
    split
    · exact .pure hd hd
    have hoffered (body) (hdigest : expectedDigest C server.downloads update = .ok (C.sha256Hex body))
        (hbody : server.downloads.binary update.assetUrl = some body) : T body :=
      htrust update.latest body (offers_iff.2 ⟨update, hcheck, rfl, hdigest, hbody⟩)
    refine .bind (stage_holds hpart hstate hoffered hd) fun staged d _ hd => ?_
    split <;> exact .pure hd hd
  · exact .pure h h

theorem cmdRollback_holds (hexe : exe ∈ L) (hprev : prevPath exe ∈ L) (hstate : paths.stateFile ∉ L) (applied : Bool)
    (h : Safe T L disk) :
    Script.Holds perform (Safe T L) (fun _ d => Safe T L d) (cmdRollback C paths exe applied) disk := by
  rw [cmdRollback]
  split
  · exact .pure h h
  refine .bind (harmless_holds .currentExe h) fun found d _ hd => ?_
  split
  · exact .pure hd hd
  refine .bind (checkEligibility_holds (fun _ => id) (fun v d => kept_harmless v _ d (.readonly _)) hd)
    fun answer d _ ⟨hd, _⟩ => ?_
  split
  · exact .pure hd hd
  refine .bind (harmless_holds (.isFile _) hd) fun kept d _ hd => ?_
  split
  · exact .pure hd hd
  refine .bind (harmless_holds (.removeFile _) hd) fun _ d _ hd => ?_
  refine .bind (saveState_holds (fun _ => id) (kept_minor hstate) {} hd) fun _ d _ hd => ?_
  refine .bind (swapBack_holds hexe hprev hd) fun swapped d _ hd => ?_
  split <;> exact .pure hd hd

end Staging

section SignedImages

variable {V : Type} [LE V] [DecidableLE V] (C : Crates V) (paths : OtaPaths) (exe : FilePath)

/-- One start of the program: the version that runs, what the server sends, and what
becomes of the file operations. Where the verdicts end the process is killed. -/
inductive Session (V : Type)
  | stage (version : V) (server : Server) (yes : Bool) (answer : Option String) (verdicts : List Verdict)
  | boot (version : V) (applied : Bool) (verdicts : List Verdict)
  | rollback (applied : Bool) (verdicts : List Verdict)

def Crates.running (version : V) : Crates V := { C with currentVersion := version }

def Session.step (disk : Disk) : Session V → Disk
  | stage version server yes answer verdicts =>
      ((cmdStage (C.running version) paths server exe yes answer).attempt perform verdicts disk).2
  | boot version applied verdicts =>
      ((applyPendingOnBoot (C.running version) paths exe applied).attempt perform verdicts disk).2
  | rollback applied verdicts => ((cmdRollback C paths exe applied).attempt perform verdicts disk).2

structure Fresh (original : Bytes) (disk : Disk) : Prop where
  installed : disk exe = some original
  noPrev : disk (prevPath exe) = none
  noState : disk paths.stateFile = none
  noStaged : disk paths.stagedFile = none
  noPart : disk paths.partFile = none

/-- A manifest that verifies lists the image for this target. -/
def Listed (image : Bytes) : Prop :=
  ∃ triple ∈ C.targetTriple, ∃ manifest sig text, C.verifySignature manifest sig = true ∧
    String.fromUTF8? ⟨manifest.toArray⟩ = some text ∧ listedDigest text (assetName triple) = some (C.sha256Hex image)

/-- The install goes by the name of the file that an image is copied through. -/
def Clash (exe : FilePath) : Prop :=
  exe.name = "rsrpc-cli.ota-tmp" ∧ isDevBuild exe = false ∧ isCargoManaged exe = false

/-- Whatever happens to a fresh install, the executable is absent, the original, or
listed in a manifest that verifies. -/
def OnlySigned : Prop :=
  ∀ original disk, Fresh paths exe original disk → ∀ sessions : List (Session V),
    ∀ image ∈ sessions.foldl (Session.step C paths exe) disk exe, image = original ∨ Listed C image

variable {C paths exe}

theorem tmpPath_ne_of_eligible (h : ¬Clash exe) (heligible : Eligible exe) : tmpPath exe ≠ exe := by
  intro he
  refine h ⟨?_, heligible.1, heligible.2.1⟩
  have hname := congrArg FilePath.name he
  rw [tmpPath, FilePath.withExtension, heligible.2.2] at hname
  exact hname.symm.trans (show "rsrpc-cli" ++ "." ++ "ota-tmp" = "rsrpc-cli.ota-tmp" by decide)

omit [DecidableLE V] in
theorem Offers.listed {server : Server} {version v : V} {body : Bytes}
    (h : Offers (C.running v) server version body) : Listed C body := by
  cases h with
  | mk htarget _ _ _ _ _ _ _ _ _ hverified htext hlisted _ => exact ⟨_, htarget, _, _, _, hverified, htext, hlisted⟩

/-- The files an image is ever run from or moved to the executable from. -/
def images (paths : OtaPaths) (exe : FilePath) : List FilePath := [exe, prevPath exe, paths.stagedFile]

theorem not_mem_images {path : FilePath} (hexe : path ≠ exe) (hprev : path.lastChar ≠ some 'v')
    (hstaged : path.lastChar ≠ some 'd') : path ∉ images paths exe := by
  rw [images, List.mem_cons, List.mem_cons, List.mem_singleton]
  rintro (h | h | h)
  · exact hexe h
  · exact hprev (h ▸ lastChar_prevPath exe)
  · exact hstaged (h ▸ lastChar_stagedFile paths)

namespace Session

variable {T : Bytes → Prop}

theorem step_safe (hclash : ¬Clash exe) (hstate : paths.stateFile ≠ exe) (hpart : paths.partFile ≠ exe)
    (htrust : ∀ image, Listed C image → T image) (disk : Disk) (session : Session V)
    (h : Safe T (images paths exe) disk) : Safe T (images paths exe) (session.step C paths exe disk) := by
  have hstate : paths.stateFile ∉ images paths exe := not_mem_images hstate (by simp) (by simp)
  have hpart : paths.partFile ∉ images paths exe := not_mem_images hpart (by simp) (by simp)
  have hexe : exe ∈ images paths exe := .head _
  have hprev : prevPath exe ∈ images paths exe := .tail _ (.head _)
  have hstaged : paths.stagedFile ∈ images paths exe := .tail _ (.tail _ (.head _))
  cases session with
  | stage version server yes answer verdicts =>
      exact ((cmdStage_holds hpart hstate yes answer (fun _ body hoffer => htrust body hoffer.listed) h).attempt _).1
  | boot version applied verdicts =>
      have hkept := kept_minor (T := T) hstate
      refine ((applyPendingOnBoot_holds (G := fun _ => True) (fun _ => id) (fun _ => id) (fun _ => id) hkept hkept
        (fun _ _ _ _ _ => trivial) (fun heligible d hd => ?_) applied h).attempt _).1
      have htmp : tmpPath exe ∉ images paths exe :=
        not_mem_images (tmpPath_ne_of_eligible hclash heligible) (by simp) (by simp)
      exact swapBinary_holds hexe hprev hstaged htmp hd
  | rollback applied verdicts => exact ((cmdRollback_holds hexe hprev hstate applied h).attempt _).1

end Session

theorem Fresh.safe {original : Bytes} {disk : Disk} (h : Fresh paths exe original disk) {T : Bytes → Prop}
    (htrust : T original) : Safe T (images paths exe) disk := by
  intro path hpath image himage
  rw [images, List.mem_cons, List.mem_cons, List.mem_singleton] at hpath
  obtain rfl | rfl | rfl := hpath
  · rw [h.installed] at himage
    exact Option.some.inj himage ▸ htrust
  · rw [h.noPrev] at himage
    exact nomatch himage
  · rw [h.noStaged] at himage
    exact nomatch himage

theorem Fresh.ne_exe {original : Bytes} {disk : Disk} (h : Fresh paths exe original disk) {path : FilePath}
    (hpath : disk path = none) : path ≠ exe := by
  rintro rfl
  exact nomatch hpath.symm.trans h.installed

theorem onlySigned_of_not_clash (hclash : ¬Clash exe) : OnlySigned C paths exe := by
  intro original disk hfresh sessions image himage
  have hsafe : Safe (fun image => image = original ∨ Listed C image) (images paths exe)
      (sessions.foldl (Session.step C paths exe) disk) :=
    Along.invariant (P := fun _ _ => True) (Safe (fun image => image = original ∨ Listed C image) (images paths exe))
      (fun d session hd _ => session.step_safe hclash (hfresh.ne_exe hfresh.noState) (hfresh.ne_exe hfresh.noPart)
        (fun _ => .inr) d hd) (hfresh.safe (.inl rfl)) (Along.of_forall fun _ _ => trivial)
  exact hsafe exe (.head _) image himage

end SignedImages

end RichPresence.Update
