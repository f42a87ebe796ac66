import RichPresence.Bridge.Sections

namespace RichPresence

open Lib

namespace Meeting

variable {M : Meeting} {W P : Set Place} {w w₀ : Contents} {C : Codec} {env : Env}

section Slot

variable {app : AppId} (hP : slotPlaces app ⊆ P)

include hP

theorem fixes_withdraw : (M.layout W).Fixes P (withdrawGeneric C env app) w := by
  rw [withdrawGeneric]
  refine Layout.Settles.fixes_bind (x := w (.shown app)) (v := Function.update w (.shown app) none) ?_ ?_
  · refine Layout.settles_locked fun s hs ha => ?_
    have hsets : Sets (.shown app) none s { s with lastProcess := s.lastProcess.erase app } :=
      ⟨s.look_untrack app, rfl⟩
    refine ⟨keeps_write (fun _ => shown_mem hP) (by simp) (by rintro _ ⟨⟩) hs hsets, rfl, _, ?_,
      ha _ (shown_mem hP), rfl⟩
    change Agree P (Shared.look _) _
    rw [hsets.look]
    exact ha.update _ _
  · cases w (.shown app) with
    | some pid => exact (settles_broadcastClear (fun _ => card_mem hP) C pid).fixes
    | none => exact Layout.fixes_pure ()

end Slot

section Removed

variable {app : AppId} {pid : Nat} (hscan : .scan app ∈ P) (hshown : .shown app ∈ P)
  (hcard : w (.shown app) = some pid → .card (SocketId.ofApp app) ∈ P)

include hshown hcard

theorem fixes_takeMatching : (M.layout W).Fixes P
    (Prog.locked (fun s : Shared =>
        ((takeMatchingProcess app pid s.lastProcess).1,
          { s with lastProcess := (takeMatchingProcess app pid s.lastProcess).2 })) >>=
      fun outstanding => match outstanding with
        | some pid => broadcastClear C env pid (SocketId.ofApp app)
        | none => pure ()) w := by
  by_cases hw : w (.shown app) = some pid
  · refine Layout.Settles.fixes_bind (x := some pid) (v := Function.update w (.shown app) none)
      (Layout.settles_locked fun s hs ha => ?_)
      (settles_broadcastClear (fun _ => hcard hw) C pid).fixes
    have hl : s.lastProcess.lookup app = some pid := (ha _ hshown).trans hw
    rw [takeMatchingProcess, if_pos hl]
    have hsets : Sets (.shown app) none s { s with lastProcess := s.lastProcess.erase app } :=
      ⟨s.look_untrack app, rfl⟩
    refine ⟨keeps_write (fun _ => hshown) (by simp) (by rintro _ ⟨⟩) hs hsets, rfl, _, ?_, rfl, rfl⟩
    change Agree P (Shared.look _) _
    rw [hsets.look]
    exact ha.update _ _
  · refine Layout.Settles.fixes_bind (x := none) (v := w) (Layout.settles_locked fun s hs ha => ?_)
      (Layout.fixes_pure ())
    have hl : s.lastProcess.lookup app ≠ some pid := fun hl => hw ((ha _ hshown).symm.trans hl)
    rw [takeMatchingProcess, if_neg hl]
    exact ⟨.rfl hs, rfl, w, ha, rfl, rfl⟩

include hscan

theorem fixes_removed : (M.layout W).Fixes P (onRemoved C env app pid) w := by
  by_cases hw : (w (.scan app)).map (·.pid) = some pid
  · have hkept : Function.update w (.scan app) none (.shown app) = w (.shown app) :=
      Function.update_of_ne (by simp) _ _
    refine (settles_write (v := none) (fun _ => hscan) (by simp) (fun _ _ => .inl rfl) fun s _ ha =>
      ⟨(s.look_noteRemove app pid).trans ?_, ?_⟩).fixes_seq (fixes_takeMatching hshown (hkept ▸ hcard))
    · rw [ha _ hscan, if_pos hw]
    · funext a
      simp [Shared.owners]
  · refine (settles_same fun s _ ha => ?_).fixes_seq (fixes_takeMatching hshown hcard)
    have hl : (s.handoff.lastScans.lookup app).map (·.pid) ≠ some pid := fun hl =>
      hw ((congrArg _ (ha _ hscan)).symm.trans hl)
    rw [HandoffState.noteRemove, if_neg hl]

end Removed

/-- What a detection does once the owner of its slot, if any, is dealt with. -/
def afterOwner (C : Codec) (env : Env) (game : ScannedGame) (owned : Bool) : Prog Shared Unit := do
  if owned then
    return
  let shown ← Prog.reads fun s : Shared => (s.lastProcess.lookup game.id).isSome
  if shown then
    return
  resumeGeneric C env game

section Detected

variable {game : ScannedGame} (hP : slotPlaces game.id ⊆ P) (hscan : game.id ∈ M.bounds.scans)
  (hslot : game.id ∈ M.bounds.slots) (hcard : SocketId.ofApp game.id ∈ M.bounds.cards)

include hP hslot hcard

theorem fixes_afterOwner : (M.layout W).Fixes P (afterOwner C env game false) w := by
  refine Layout.Settles.fixes_bind (x := (w (.shown game.id)).isSome)
    (Layout.settles_reads fun s _ ha => ⟨congrArg Option.isSome (ha _ (shown_mem hP)), rfl⟩) ?_
  split
  next => exact Layout.fixes_pure ()
  next => exact (settles_resumeGeneric (fun _ => shown_mem hP) (fun _ => card_mem hP) hslot hcard).fixes

include hscan

theorem commits_detected (hfree : M.Unclaimed game.id) :
    ∃ final, (M.layout W).Commits P w₀ (fun _ => ∅) id final (onDetected C env game) w := by
  have hnote : (M.layout W).Settles P (fun _ w' => w' = Function.update w (.scan game.id) (some game))
      (Prog.updates fun s : Shared => { s with handoff := s.handoff.noteScan env (some game) }) w :=
    settles_write (fun _ => scan_mem hP) (fun _ => hscan) (by rintro _ ⟨⟩; exact .inr hfree) fun s hs _ =>
      ⟨s.look_noteScan env hs.scans_fit, rfl⟩
  -- the owner decides between two ends: the slot withdrawn, or the slot published
  obtain ⟨v, hv⟩ : (M.layout W).Fixes P (withdrawGeneric C env game.id)
    (Function.update w (.scan game.id) (some game)) := fixes_withdraw hP
  obtain ⟨v', hv'⟩ : (M.layout W).Fixes P (afterOwner C env game false)
    (Function.update w (.scan game.id) (some game)) := fixes_afterOwner hP hslot hcard
  refine ⟨fun o => if (o game.id).isSome then v else v', hnote.commits_bind fun _ w' hw => ?_⟩
  subst hw
  refine Layout.commits_locked (g := afterOwner C env game) fun s hs ha _ => ?_
  simp only [Set.union_empty]
  cases ho : (s.owners game.id).isSome with
  | true =>
      have howned : (s.handoff.ownerOf game.id).isSome = true := ho
      obtain ⟨hkeeps, hpivot, u, hu, huv⟩ := hv.exec hs ha
      simp only [howned, if_true]
      refine ⟨hkeeps, hpivot, u, hu, ?_⟩
      have hpick : (((M.layout W).pivot s game.id).isSome) = true := ho
      rw [if_pos hpick]
      exact huv
  | false =>
      have howned : (s.handoff.ownerOf game.id).isSome = false := ho
      have hpick : (((M.layout W).pivot s game.id).isSome) = false := ho
      simp only [howned, Bool.false_eq_true, if_false, hpick]
      exact ⟨.rfl hs, rfl, hv'.congr ha.symm⟩

end Detected

section Cleared

variable (hcards : ∀ k, .card k ∈ W → .card k ∈ P)

include hcards

theorem fixes_reap : (M.layout W).Fixes P
    (Prog.reads (fun s : Shared => ghosts env s.cache) >>= fun dead =>
      forM dead fun (socketId, pid) => broadcastClear C env pid socketId) w := by
  let Z : Set Place := {i | ∃ k pid c, i = .card k ∧ w (.card k) = some c ∧ cacheEntryPid k c = some pid ∧
    env.isProcessAlive pid = false ∧ (emptyCached C pid k).isSome}
  let Named (dead : List (SocketId × Nat)) : Prop := ∀ k pid, .card k ∈ P → ((k, pid) ∈ dead ↔
    ∃ c, w (.card k) = some c ∧ cacheEntryPid k c = some pid ∧ env.isProcessAlive pid = false)
  have hread : (M.layout W).Settles P (fun dead w' => Named dead ∧ w' = w)
      (Prog.reads fun s : Shared => ghosts env s.cache) w := by
    refine Layout.settles_reads fun s _ ha => ⟨fun k pid hk => ?_, rfl⟩
    rw [mem_ghosts, ← ha _ hk]
    constructor
    · rintro ⟨v, hv, hpid, hd⟩
      exact ⟨v.1, Option.map_eq_some_iff.mpr ⟨v, hv, rfl⟩, hpid, hd⟩
    · rintro ⟨c, hc, hpid, hd⟩
      obtain ⟨v, hv, rfl⟩ := Option.map_eq_some_iff.mp hc
      exact ⟨v, hv, hpid, hd⟩
  refine ⟨Contents.patch .empty Z w, hread.bind ?_⟩
  rintro dead _ ⟨hdead, rfl⟩
  refine (settles_clears C (fun g : SocketId × Nat => g.2) (fun g => g.1) fun g _ => hcards g.1).imp
    fun _ w' hw i hi => ?_
  rw [hw]
  refine Contents.patch_congr ⟨?_, ?_⟩
  · rintro ⟨⟨k, pid⟩, hm, rfl, he⟩
    obtain ⟨c, hc, hpid, hd⟩ := (hdead k pid hi).mp hm
    exact ⟨k, pid, c, rfl, hc, hpid, hd, he⟩
  · rintro ⟨k, pid, c, rfl, hc, hpid, hd, he⟩
    exact ⟨(k, pid), (hdead k pid hi).mpr ⟨c, hc, hpid, hd⟩, rfl, he⟩

theorem fixes_drain (hslots : ∀ app, .shown app ∈ P) : (M.layout W).Fixes P
    (Prog.locked (fun s : Shared =>
        ((takeProcessClear s.lastProcess).1, { s with lastProcess := (takeProcessClear s.lastProcess).2 })) >>=
      fun outstanding => (forM outstanding fun (pid, appId) => broadcastClear C env pid (SocketId.ofApp appId)) >>=
        fun _ => Prog.reads (fun s : Shared => ghosts env s.cache) >>= fun dead =>
          forM dead fun (socketId, pid) => broadcastClear C env pid socketId) w := by
  let Drained : Contents := Contents.patch .empty {i | ∃ app, i = .shown app} w
  let Z : Set Place := {i | ∃ app pid, w (.shown app) = some pid ∧ i = .card (SocketId.ofApp app) ∧
    (emptyCached C pid (SocketId.ofApp app)).isSome}
  have hdrain : (M.layout W).Settles P
      (fun l w' => (∀ x : Nat × AppId, x ∈ l ↔ w (.shown x.2) = some x.1) ∧ w' = Drained)
      (Prog.locked fun s : Shared =>
        ((takeProcessClear s.lastProcess).1, { s with lastProcess := (takeProcessClear s.lastProcess).2 })) w := by
    refine settles_wipe ?_ (fun s => s.look_drain) (fun _ => rfl) fun s _ ha => ⟨fun x => ?_, rfl⟩
    · rintro _ ⟨app, rfl⟩ _
      exact hslots app
    · rw [mem_takeProcessClear, ← ha _ (hslots x.2)]
      rfl
  obtain ⟨v, hv⟩ := fixes_reap hcards (w := Contents.patch .empty Z Drained)
  refine ⟨v, hdrain.bind ?_⟩
  rintro l _ ⟨hl, rfl⟩
  refine (settles_clears C (fun x : Nat × AppId => x.1) (fun x => SocketId.ofApp x.2) fun x _ =>
    hcards (SocketId.ofApp x.2)).bind fun _ w' hw => ?_
  have hZ : {i | ∃ x ∈ l, i = .card (SocketId.ofApp x.2) ∧
      (emptyCached C x.1 (SocketId.ofApp x.2)).isSome} = Z := by
    ext i
    constructor
    · rintro ⟨x, hx, hi, he⟩
      exact ⟨x.2, x.1, (hl x).mp hx, hi, he⟩
    · rintro ⟨app, pid, hw, hi, he⟩
      exact ⟨(pid, app), (hl _).mpr hw, hi, he⟩
  rw [hw, hZ]
  exact hv

theorem fixes_cleared (hslots : ∀ app, .shown app ∈ P) (hscans : ∀ app, .scan app ∈ P) :
    (M.layout W).Fixes P (onCleared C env) w := by
  have hforget : (M.layout W).Settles P (fun _ w' => w' = Contents.patch .empty {i | ∃ app, i = .scan app} w)
      (Prog.updates fun s : Shared => { s with handoff := s.handoff.noteScan env none }) w := by
    refine settles_wipe (f := fun s : Shared => ((), { s with handoff := s.handoff.noteScan env none }))
      ?_ (fun s => s.look_forgetScans env) (fun _ => rfl) fun _ _ _ => rfl
    rintro _ ⟨app, rfl⟩ _
    exact hscans app
  exact hforget.fixes_seq (fixes_drain hcards hslots)

end Cleared

end Meeting

end RichPresence
