import RichPresence.Bridge.CommandRace
import RichPresence.Protocol.Serde

namespace RichPresence

open Lib

section Concurrent

/-- The guard lets both commands through, the first one asked first. -/
def bothPass (C : Codec) (s : Shared) (env : Env) (cmd : ActivityCmd) (env' : Env) (cmd' : ActivityCmd) : Bool :=
  !dropped C env cmd s && !dropped C env' cmd' (recorded C env cmd s)

theorem SameTables.refl (s : Shared) : SameTables s s := ⟨fun _ => rfl, fun _ => rfl, fun _ => rfl, fun _ => rfl⟩

variable {C : Codec} {env env' : Env} {cmd cmd' : ActivityCmd} {s t : Shared}

theorem step_setActivity (C : Codec) (s : Shared) (env : Env) (cmd : ActivityCmd) :
    step C s ⟨env, .setActivity cmd⟩ = (guarded C env cmd (dropped C env cmd)).exec s :=
  congrArg (Prog.exec · s) (handleSetActivity_eq C env cmd)

theorem exec_answered {d : Bool} (h : dropped C env cmd s = d) :
    (guarded C env cmd fun _ => d).exec s = (guarded C env cmd (dropped C env cmd)).exec s :=
  Prog.exec_force (f := fun s => (dropped C env cmd s, recorded C env cmd s)) h

namespace Meeting

theorem dropped_after {M : Meeting} (hinv : M.Invites env cmd) (hs : M.Holds s) :
    dropped C env' cmd' ((guarded C env cmd (dropped C env cmd)).exec s) =
      dropped C env' cmd' (recorded C env cmd s) := by
  rw [guarded, Prog.exec_bind]
  exact ((idle_dropped (idle_passed hinv _) C env' cmd').exec hs.recorded).2

section Asked

variable {es : List Event} (hroom : RoomFor s es) (he : ⟨env, .setActivity cmd⟩ ∈ es)
  (he' : ⟨env', .setActivity cmd'⟩ ∈ es) (hes : ∀ c ∈ es.flatMap Event.cmds, c = cmd ∨ c = cmd')
  {Sdk : Nat → Prop} {Scan : AppId → Prop}
  (sep : ∀ p a, Sdk p → Scan a → SocketId.ofPid p ≠ SocketId.ofApp a) (hplaced : Placed Sdk Scan s)
  (hsdk : Sdk cmd.pid) (hsdk' : Sdk cmd'.pid) (hC : C.Encodes)

include hroom he he' hes sep hplaced hsdk hsdk' hC

theorem passed_first (hcross : ¬Crosses cmd cmd') (hcross' : ¬Crosses cmd' cmd)
    (hpass : bothPass C s env cmd env' cmd' = true) (hpass' : bothPass C s env' cmd' env cmd = true)
    (hw : Prog.Weave (if dropped C env cmd s then pure () else if cmd.args.isNone then pure () else
      proceeding C env cmd) (guarded C env' cmd' (dropped C env' cmd')) (recorded C env cmd s) t) :
    SameTables t (step C (step C s ⟨env, .setActivity cmd⟩) ⟨env', .setActivity cmd'⟩) ∨
      SameTables t (step C (step C s ⟨env', .setActivity cmd'⟩) ⟨env, .setActivity cmd⟩) := by
  have hself : ∀ c, ¬Crosses c c := by
    rintro c ⟨hact, hg, _⟩
    simp [(isGenuineClear_iff.mp hg).2] at hact
  have hinv : (of s es hroom).Invites env cmd := by
    refine of_invites he fun c hc => ?_
    rcases hes c hc with rfl | rfl
    · exact hself _
    · exact hcross
  have hinv' : (of s es hroom).Invites env' cmd' := by
    refine of_invites he' fun c hc => ?_
    rcases hes c hc with rfl | rfl
    · exact hcross'
    · exact hself _
  have hs := of_holds s es hroom
  simp only [bothPass, Bool.and_eq_true, Bool.not_eq_true'] at hpass hpass'
  have hforced := (Prog.Weave.force hw.symm (idle_dropped (idle_passed hinv _) C env' cmd') hs.recorded hpass.2).symm
  rw [hpass.1] at hforced
  have hrace : Prog.Weave (guarded C env cmd fun _ => false) (guarded C env' cmd' fun _ => false) s t := .left hforced
  have hafter : (guarded C env' cmd' fun _ => false).exec ((guarded C env cmd fun _ => false).exec s) =
      (guarded C env' cmd' (dropped C env' cmd')).exec ((guarded C env cmd (dropped C env cmd)).exec s) := by
    rw [exec_answered hpass.1]
    exact exec_answered ((dropped_after hinv hs).trans hpass.2)
  have hafter' : (guarded C env cmd fun _ => false).exec ((guarded C env' cmd' fun _ => false).exec s) =
      (guarded C env cmd (dropped C env cmd)).exec ((guarded C env' cmd' (dropped C env' cmd')).exec s) := by
    rw [exec_answered hpass'.1]
    exact exec_answered ((dropped_after hinv' hs).trans hpass'.2)
  simp only [step_setActivity]
  rw [← hafter, ← hafter']
  -- elaborated before the goal is looked at, which does not show the meeting it is about
  by_cases hpid : cmd.pid = cmd'.pid
  · have hsame := race_of_pid sep hplaced hsdk hsdk' hcross hcross' hs hinv hinv' hrace hC hpid
    exact hsame
  · have hsame := race_of_pids sep hplaced hsdk hsdk' hcross hcross' hs hinv hinv' hrace hpid
    exact hsame

omit sep hplaced hsdk hsdk' hC he' in
theorem refused_first (hpass : bothPass C s env cmd env' cmd' = false)
    (hw : Prog.Weave (if dropped C env cmd s then pure () else if cmd.args.isNone then pure () else
      proceeding C env cmd) (guarded C env' cmd' (dropped C env' cmd')) (recorded C env cmd s) t) :
    t = step C (step C s ⟨env, .setActivity cmd⟩) ⟨env', .setActivity cmd'⟩ := by
  cases hd : dropped C env cmd s with
  | true =>
      rw [hd, if_pos rfl, (dropped_publish hd).2] at hw
      have hgone : step C s ⟨env, .setActivity cmd⟩ = s := handleSetActivity_dropped hd
      rw [hgone, step_setActivity]
      exact hw.ended
  | false =>
      have hd' : dropped C env' cmd' (recorded C env cmd s) = true := by simpa [bothPass, hd] using hpass
      have hinv : (of s es hroom).Invites env cmd := by
        refine of_invites he fun c hc => ?_
        rcases hes c hc with rfl | rfl <;> rintro ⟨hact, hg, _⟩
        · simp [(isGenuineClear_iff.mp hg).2] at hact
        · simp [dropped_of_clear (isGenuineClear_iff.mp hg).2] at hd'
      have hs := of_holds s es hroom
      have hend : t = step C s ⟨env, .setActivity cmd⟩ := by
        rw [step_setActivity, guarded, Prog.exec_bind]
        exact Prog.Weave.refused (d := true) hw.symm (idle_dropped (idle_passed hinv _) C env' cmd') hs.recorded hd'
          (fun u hu => (dropped_publish hu).2) rfl
      have hgone : step C (step C s ⟨env, .setActivity cmd⟩) ⟨env', .setActivity cmd'⟩ =
          step C s ⟨env, .setActivity cmd⟩ := by
        refine handleSetActivity_dropped ?_
        rw [step_setActivity]
        exact (dropped_after hinv hs).trans hd'
      rw [hgone]
      exact hend

end Asked

end Meeting

end Concurrent

namespace Meeting

variable {M : Meeting} {Q : Set Place} {C : Codec} {env env' : Env} {cmd : ActivityCmd} {s t : Shared}
  {Sdk : Nat → Prop} {Scan : AppId → Prop}
  (sep : ∀ p a, Sdk p → Scan a → SocketId.ofPid p ≠ SocketId.ofApp a) (hplaced : Placed Sdk Scan M.start)
  (hsdk : Sdk cmd.pid) (hs : M.Holds M.start) (hinv : M.Invites env cmd)

include sep hplaced hsdk hs hinv

theorem race_scanner {q : Prog Shared Unit} (hguard : .guard ∉ Q)
    (hcard : .card (SocketId.ofPid cmd.pid) ∉ Q) (htaken : Disjoint Q (given env cmd M.start M.start.owners))
    {final' : Owners → Contents}
    (hq : (M.layout Set.univ).Commits Q M.start.look (fun _ => ∅) id final' q M.start.look)
    (hw : Prog.Weave (guarded C env cmd (dropped C env cmd)) q M.start t) :
    SameTables t (q.exec ((guarded C env cmd (dropped C env cmd)).exec M.start)) ∨
      SameTables t ((guarded C env cmd (dropped C env cmd)).exec (q.exec M.start)) := by
  let P : Set Place := {.guard, .card (SocketId.ofPid cmd.pid)}
  have hd : ∀ u, M.Holds u → Agree P u.look M.start.look → dropped C env cmd u = dropped C env cmd M.start := by
    intro u _ ha
    have hr : u.recent = M.start.recent := Option.some.inj (ha .guard (by simp [P]))
    rw [dropped, guardAnswer, hr]
    rfl
  obtain ⟨move, final, h, hc⟩ := commits_command (W := Set.univ) (P := P) (C := C) hinv (fun _ => by simp [P])
    (fun _ => by simp [P]) (card_far sep hplaced hsdk) _ hd dropped_of_clear
  have hapart : (M.layout Set.univ).Apart P Q (given env cmd M.start) (fun _ => ∅) move id M.start.owners := by
    refine ⟨Set.subset_univ _, Set.subset_univ _, ?_, ?_, ?_, fun _ => id, Set.empty_subset _, Set.disjoint_empty _,
      Set.disjoint_empty _⟩
    · refine Set.disjoint_left.mpr fun i hi hi' => ?_
      rcases hi with rfl | rfl
      · exact hguard hi'
      · exact hcard hi'
    · rw [Set.union_empty]
      refine Set.disjoint_left.mpr fun i hi hi' => ?_
      rcases hi with rfl | rfl
      · exact guard_far _ hi'
      · exact card_far sep hplaced hsdk _ hi'
    · rwa [Set.union_empty]
  refine (hc.serializes hapart hq (.refl _ _) (.refl _ _) hs hw).imp ?_ ?_ <;>
    exact fun h => tables_of_same h fun i _ => .inl trivial

theorem race_detected {game : ScannedGame} (hscan : Scan game.id)
    (hbounds : game.id ∈ M.bounds.scans ∧ game.id ∈ M.bounds.slots ∧ SocketId.ofApp game.id ∈ M.bounds.cards)
    (hfree : M.Unclaimed game.id)
    (hw : Prog.Weave (guarded C env cmd (dropped C env cmd)) (onDetected C env' game) M.start t) :
    SameTables t ((onDetected C env' game).exec ((guarded C env cmd (dropped C env cmd)).exec M.start)) ∨
      SameTables t ((guarded C env cmd (dropped C env cmd)).exec ((onDetected C env' game).exec M.start)) := by
  obtain ⟨final', hq⟩ : ∃ final', (M.layout Set.univ).Commits (slotPlaces game.id) M.start.look (fun _ => ∅) id final'
      (onDetected C env' game) M.start.look :=
    commits_detected (fun _ => id) hbounds.1 hbounds.2.1 hbounds.2.2 hfree
  refine race_scanner sep hplaced hsdk hs hinv ?_ ?_ ?_ hq hw
  · simp [slotPlaces]
  · simpa [slotPlaces] using sep _ _ hsdk hscan
  · refine Set.disjoint_left.mpr ?_
    rintro i hi ⟨hg, game', hm, ho, hi'⟩
    obtain hid := slot_of_place hi hi'
    exact hfree cmd hinv.listed hg (hid ▸ releases_of_resumable hm) (hid ▸ ho)

theorem race_removed {app : AppId} {pid : Nat}
    (hkeep : isGenuineClear cmd = true → ∀ game ∈ resumable env cmd M.start, game.id ≠ app)
    (hw : Prog.Weave (guarded C env cmd (dropped C env cmd)) (onRemoved C env' app pid) M.start t) :
    SameTables t ((onRemoved C env' app pid).exec ((guarded C env cmd (dropped C env cmd)).exec M.start)) ∨
      SameTables t ((guarded C env cmd (dropped C env cmd)).exec ((onRemoved C env' app pid).exec M.start)) := by
  -- The card is the removal's own only if the slot is published under its pid.
  let Q : Set Place := {i | i ∈ slotPlaces app ∧
    (i = .card (SocketId.ofApp app) → M.start.look (.shown app) = some pid)}
  obtain ⟨v, hv⟩ : (M.layout Set.univ).Fixes Q (onRemoved C env' app pid) M.start.look :=
    fixes_removed ⟨by simp [slotPlaces], by simp⟩ ⟨by simp [slotPlaces], by simp⟩ fun h =>
      ⟨by simp [slotPlaces], fun _ => h⟩
  refine race_scanner (Q := Q) sep hplaced hsdk hs hinv ?_ ?_ ?_ (hv.commits fun _ => rfl) hw
  · rintro ⟨h, _⟩
    simp [slotPlaces] at h
  · rintro ⟨h, hshown⟩
    have hk : SocketId.ofPid cmd.pid = SocketId.ofApp app := by simpa [slotPlaces] using h
    exact sep _ _ hsdk (hplaced.published app pid (hshown (by rw [hk]))) hk
  · refine Set.disjoint_left.mpr ?_
    rintro i ⟨hi, _⟩ ⟨hg, game, hm, _, hi'⟩
    exact hkeep hg game hm (slot_of_place hi hi').symm

omit hs hinv in
theorem ghostTest_agree (hC : C.Encodes) {d : Bool}
    (htest : (!d && cardTest C env cmd (M.start.lookAt (.card (SocketId.ofPid cmd.pid)))) = true)
    (hghost : ghostTest C env' (SocketId.ofPid cmd.pid) (M.start.lookAt (.card (SocketId.ofPid cmd.pid))) = true) :
    cardPut C env cmd = none ∨
      ghostTest C env' (SocketId.ofPid cmd.pid) (cardPut C env cmd) = (!d && cardTest C env cmd none) := by
  obtain ⟨hd, htest⟩ := Bool.and_eq_true_iff.mp htest
  obtain ⟨_, hsome⟩ := Bool.and_eq_true_iff.mp htest
  cases hact : cmd.activity with
  | none => exact .inl (cardPut_clear hact)
  | some activity =>
      obtain ⟨e, he⟩ := Option.isSome_iff_exists.mp hsome
      obtain ⟨bytes, hb⟩ : ∃ b, fingerprint C env cmd = some b := fingerprint_isSome env hC (by simp [hact])
      obtain ⟨x, pid, hx, hpid, hdead, henc⟩ := ghostTest_iff.mp hghost
      obtain ⟨v, hv, rfl⟩ := Option.map_eq_some_iff.mp hx
      have hown : pid = cmd.pid ∧ cmd.pid ≠ 0 := by
        rcases hplaced.cards _ v hv with ⟨p, _, hk, hp, _⟩ | ⟨a, ha, hk, _⟩
        · obtain rfl := SocketId.ofPid_injective hk
          exact cacheEntryPid_ofPid hp hpid
        · exact absurd hk (sep _ _ hsdk ha)
      obtain ⟨rfl, hz⟩ := hown
      right
      rw [cardPut_publish he (by simp [hact]), hd, cardTest, hb, he]
      refine ghostTest_iff.mpr ⟨e, cmd.pid, rfl, ?_, hdead, henc⟩
      rw [cacheEntryPid, (sdkCard_spec he).pid, if_pos hz]

theorem race_cleared (hC : C.Encodes) (hslots : ∀ app ∈ M.bounds.slots, Scan app)
    (hnone : isGenuineClear cmd = true → resumable env cmd M.start = [])
    (hw : Prog.Weave (guarded C env cmd (dropped C env cmd)) (onCleared C env') M.start t) :
    SameTables t ((onCleared C env').exec ((guarded C env cmd (dropped C env cmd)).exec M.start)) ∨
      SameTables t ((guarded C env cmd (dropped C env cmd)).exec ((onCleared C env').exec M.start)) := by
  let W : Set Place := {i | i ≠ .guard ∧ i ≠ .card (SocketId.ofPid cmd.pid)}
  have hidle : Prog.Idle M.Holds (dropped C env cmd) (onCleared C env') := idle_dropped idle_cleared C env cmd
  have hgiven : given env cmd M.start = fun _ => ∅ := by
    funext o
    refine Set.eq_empty_of_forall_notMem ?_
    rintro i ⟨hg, game, hm, _⟩
    rw [hnone hg] at hm
    cases hm
  generalize hd : dropped C env cmd M.start = d
  have hforced : Prog.Weave (guarded C env cmd fun _ => d) (onCleared C env') M.start t :=
    Prog.Weave.force (f := fun s => (dropped C env cmd s, recorded C env cmd s)) hw hidle hs hd
  rw [← exec_answered hd, ← exec_answered ((hidle.exec hs).2.trans hd)]
  obtain ⟨move, final, h, hc⟩ := commits_command (W := W) (P := ∅) (C := C) hinv (fun hk => absurd rfl hk.2)
    (fun hg => absurd rfl hg.1) (card_far sep hplaced hsdk) (fun _ => d) (fun _ _ _ => rfl)
    fun hact => hd ▸ dropped_of_clear hact
  rw [hgiven] at hc
  obtain ⟨v, hv⟩ : (M.layout W).Fixes W (onCleared C env') M.start.look :=
    fixes_cleared (fun _ => id) (fun app => ⟨by simp, by simp⟩) (fun app => ⟨by simp, by simp⟩)
  have hapart : (M.layout W).Apart ∅ W (fun _ => ∅) (fun _ => ∅) move id M.start.owners := by
    constructor <;> simp [layout]
  have hconf := hc.confluent hapart (hv.commits fun _ => rfl) (.refl _ _) (.refl _ _) hs hforced rfl rfl rfl rfl rfl
  have htests := tests_guarded (C := C) hinv
    (fun _ game hm heq => sep _ _ hsdk (hplaced.resumable hm) heq.symm) d
  have htests' : Prog.Tests M.Holds (Shared.lookAt (.card (SocketId.ofPid cmd.pid)))
      (ghostTest C env' (SocketId.ofPid cmd.pid)) none (onCleared C env') :=
    tests_cleared fun app ha heq => sep _ _ hsdk (hslots app ha) heq.symm
  have hcell := htests.serializes hforced htests' hs fun hx hx' =>
    ghostTest_agree sep hplaced hsdk hC hx hx'
  exact hcell.imp (tables_of_card hconf.1) (tables_of_card hconf.2)

end Meeting

/-- What keeps a command and another input out of each other's way: two commands
pass the guard in either order or in none, and no clear gives back the slot a
publish of its pid takes; a clear gives back no slot whose game the scanner is
reporting. -/
def Undisturbed (C : Codec) (s : Shared) (env : Env) (cmd : ActivityCmd) (e : Event) : Prop :=
  match e.input with
  | .setActivity cmd' =>
      bothPass C s env cmd e.env cmd' = bothPass C s e.env cmd' env cmd ∧
        (bothPass C s env cmd e.env cmd' = true → ¬Crosses cmd cmd' ∧ ¬Crosses cmd' cmd)
  | .proc (.detected game) => isGenuineClear cmd = true → Releases cmd game.id → s.owners game.id ≠ some cmd.pid
  | .proc (.removed app _) => isGenuineClear cmd = true → ∀ game ∈ resumable env cmd s, game.id ≠ app
  | .proc .cleared => isGenuineClear cmd = true → resumable env cmd s = []

variable {C : Codec} {env : Env} {cmd : ActivityCmd} {s : Shared} {Sdk : Nat → Prop} {Scan : AppId → Prop}

open Meeting in
theorem serializable_scanner (hC : C.Encodes) {env' : Env} {input : ProcInput}
    (sep : ∀ p a, Sdk p → Scan a → SocketId.ofPid p ≠ SocketId.ofApp a) (hplaced : Placed Sdk Scan s)
    (hsdk : Sdk cmd.pid) (hscan : ∀ a, Event.scannedApp ⟨env', .proc input⟩ = some a → Scan a)
    (hroom : RoomFor s [⟨env, .setActivity cmd⟩, ⟨env', .proc input⟩])
    (h : Undisturbed C s env cmd ⟨env', .proc input⟩) :
    Serializable C s ⟨env, .setActivity cmd⟩ ⟨env', .proc input⟩ := by
  intro t hw
  have hs := of_holds s _ hroom
  have hcmds : [⟨env, .setActivity cmd⟩, ⟨env', .proc input⟩].flatMap Event.cmds = [cmd] := rfl
  have hinv : (of s _ hroom).Invites env cmd := by
    refine of_invites (by simp) fun c hc => ?_
    rw [hcmds, List.mem_singleton] at hc
    rintro ⟨hact, hg, _⟩
    simp [← hc, (isGenuineClear_iff.mp hg).2] at hact
  have hguarded : handle C ⟨env, .setActivity cmd⟩ = guarded C env cmd (dropped C env cmd) :=
    handleSetActivity_eq C env cmd
  rw [hguarded] at hw
  simp only [step_setActivity]
  rcases input with game | ⟨app, pid⟩ | _
  · refine race_detected (M := of s _ hroom) sep hplaced hsdk hs hinv (hscan _ rfl)
      (of_detected (List.mem_cons_of_mem _ (List.mem_singleton_self _))) ?_ hw
    intro c hc
    obtain rfl : c = cmd := List.mem_singleton.mp (hcmds ▸ hc)
    exact h
  · exact race_removed (M := of s _ hroom) sep hplaced hsdk hs hinv h hw
  · refine race_cleared (M := of s _ hroom) sep hplaced hsdk hs hinv hC (fun app ha => ?_) h hw
    obtain hk | ha := List.mem_append.mp (List.mem_dedup.mp ha)
    · obtain ⟨pid, hpid⟩ := Table.mem_keys_iff_lookup.mp hk
      exact hplaced.published app pid hpid
    · have ha : app ∈ Event.raises s ⟨env, .setActivity cmd⟩ := by simpa [Event.raises] using ha
      simp only [Event.raises] at ha
      split at ha
      next =>
        obtain ⟨game, hm, rfl⟩ := List.mem_map.mp ha
        exact hplaced.resumable hm
      next => cases ha

end RichPresence
