import RichPresence.Bridge.CommandCommit
import RichPresence.Lib.Cell

namespace RichPresence

open Lib

section

variable (C : Codec) (env : Env) (cmd : ActivityCmd)

/-- Whether a command that finds `x` as the card of its pid writes it anew. -/
def cardTest (x : Option CachedActivity) : Bool :=
  differs (x.map (·, 0)) (fingerprint C env cmd) && (sdkCard C env cmd).isSome

def cardPut : Option CachedActivity := (sdkCard C env cmd).filter fun e => !e.isClear

/-- Whether an emptied scan that finds `x` under `k` reaps it. -/
def ghostTest (k : SocketId) (x : Option CachedActivity) : Bool :=
  x.any fun e => (cacheEntryPid k e).any fun pid => !env.isProcessAlive pid && (emptyCached C pid k).isSome

variable {C env} in
theorem ghostTest_iff {k : SocketId} {x : Option CachedActivity} : ghostTest C env k x = true ↔
    ∃ e pid, x = some e ∧ cacheEntryPid k e = some pid ∧ env.isProcessAlive pid = false ∧
      (emptyCached C pid k).isSome := by
  cases x with
  | none => simp [ghostTest]
  | some e => cases hp : cacheEntryPid k e <;> simp [ghostTest, hp]

variable {C env cmd} in
theorem cardPut_clear (h : cmd.activity = none) : cardPut C env cmd = none := by
  rw [cardPut, Option.filter_eq_none_iff]
  intro e he
  rw [(sdkCard_spec he).isClear, h]
  simp

variable {C env cmd} in
theorem cardTest_clear (hC : C.Encodes) (h : isGenuineClear cmd = true) (x : Option CachedActivity) :
    cardTest C env cmd x = differs (x.map (·, 0)) none := by
  have hact := (isGenuineClear_iff.mp h).2
  have hargs : cmd.args.isSome := by
    cases ha : cmd.args with
    | none => simp [isGenuineClear, ha] at h
    | some args => rfl
  have hfp : fingerprint C env cmd = none := activityFingerprint_none hact
  obtain ⟨e, he⟩ := sdkCard_isSome env hC hargs
  rw [cardTest, hfp, he, Option.isSome_some, Bool.and_true]

variable {C env cmd} in
theorem cardPut_publish {e : CachedActivity} (he : sdkCard C env cmd = some e) (h : cmd.activity.isSome) :
    cardPut C env cmd = some e := by
  rw [cardPut, he, Option.filter_some, if_pos]
  rw [(sdkCard_spec he).isClear, ← Option.not_isSome, h]
  rfl

theorem sdkCard_noArgs (h : cmd.args.isNone = true) : sdkCard C env cmd = none := by
  have hargs : ((fixed C env cmd).fix env.buildClock).args = none := by
    rw [← Option.isNone_iff_eq_none, ActivityCmd.fix, ActivityCmd.mapActivity_args_isNone, fixed_args_isNone, h]
  simp [sdkCard, cachedActivity, hargs]

variable {C env cmd} in
theorem cardTests_agree (hC : C.Encodes) {env' : Env} {cmd' : ActivityCmd}
    {x : Option CachedActivity} (h : cardTest C env cmd x = true)
    (h' : cardTest C env' cmd' x = true) : cardPut C env cmd = cardPut C env' cmd' ∨
      cardTest C env' cmd' (cardPut C env cmd) = cardTest C env cmd (cardPut C env' cmd') := by
  obtain ⟨-, hs⟩ := Bool.and_eq_true_iff.mp h
  obtain ⟨-, hs'⟩ := Bool.and_eq_true_iff.mp h'
  obtain ⟨e, he⟩ := Option.isSome_iff_exists.mp hs
  obtain ⟨e', he'⟩ := Option.isSome_iff_exists.mp hs'
  cases hact : cmd.activity with
  | none =>
      cases hact' : cmd'.activity with
      | none => exact .inl ((cardPut_clear hact).trans (cardPut_clear hact').symm)
      | some a' =>
          have hclear' := (sdkCard_spec he').isClear
          obtain ⟨bytes', hb'⟩ : ∃ b, fingerprint C env' cmd' = some b := fingerprint_isSome env' hC (by simp [hact'])
          have hfp : fingerprint C env cmd = none := activityFingerprint_none hact
          right
          rw [cardPut_clear hact, cardPut_publish he' (by simp [hact'])]
          simp [cardTest, differs, he, he', hb', hfp, hclear', hact']
  | some a =>
      have hclear := (sdkCard_spec he).isClear
      obtain ⟨bytes, hb⟩ : ∃ b, fingerprint C env cmd = some b := fingerprint_isSome env hC (by simp [hact])
      right
      rw [cardPut_publish he (by simp [hact])]
      cases hact' : cmd'.activity with
      | none =>
          have hfp' : fingerprint C env' cmd' = none := activityFingerprint_none hact'
          rw [cardPut_clear hact']
          simp [cardTest, differs, he, he', hb, hfp', hclear, hact]
      | some a' =>
          have hclear' := (sdkCard_spec he').isClear
          have hjson := (sdkCard_spec he).activityJson (by simp [hact])
          have hjson' := (sdkCard_spec he').activityJson (by simp [hact'])
          obtain ⟨bytes', hb'⟩ : ∃ b, fingerprint C env' cmd' = some b := fingerprint_isSome env' hC (by simp [hact'])
          rw [cardPut_publish he' (by simp [hact'])]
          simp [cardTest, differs, he, he', hb, hb', hclear, hclear', hact, hact', hjson, hjson', bne_comm]
end

def Shared.lookAt (i : Place) (s : Shared) : Option i.Value := s.look i

namespace Meeting

variable {M : Meeting} {C : Codec} {env : Env} {cmd : ActivityCmd} {i : Place} {k : SocketId}

theorem idle_of {α : Type} {p : Prog Shared α} {Q : α → Contents → Prop} {w : Contents}
    (h : (M.layout {i}).Settles ∅ Q p w) : Prog.Idle M.Holds (Shared.lookAt i) p :=
  Prog.Idle.of_settles (L := M.layout {i}) (Set.mem_singleton i) h

theorem not_watched {j : Place} (h : j ≠ i) : j ∈ ({i} : Set Place) → j ∈ (∅ : Set Place) := by
  simp [h]

theorem idle_broadcastClear (h : .card k ≠ i) (pid : Nat) :
    Prog.Idle M.Holds (Shared.lookAt i) (broadcastClear C env pid k) :=
  idle_of (settles_broadcastClear (w := .empty) (not_watched h) C pid)

theorem idle_fanout (payload : CachedActivity) : Prog.Idle M.Holds (Shared.lookAt i)
    (Prog.updates (Shared.sendToAll env payload) >>= fun _ => Prog.updates Shared.setDirty) :=
  idle_of (settles_fanout (w := .empty) env payload)

theorem puts_broadcast {payload : CachedActivity} (hb : payload.isClear = false → k ∈ M.bounds.cards) :
    Prog.Puts M.Holds (Shared.lookAt (.card k)) (if payload.isClear then none else some payload)
      (broadcastActivity env payload k) := by
  refine Prog.puts_updates_bind (fun s hs => ?_) (idle_fanout payload)
  cases hc : payload.isClear with
  | true =>
      have hsets := sets_uncard s k env hc
      exact ⟨hs.write (i := .card k) (by simp) (fun _ h => nomatch h) hsets, by simp [Shared.lookAt, hsets.look]⟩
  | false =>
      have hsets := hs.sets_card env hc (hb hc)
      exact ⟨hs.write (i := .card k) (fun _ => hb hc) (fun _ h => nomatch h) hsets,
        by simp [Shared.lookAt, hsets.look]⟩

section Command

variable (hinv : M.Invites env cmd)

include hinv

theorem idle_noteSdkPublish : Prog.Idle M.Holds (Shared.lookAt i) (noteSdkPublish env (fixed C env cmd)) := by
  rw [noteSdkPublish_eq]
  split
  next h =>
    exact Prog.idle_locked (f := fun s => ((), claimed env cmd s)) fun s hs =>
      ⟨hs.claimed hinv h.1, congrFun look_claimed i⟩
  next => exact Prog.idle_pure ()

theorem idle_resumeAfterClear (hgames : isGenuineClear cmd = true → ∀ game ∈ resumable env cmd M.start,
      .shown game.id ≠ i ∧ .card (SocketId.ofApp game.id) ≠ i) :
    Prog.Idle M.Holds (Shared.lookAt i) (resumeAfterClear C env (fixed C env cmd)) := by
  cases hg : isGenuineClear cmd with
  | false =>
      rw [resumeAfterClear, isGenuineClear_fixed, hg]
      exact Prog.idle_pure ()
  | true =>
      rw [resumeAfterClear_eq _ _ _ hg]
      refine Prog.idle_locked_bind fun s hs => ⟨hs.released, congrFun look_released i, .forM fun game hm => ?_⟩
      have hstart := (hs.of_resumable hinv hg hm).1
      obtain ⟨hshown, hcard⟩ := hgames hg game hstart
      obtain ⟨hslot, hfits⟩ := hinv.games hg game hstart
      exact idle_of (settles_resumeGeneric (w := .empty) (not_watched hshown) (not_watched hcard) hslot hfits)

theorem idle_announcing (h : .card (SocketId.ofPid cmd.pid) ≠ i) (changed : Bool) :
    Prog.Idle M.Holds (Shared.lookAt i) (announcing C env cmd changed) :=
  idle_of (settles_announcing (w := .empty) hinv (not_watched h) changed)

theorem announcing_race {x : Option CachedActivity} {changed : Bool}
    (hchanged : changed = differs (x.map (·, 0)) (fingerprint C env cmd)) :
    cardTest C env cmd x = true ∧
        Prog.Puts M.Holds (Shared.lookAt (.card (SocketId.ofPid cmd.pid))) (cardPut C env cmd)
          (announcing C env cmd changed) ∨
      cardTest C env cmd x = false ∧
        Prog.Idle M.Holds (Shared.lookAt (.card (SocketId.ofPid cmd.pid))) (announcing C env cmd changed) := by
  rw [cardTest, ← hchanged, announcing, cardPut]
  cases changed with
  | false => exact .inr ⟨rfl, Prog.idle_pure ()⟩
  | true =>
      cases he : sdkCard C env cmd with
      | none => exact .inr ⟨rfl, Prog.idle_pure ()⟩
      | some payload =>
          have hput : (some payload).filter (fun e => !e.isClear) =
              if payload.isClear then none else some payload := by
            cases hc : payload.isClear <;> simp [Option.filter, hc]
          rw [hput]
          refine .inl ⟨rfl, puts_broadcast fun hc => hinv.card ?_⟩
          rw [← Option.not_isNone, ← (sdkCard_spec he).isClear, hc]
          rfl

section Race

variable (hgames : isGenuineClear cmd = true → ∀ game ∈ resumable env cmd M.start,
    SocketId.ofApp game.id ≠ SocketId.ofPid cmd.pid)

include hgames

theorem tests_proceeding : Prog.Tests M.Holds (Shared.lookAt (.card (SocketId.ofPid cmd.pid)))
    (cardTest C env cmd) (cardPut C env cmd) (proceeding C env cmd) := by
  refine Prog.tests_reads fun s hs => ?_
  have hchanged : differs (s.cache.lookup (SocketId.ofPid cmd.pid)) (fingerprint C env cmd) =
      differs ((s.lookAt (.card (SocketId.ofPid cmd.pid))).map (·, 0)) (fingerprint C env cmd) := by
    refine differs_congr ?_ _
    change _ = Option.map _ (Option.map _ (Option.map _ _))
    simp only [Option.map_map]
    rfl
  have hresume : Prog.Idle M.Holds (Shared.lookAt (.card (SocketId.ofPid cmd.pid)))
      (resumeAfterClear C env (fixed C env cmd)) :=
    idle_resumeAfterClear hinv fun hg game hm => ⟨by simp, by simpa using hgames hg game hm⟩
  refine (announcing_race hinv hchanged).imp (And.imp_right fun h => ?_) (And.imp_right fun h => ?_)
  · exact (idle_noteSdkPublish hinv).puts_bind fun _ => hresume.puts_bind fun _ => h
  · exact (idle_noteSdkPublish hinv).bind fun _ => hresume.bind fun _ => h

theorem tests_guarded (drop : Bool) : Prog.Tests M.Holds (Shared.lookAt (.card (SocketId.ofPid cmd.pid)))
    (fun x => !drop && cardTest C env cmd x) (cardPut C env cmd) (guarded C env cmd fun _ => drop) := by
  refine Prog.tests_locked_bind fun s hs => ⟨hs.recorded, rfl, ?_⟩
  cases drop with
  | true => exact fun _ => rfl
  | false =>
      simp only [Bool.not_false, Bool.true_and, Bool.false_eq_true, if_false]
      split
      next hargs =>
        intro x
        change cardTest C env cmd x = false
        rw [cardTest, sdkCard_noArgs C env cmd hargs, Option.isSome_none, Bool.and_false]
      next => exact tests_proceeding hinv hgames

end Race

theorem idle_passed (drop : Bool) : Prog.Idle M.Holds (Shared.lookAt .guard)
    (if drop then pure () else if cmd.args.isNone then pure () else proceeding C env cmd) := by
  have hproceed : Prog.Idle M.Holds (Shared.lookAt .guard) (proceeding C env cmd) := by
    refine Prog.Idle.bind (fun s hs => ⟨hs, rfl, trivial⟩) fun changed => ?_
    refine (idle_noteSdkPublish hinv).bind fun _ => ?_
    refine (idle_resumeAfterClear hinv fun _ _ _ => ⟨by simp, by simp⟩).bind fun _ => ?_
    exact idle_announcing hinv (by simp) changed
  split
  next => exact Prog.idle_pure ()
  next =>
    split
    next => exact Prog.idle_pure ()
    next => exact hproceed

end Command

theorem idle_dropped {p : Prog Shared Unit} (h : Prog.Idle M.Holds (Shared.lookAt .guard) p) (C : Codec) (env : Env)
    (cmd : ActivityCmd) : Prog.Idle M.Holds (dropped C env cmd) p := by
  refine h.map fun s s' _ _ hs => ?_
  have hr : s'.recent = s.recent := Option.some.inj hs
  rw [dropped, guardAnswer, hr]
  rfl

section Cleared

theorem idle_unencoded {pid : Nat} (h : emptyCached C pid k = none) :
    Prog.Idle M.Holds (Shared.lookAt (.card k)) (broadcastClear C env pid k) := by
  rw [broadcastClear, h]
  exact idle_of (settles_inert (w := .empty) (fun _ => rfl) fun _ => rfl)

theorem puts_broadcastClear {pid : Nat} (h : (emptyCached C pid k).isSome) :
    Prog.Puts M.Holds (Shared.lookAt (.card k)) none (broadcastClear C env pid k) := by
  obtain ⟨payload, hp⟩ := Option.isSome_iff_exists.mp h
  have hc := (emptyCached_spec hp).1
  have hput : Prog.Puts M.Holds (Shared.lookAt (.card k)) _ (broadcastActivity env payload k) :=
    puts_broadcast (by simp [hc])
  rw [hc, if_pos rfl] at hput
  rw [broadcastClear, hp]
  exact hput

theorem tests_reap : Prog.Tests M.Holds (Shared.lookAt (.card k)) (ghostTest C env k) none
    (Prog.reads (fun s : Shared => ghosts env s.cache) >>= fun dead =>
      forM dead fun (socketId, pid) => broadcastClear C env pid socketId) := by
  refine Prog.tests_reads fun s hs => ?_
  cases htest : ghostTest C env k (s.lookAt (.card k)) with
  | true =>
      obtain ⟨e, pid, he, hpid, hd, henc⟩ := ghostTest_iff.mp htest
      obtain ⟨v, hv, rfl⟩ := Option.map_eq_some_iff.mp he
      have hm : (k, pid) ∈ ghosts env s.cache := mem_ghosts.mpr ⟨v, hv, hpid, hd⟩
      refine .inl ⟨rfl, .forM (ghosts_nodup env s.cache) hm (puts_broadcastClear henc) ?_⟩
      rintro ⟨k', pid'⟩ hm' hne
      refine idle_broadcastClear (fun hk => hne ?_) pid'
      obtain rfl : k' = k := by simpa using hk
      obtain ⟨v', hv', hpid', _⟩ := mem_ghosts.mp hm'
      obtain rfl := Option.some.inj (hv'.symm.trans hv)
      rw [Option.some.inj (hpid'.symm.trans hpid)]
  | false =>
      refine .inr ⟨rfl, .forM ?_⟩
      rintro ⟨k', pid'⟩ hm
      by_cases hk : k' = k
      · subst hk
        obtain ⟨v, hv, hpid, hd⟩ := mem_ghosts.mp hm
        have he : s.lookAt (.card k') = some v.1 := Option.map_eq_some_iff.mpr ⟨v, hv, rfl⟩
        refine idle_unencoded ?_
        simpa [ghostTest, he, hpid, hd] using htest
      · exact idle_broadcastClear (by simpa using hk) pid'

theorem tests_cleared (hk : ∀ app ∈ M.bounds.slots, SocketId.ofApp app ≠ k) :
    Prog.Tests M.Holds (Shared.lookAt (.card k)) (ghostTest C env k) none (onCleared C env) := by
  have hforget : Prog.Idle M.Holds (Shared.lookAt (.card k))
      (Prog.updates fun s : Shared => { s with handoff := s.handoff.noteScan env none }) :=
    Prog.idle_locked (f := fun s : Shared => ((), { s with handoff := s.handoff.noteScan env none })) fun s hs =>
      ⟨hs.wiped (s.look_forgetScans env) rfl, rfl⟩
  refine hforget.tests_bind fun _ => Prog.tests_locked_bind fun s hs => ⟨hs.wiped s.look_drain rfl, rfl, ?_⟩
  refine (Prog.Idle.forM ?_).tests_bind fun _ => tests_reap
  rintro ⟨pid, app⟩ hm
  refine idle_broadcastClear (fun h => hk app (Fair.places hs (.shown app) ?_) (by simpa using h)) pid
  exact Option.isSome_iff_exists.mpr ⟨pid, mem_takeProcessClear.mp hm⟩

theorem idle_cleared : Prog.Idle M.Holds (Shared.lookAt .guard) (onCleared C env) := by
  refine Prog.idle_locked_bind (f := fun s : Shared => ((), { s with handoff := s.handoff.noteScan env none }))
    fun s hs => ⟨hs.wiped (s.look_forgetScans env) rfl, rfl, ?_⟩
  refine Prog.idle_locked_bind fun s hs => ⟨hs.wiped s.look_drain rfl, rfl, ?_⟩
  refine (Prog.Idle.forM ?_).bind fun _ => Prog.idle_locked_bind (f := fun s : Shared => (ghosts env s.cache, s))
    fun s hs => ⟨hs, rfl, .forM ?_⟩
  · rintro ⟨pid, app⟩ _
    exact idle_broadcastClear (by simp) pid
  · rintro ⟨k, pid⟩ _
    exact idle_broadcastClear (by simp) pid

end Cleared

end Meeting

end RichPresence
