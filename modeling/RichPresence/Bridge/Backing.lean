import RichPresence.Bridge.Placement
import RichPresence.Bridge.Room
import RichPresence.Protocol.Serde

namespace RichPresence

open Lib

/-- The pid's card is a client's card for this application: its stored bytes
are those of an activity that carries the application id. -/
def BackedBy (C : Codec) (s : Shared) (app : AppId) (owner : Nat) : Prop :=
  ∃ e seq activity, s.cache.lookup (SocketId.ofPid owner) = some (e, seq) ∧ e.isClear = false ∧
    e.provenance = some ⟨"sdk", none⟩ ∧ activity.applicationId = some app ∧
    C.activity activity = some e.activityJson

def Backed (C : Codec) (s : Shared) : Prop :=
  ∀ app owner, s.handoff.liveIpc.lookup app = some owner → BackedBy C s app owner

/-- What an input spares the owners of slots. Their pids publish for no other
application, their clears release every slot they own, and an empty process
table finds them alive. -/
def SparesOwners (C : Codec) (s : Shared) (e : Event) : Prop :=
  ∀ slot ∈ s.handoff.liveIpc.entries,
    match e.input with
    | .setActivity cmd => slot.2 = cmd.pid → cmd.args.isSome →
        if cmd.activity.isSome then dropped C e.env cmd s = false → cmd.applicationId = some slot.1
        else isGenuineClear cmd = true ∧ Releases cmd slot.1
    | .proc .cleared => slot.2 = 0 ∨ e.env.isProcessAlive slot.2 = true
    | .proc _ => True

instance (C : Codec) (s : Shared) (e : Event) : Decidable (SparesOwners C s e) := by
  rw [SparesOwners]
  obtain ⟨env, cmd | _ | _ | _⟩ := e <;> infer_instance

variable {C : Codec} {env : Env} {cmd : ActivityCmd} {s s' : Shared}

def Bears (C : Codec) (s : Shared) (app : AppId) (owner : Nat) : Prop :=
  ∃ v activity, s.cache.lookup (SocketId.ofPid owner) = some v ∧ activity.applicationId = some app ∧
    C.activity activity = some v.1.activityJson

def Bearing (C : Codec) (s : Shared) : Prop :=
  ∀ app owner, s.handoff.liveIpc.lookup app = some owner → Bears C s app owner

theorem Bears.of_lookup {app : AppId} {owner : Nat} (h : Bears C s app owner)
    (hk : s'.cache.lookup (SocketId.ofPid owner) = s.cache.lookup (SocketId.ofPid owner)) :
    Bears C s' app owner := by
  obtain ⟨v, activity, hv, happ, hb⟩ := h
  exact ⟨v, activity, hk.trans hv, happ, hb⟩

theorem Bearing.of_owners (h : Bearing C s)
    (hl : ∀ app owner, s'.handoff.liveIpc.lookup app = some owner →
      s.handoff.liveIpc.lookup app = some owner ∧
        s'.cache.lookup (SocketId.ofPid owner) = s.cache.lookup (SocketId.ofPid owner)) : Bearing C s' :=
  fun app owner ho => (h app owner (hl app owner ho).1).of_lookup (hl app owner ho).2

section Inputs

variable {Sdk : Nat → Prop} {Scan : AppId → Prop}
  (sep : ∀ p a, Sdk p → Scan a → SocketId.ofPid p ≠ SocketId.ofApp a)

include sep

theorem Bearing.backed (h : Bearing C s) (hp : Placed Sdk Scan s) : Backed C s := by
  intro app owner ho
  obtain ⟨⟨e, seq⟩, activity, hv, happ, hb⟩ := h app owner ho
  rcases hp.cards _ _ hv with ⟨p, _, _, _, hc, hprov⟩ | ⟨a, ha, hk, _⟩
  · exact ⟨e, seq, activity, hv, hc, hprov, happ, hb⟩
  · exact absurd hk (sep owner a (hp.owners app owner ho) ha)

theorem Bearing.detected (h : Bearing C s) (hp : Placed Sdk Scan s) {game : ScannedGame} (hg : Scan game.id)
    (hr : s.HasRoom) : Bearing C ((onDetected C env game).exec s) := by
  have hkey (app : AppId) (owner : Nat) (ho : s.handoff.liveIpc.lookup app = some owner) :
      SocketId.ofPid owner ≠ SocketId.ofApp game.id := sep owner game.id (hp.owners app owner ho) hg
  cases ho : s.handoff.liveIpc.lookup game.id with
  | some owner =>
      rw [onDetected_owned ho]
      cases s.lastProcess.lookup game.id with
      | some pid =>
          refine h.of_owners fun app owner ha => ?_
          rw [broadcastClear_handoff, scanned, HandoffState.noteScan_liveIpc] at ha
          exact ⟨ha, broadcastClear_other (hkey app owner ha)⟩
      | none => exact h.of_owners fun app owner ha => ⟨by simpa [scanned] using ha, rfl⟩
  | none =>
      cases hl : s.lastProcess.lookup game.id with
      | some pid =>
          rw [onDetected_shown ho hl]
          exact h.of_owners fun app owner ha => ⟨by simpa [scanned] using ha, rfl⟩
      | none =>
          rw [onDetected_fresh ho hl]
          refine h.of_owners fun app owner ha => ?_
          rw [resumeGeneric_handoff, scanned, HandoffState.noteScan_liveIpc] at ha
          exact ⟨ha, resumeGeneric_other hr.1 (hkey app owner ha)⟩

theorem Bearing.removed (h : Bearing C s) (hp : Placed Sdk Scan s) (app : AppId) (pid : Nat) :
    Bearing C ((onRemoved C env app pid).exec s) := by
  by_cases hl : s.lastProcess.lookup app = some pid
  · rw [onRemoved_match hl]
    refine h.of_owners fun a owner ho => ?_
    rw [broadcastClear_handoff, unscanned, HandoffState.noteRemove_liveIpc] at ho
    exact ⟨ho, broadcastClear_other (sep owner app (hp.owners a owner ho) (hp.published app pid hl))⟩
  · rw [onRemoved_stale hl]
    exact h.of_owners fun a owner ho => ⟨by simpa [unscanned] using ho, rfl⟩

theorem ghosts_spare (hp : Placed Sdk Scan s) {owner : Nat} (ho : Sdk owner)
    (halive : owner = 0 ∨ env.isProcessAlive owner = true) :
    ∀ g ∈ ghosts env s.cache, SocketId.ofPid owner ≠ g.1 := by
  rintro ⟨k, dead⟩ hg hk
  obtain ⟨v, hl, hpid, hdead⟩ := mem_ghosts.mp hg
  change SocketId.ofPid owner = k at hk
  rw [← hk] at hl hpid
  rcases hp.cards _ _ hl with ⟨p, _, hkp, hcard, _⟩ | ⟨a, ha, hka, _⟩
  · obtain rfl := SocketId.ofPid_injective hkp
    obtain ⟨rfl, hz⟩ := cacheEntryPid_ofPid hcard hpid
    rcases halive with h0 | halive
    · exact hz h0
    · simp [halive] at hdead
  · exact absurd hka (sep owner a ho ha)

theorem Bearing.cleared (h : Bearing C s) (hp : Placed Sdk Scan s)
    (halive : ∀ app owner, s.handoff.liveIpc.lookup app = some owner →
      owner = 0 ∨ env.isProcessAlive owner = true) : Bearing C ((onCleared C env).exec s) := by
  refine h.of_owners fun app owner ho => ?_
  rw [onCleared_dimmed.handoff] at ho
  have ho' : s.handoff.liveIpc.lookup app = some owner := by simpa [scanned] using ho
  have hs := hp.owners app owner ho'
  refine ⟨ho', ?_⟩
  have hfirst : (emptied C env s).cache.lookup (SocketId.ofPid owner) =
      s.cache.lookup (SocketId.ofPid owner) :=
    clears_other (fun p : Nat × AppId => p.1) fun p hm =>
      sep owner p.2 hs (hp.published p.2 p.1 (mem_takeProcessClear.mp hm))
  rw [onCleared_exec, ← hfirst]
  refine clears_other (fun g : SocketId × Nat => g.2) (ghosts_spare sep ?_ hs (halive app owner ho'))
  exact hp.emptied

theorem Bearing.resumed (h : Bearing C s) (hp : Placed Sdk Scan s) (hg : isGenuineClear cmd = true)
    (hr : (forM (resumable env cmd s) (resumeGeneric C env)).Through Shared.HasRoom (released env cmd s)) :
    Bearing C ((resumeAfterClear C env (fixed C env cmd)).exec s) := by
  rw [resumeAfterClear_genuine hg]
  -- The loop keeps the owners the release left, and every card of theirs.
  have hloop := Prog.through_forM_induction
    (fun t : Shared => t.handoff = (released env cmd s).handoff ∧
      ∀ owner, Sdk owner → t.cache.lookup (SocketId.ofPid owner) = s.cache.lookup (SocketId.ofPid owner))
    ⟨rfl, fun _ _ => rfl⟩ hr fun game hm t ht hroom => by
      refine ⟨by rw [resumeGeneric_handoff, ht.1], fun owner ho => ?_⟩
      rw [resumeGeneric_other (resumeGeneric_hasRoom hroom).1 (sep owner game.id ho (hp.resumable hm))]
      exact ht.2 owner ho
  refine h.of_owners fun app owner ho => ?_
  rw [hloop.1] at ho
  have hold := (released_owner ho).1
  exact ⟨hold, hloop.2 owner (hp.owners app owner hold)⟩

end Inputs

theorem Bearing.publish (hC : C.Encodes) (h : Bearing C s) (ha : cmd.activity.isSome)
    (hown : ∀ app, s.handoff.liveIpc.lookup app = some cmd.pid → cmd.applicationId = some app)
    (hr : Table.size s.cache < maxCachedActivities) :
    Bearing C (announce C env cmd (claimed env cmd s)
      (differs (s.cache.lookup (SocketId.ofPid cmd.pid)) (fingerprint C env cmd))) := by
  obtain ⟨v, hv, _, hfp⟩ := announce_publish (s := claimed env cmd s) env hC ha (cardFits_of_room (by simpa using hr))
  rw [claimed_cache] at hv
  obtain ⟨activity, happ, hb⟩ := fingerprint_activity hfp
  intro app owner ho
  rw [announce_handoff] at ho
  by_cases hpid : owner = cmd.pid
  · subst hpid
    refine ⟨v, activity, hv, happ.trans ?_, hb⟩
    rcases claimed_owner ho with ⟨happ', _⟩ | hold
    · exact happ'
    · exact hown app hold
  · rcases claimed_owner ho with ⟨_, hp⟩ | hold
    · exact absurd hp hpid
    · refine (h app owner hold).of_lookup ?_
      rw [announce_other (cardFits_of_room (by simpa using hr)) (fun hk => hpid (SocketId.ofPid_injective hk)),
        claimed_cache]

theorem Bearing.clear {Sdk : Nat → Prop} {Scan : AppId → Prop}
    (sep : ∀ p a, Sdk p → Scan a → SocketId.ofPid p ≠ SocketId.ofApp a) (h : Bearing C s)
    (hp : Placed Sdk Scan s) (ha : cmd.activity = none)
    (hown : ∀ app, s.handoff.liveIpc.lookup app = some cmd.pid → isGenuineClear cmd = true ∧ Releases cmd app)
    (hr : isGenuineClear cmd = true →
      (forM (resumable env cmd s) (resumeGeneric C env)).Through Shared.HasRoom (released env cmd s))
    (changed : Bool) :
    Bearing C (announce C env cmd ((resumeAfterClear C env (fixed C env cmd)).exec s) changed) := by
  have hres : Bearing C ((resumeAfterClear C env (fixed C env cmd)).exec s) ∧
      ∀ app, ((resumeAfterClear C env (fixed C env cmd)).exec s).handoff.liveIpc.lookup app ≠ some cmd.pid := by
    cases hg : isGenuineClear cmd with
    | true =>
        refine ⟨h.resumed sep hp hg (hr hg), fun app ho => ?_⟩
        rw [resumed_handoff hg] at ho
        obtain ⟨hold, hn⟩ := released_owner ho
        exact hn ⟨(hown app hold).2, rfl⟩
    | false =>
        rw [resumeAfterClear_publish hg]
        exact ⟨h, fun app ho => Bool.false_ne_true (hg.symm.trans (hown app ho).1)⟩
  refine hres.1.of_owners fun app owner ho => ?_
  rw [announce_handoff] at ho
  exact ⟨ho, announce_clear_other ha fun hk => hres.2 app (SocketId.ofPid_injective hk ▸ ho)⟩

theorem Bearing.step {Sdk : Nat → Prop} {Scan : AppId → Prop} (hC : C.Encodes)
    (sep : ∀ p a, Sdk p → Scan a → SocketId.ofPid p ≠ SocketId.ofApp a) (h : Bearing C s)
    (hp : Placed Sdk Scan s) {e : Event} (hw : e.Within Sdk Scan) (hr : StartsWithRoom C s e)
    (hs : SparesOwners C s e) : Bearing C (step C s e) := by
  have hspare (app : AppId) (owner : Nat) (ho : s.handoff.liveIpc.lookup app = some owner) :=
    hs ⟨app, owner⟩ (AList.mem_lookup_iff.mp ho)
  obtain ⟨env, input⟩ := e
  rcases input with cmd | game | ⟨app, pid⟩ | _
  · have hrec : Bearing C (recorded C env cmd s) := h.of_owners fun _ _ ho => ⟨ho, rfl⟩
    change Bearing C ((handleSetActivity C env cmd).exec s)
    by_cases hargs : cmd.args = none
    · rw [handleSetActivity_noArgs hargs]
      exact hrec
    have hargs := Option.isSome_iff_ne_none.mpr hargs
    cases ha : cmd.activity with
    | some a =>
        have ha' : cmd.activity.isSome := by simp [ha]
        cases hd : dropped C env cmd s with
        | true =>
            rw [handleSetActivity_dropped hd]
            exact h
        | false =>
            rw [handleSetActivity_publish ha' hd]
            refine hrec.publish hC ha' (fun app ho => ?_) hr.here.1
            have hc := hspare app cmd.pid ho rfl hargs
            rw [if_pos ha'] at hc
            exact hc hd
    | none =>
        rw [handleSetActivity_clear ha hargs]
        refine hrec.clear sep hp.recorded ha (fun app ho => ?_) hr.resumed _
        have hc := hspare app cmd.pid ho rfl hargs
        rwa [if_neg (by simp [ha])] at hc
  · exact h.detected sep hp (hw.2 _ rfl) hr.here
  · exact h.removed sep hp app pid
  · exact h.cleared sep hp hspare

/-- In a run whose inputs all spare the owners of slots, with room in every
table, every owner of every state reached shows a card for its slot. -/
theorem run_backed (hC : C.Encodes) {es pre : List Event} (hsep : Separate es)
    (hroom : Along (RichPresence.step C) (StartsWithRoom C) {} es)
    (h : Along (RichPresence.step C) (SparesOwners C) {} es) (hpre : pre <+: es) : Backed C (run C pre) := by
  have sep := fun p a hp ha => hsep p hp a ha
  have hall := ((hroom.and h).and (Along.of_forall within_run)).initial hpre
  have hinv := hall.invariant
    (fun s => Placed (· ∈ es.filterMap Event.sdkPid) (· ∈ es.filterMap Event.scannedApp) s ∧ Bearing C s)
    (fun s e ⟨hp, hb⟩ ⟨⟨hr, hs⟩, hw⟩ => ⟨hp.step hw, hb.step hC sep hp hw hr hs⟩)
    ⟨.start, fun _ _ ho => by simp at ho⟩
  exact hinv.2.backed sep hinv.1

/-- The publishing client dies without a word and the process table empties:
its card is reaped, and its slot stays owned. -/
theorem reaped_owner_not_backed :
    let app : AppId := ⟨"1145360"⟩
    let es : List Event := [.publish (.calm (fun _ => true) 0) app 77 "Escaping",
      .cleared (.calm (fun pid => pid != 77) 0)]
    Along (step Serde.codec) (StartsWithRoom Serde.codec) {} es ∧ Separate es ∧
      ¬Backed Serde.codec (run Serde.codec es) := by
  intro app es
  refine ⟨by decide +kernel, by decide +kernel, fun h => ?_⟩
  have hnone : (run Serde.codec es).cache.lookup (SocketId.ofPid 77) = none := by decide +kernel
  obtain ⟨e, seq, activity, hl, _⟩ := h app 77 (by decide +kernel)
  rw [hnone] at hl
  cases hl

/-- Two clients own a slot each, one leaves, and the table empties. -/
theorem run_backed_two_clients :
    let app : AppId := ⟨"1145360"⟩
    let other : AppId := ⟨"504230"⟩
    let env := Env.calm (fun _ => true) 0
    let es : List Event := [.publish env app 77 "Escaping", .publish env other 78 "Climbing",
      .clear env none 78, .cleared env]
    (run Serde.codec es).handoff.liveIpc.lookup app = some 77 ∧ Backed Serde.codec (run Serde.codec es) :=
  ⟨by decide +kernel, run_backed Serde.codec_encodes (by decide +kernel) (by decide +kernel) (by decide +kernel)
    (List.prefix_refl _)⟩

end RichPresence
