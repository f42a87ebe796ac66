import RichPresence.Bridge.Room
import RichPresence.Lib.Run
import RichPresence.Protocol.Serde

namespace RichPresence

open Lib

def Exclusive (s : Shared) : Prop :=
  ∀ app owner, s.handoff.liveIpc.lookup app = some owner → s.showsGeneric app = false

/-- A publish passes the flood guard while the generic card of the application
it names is up. -/
def lateTakeover (C : Codec) (s : Shared) (e : Event) : Bool :=
  match e.input with
  | .setActivity cmd =>
      cmd.activity.isSome && !dropped C e.env cmd s && cmd.applicationId.any s.showsGeneric
  | .proc _ => false

variable {C : Codec} {env : Env} {cmd : ActivityCmd} {s s' : Shared}

theorem Exclusive.not_owned (h : Exclusive s) {app : AppId} (hg : s.showsGeneric app = true) :
    s.handoff.liveIpc.lookup app = none := by
  cases ho : s.handoff.liveIpc.lookup app with
  | none => rfl
  | some owner => exact absurd hg (by simp [h app owner ho])

theorem Exclusive.of_cards (h : Exclusive s)
    (hl : ∀ app owner, s'.handoff.liveIpc.lookup app = some owner → ∃ o, s.handoff.liveIpc.lookup app = some o)
    (hc : ∀ app, s'.showsGeneric app = true → s.showsGeneric app = true ∨ s'.handoff.liveIpc.lookup app = none) :
    Exclusive s' := by
  intro app owner ho
  by_contra hg
  rcases hc app (by simpa using hg) with hs | hn
  · obtain ⟨o, ho'⟩ := hl app owner ho
    rw [h.not_owned hs] at ho'
    cases ho'
  · rw [hn] at ho
    cases ho

theorem Exclusive.dimmed (h : Exclusive s) (hd : Dimmed s s') : Exclusive s' :=
  h.of_cards (fun _ owner ho => ⟨owner, hd.handoff ▸ ho⟩) fun _ hg => .inl (hd.showsGeneric hg)

theorem Exclusive.same_owners (h : Exclusive s) (hl : s'.handoff.liveIpc = s.handoff.liveIpc)
    (hc : s'.cache = s.cache) : Exclusive s' := by
  intro app owner ho
  rw [hl] at ho
  have := h app owner ho
  rwa [Shared.showsGeneric, hc]

theorem resumeGeneric_showsGeneric {game : ScannedGame} {app : AppId}
    (h : ((resumeGeneric C env game).exec s).showsGeneric app = true) :
    app = game.id ∨ s.showsGeneric app = true := by
  obtain ⟨v, hv, hg⟩ := showsGeneric_iff.mp h
  rcases resumeGeneric_cache_sub hv with ⟨hk, _⟩ | hs
  · exact .inl (SocketId.ofApp_injective hk)
  · exact .inr (showsGeneric_iff.mpr ⟨v, hs, hg⟩)

theorem Exclusive.resumeGeneric (h : Exclusive s) {game : ScannedGame}
    (hn : s.handoff.liveIpc.lookup game.id = none) : Exclusive ((resumeGeneric C env game).exec s) := by
  refine h.of_cards (fun app owner ho => ⟨owner, by rwa [resumeGeneric_handoff] at ho⟩) ?_
  intro app hg
  rcases resumeGeneric_showsGeneric hg with rfl | hs
  · exact .inr (by rwa [resumeGeneric_handoff])
  · exact .inl hs

theorem Exclusive.announce (h : Exclusive s) (changed : Bool) : Exclusive (announce C env cmd s changed) :=
  h.of_cards (fun _ owner ho => ⟨owner, by rwa [announce_handoff] at ho⟩)
    fun _ hg => .inl (announce_showsGeneric hg)

theorem Exclusive.claimed (h : Exclusive s) (hc : cmd.applicationId.any s.showsGeneric = false) :
    Exclusive (claimed env cmd s) := by
  rw [RichPresence.claimed]
  cases happ : cmd.applicationId with
  | none => exact h
  | some app =>
      simp only [happ, Option.any_some] at hc
      intro a owner ho
      rcases Table.lookup_insertBounded ho with ⟨rfl, _⟩ | hold
      · exact hc
      · exact h a owner hold

theorem Exclusive.resumed (h : Exclusive s) (hg : isGenuineClear cmd = true) :
    Exclusive ((resumeAfterClear C env (fixed C env cmd)).exec s) := by
  rw [resumeAfterClear_genuine hg]
  have hrel : Exclusive (released env cmd s) := by
    refine h.of_cards (fun app owner ho => ?_) fun app hg => .inl hg
    have hl := releaseSlots_liveIpc env cmd s.handoff app
    change (releaseSlots env cmd s.handoff).2.liveIpc.lookup app = some owner at ho
    rw [hl] at ho
    split at ho
    next => cases ho
    next => exact ⟨owner, ho⟩
  -- Every body of the loop leaves the owners as the release left them.
  refine (Prog.exec_forM_induction
    (fun t => Exclusive t ∧ t.handoff = (released env cmd s).handoff) ⟨hrel, rfl⟩ ?_).1
  rintro game hm t ⟨ht, hh⟩
  refine ⟨ht.resumeGeneric ?_, by rw [resumeGeneric_handoff, hh]⟩
  obtain ⟨hrls, ho, _⟩ := mem_releaseSlots.mp (List.mem_of_mem_filter hm)
  rw [hh]
  exact (releaseSlots_liveIpc env cmd s.handoff game.id).trans (if_pos ⟨hrls, ho⟩)

theorem Exclusive.setActivity (h : Exclusive s)
    (hc : lateTakeover C s ⟨env, .setActivity cmd⟩ = false) :
    Exclusive ((handleSetActivity C env cmd).exec s) := by
  have hrec : Exclusive (recorded C env cmd s) := h.same_owners rfl rfl
  by_cases hargs : cmd.args = none
  · rw [handleSetActivity_noArgs hargs]
    exact hrec
  · cases ha : cmd.activity with
    | none =>
        rw [handleSetActivity_clear ha (Option.isSome_iff_ne_none.mpr hargs)]
        refine Exclusive.announce ?_ _
        cases hg : isGenuineClear cmd with
        | true => exact hrec.resumed hg
        | false =>
            rw [resumeAfterClear_publish hg]
            exact hrec
    | some a =>
        have ha' : cmd.activity.isSome := by simp [ha]
        cases hd : dropped C env cmd s with
        | true =>
            rw [handleSetActivity_dropped hd]
            exact h
        | false =>
            rw [handleSetActivity_publish ha' hd]
            refine Exclusive.announce (hrec.claimed ?_) _
            change cmd.applicationId.any s.showsGeneric = false
            simpa [lateTakeover, ha', hd] using hc

theorem Exclusive.detected (h : Exclusive s) (game : ScannedGame) :
    Exclusive ((onDetected C env game).exec s) := by
  have hs : Exclusive (scanned env (some game) s) := h.same_owners (by simp [scanned]) rfl
  cases ho : s.handoff.liveIpc.lookup game.id with
  | some owner =>
      rw [onDetected_owned ho]
      cases s.lastProcess.lookup game.id with
      | some pid =>
          refine Exclusive.dimmed ?_ (broadcastClear_dimmed ..)
          exact hs.same_owners rfl rfl
      | none => exact hs.same_owners rfl rfl
  | none =>
      cases hp : s.lastProcess.lookup game.id with
      | some pid =>
          rw [onDetected_shown ho hp]
          exact hs
      | none =>
          rw [onDetected_fresh ho hp]
          exact hs.resumeGeneric (by simpa [scanned] using ho)

theorem Exclusive.removed (h : Exclusive s) (appId : AppId) (pid : Nat) :
    Exclusive ((onRemoved C env appId pid).exec s) := by
  have hs : Exclusive (unscanned appId pid s) := h.same_owners (by simp [unscanned]) rfl
  by_cases hp : s.lastProcess.lookup appId = some pid
  · rw [onRemoved_match hp]
    refine Exclusive.dimmed ?_ (broadcastClear_dimmed ..)
    exact hs.same_owners rfl rfl
  · rw [onRemoved_stale hp]
    exact hs

theorem Exclusive.step (h : Exclusive s) {e : Event} (hc : lateTakeover C s e = false) :
    Exclusive (step C s e) := by
  obtain ⟨env, input⟩ := e
  rcases input with cmd | game | ⟨appId, pid⟩ | _
  · exact h.setActivity hc
  · exact h.detected game
  · exact h.removed appId pid
  · refine Exclusive.dimmed ?_ onCleared_dimmed
    exact h.same_owners (HandoffState.noteScan_liveIpc ..) rfl

/-- When no publish passes the flood guard while the generic card of its
application is up, no state of the run shows a generic card in an owned slot. -/
theorem run_exclusive {es pre : List Event} (h : Along (RichPresence.step C) (lateTakeover C · · = false) {} es)
    (hpre : pre <+: es) : Exclusive (run C pre) :=
  Along.invariant Exclusive (fun _ _ hs hc => hs.step hc) (fun _ _ ho => by simp at ho) (h.initial hpre)

/-- A game is detected and then publishes through its SDK: the slot has its
owner and the generic card is still up. -/
theorem takeover_keeps_generic_card :
    let env := Env.calm (fun _ => true) 0
    let es : List Event := [.detected env hades, .publish env hades.id 77 "Escaping"]
    Along (step Serde.codec) (StartsWithRoom Serde.codec) {} es ∧ SocketId.ofPid 77 ≠ SocketId.ofApp hades.id ∧
      (run Serde.codec es).handoff.liveIpc.lookup hades.id = some 77 ∧
      (run Serde.codec es).showsGeneric hades.id = true := by
  decide +kernel

/-- The same game publishes before the scanner finds it. -/
theorem run_exclusive_early_takeover :
    let env := Env.calm (fun _ => true) 0
    let es : List Event := [.publish env hades.id 77 "Escaping", .detected env hades]
    (run Serde.codec es).handoff.liveIpc.lookup hades.id = some 77 ∧ Exclusive (run Serde.codec es) :=
  ⟨by decide +kernel, run_exclusive (by decide +kernel) (List.prefix_refl _)⟩

end RichPresence
