import RichPresence.Bridge.Reference

namespace RichPresence

open Lib

section Step

variable {C : Codec} {env : Env} {cmd : ActivityCmd} {s : Shared} {r : Reference} {pids : List Nat}
  {apps : List AppId}

theorem claimed_lookup (hfit : ∀ app ∈ cmd.applicationId,
      Table.size (s.handoff.liveIpc.insert app cmd.pid) ≤ maxHandoffEntries)
    (hlive : maxHandoffEntries ≤ Table.size s.handoff.liveIpc → ∀ slot ∈ s.handoff.liveIpc.entries,
      cmd.applicationId = some slot.1 ∨ env.isProcessAlive slot.2 = true) (a : AppId) :
    (claimed env cmd s).handoff.liveIpc.lookup a =
      if cmd.applicationId = some a then some cmd.pid else s.handoff.liveIpc.lookup a := by
  rw [claimed]
  cases happ : cmd.applicationId with
  | none => simp
  | some app =>
      have hpurge : maxHandoffEntries ≤ Table.size s.handoff.liveIpc → ∀ k v,
          s.handoff.liveIpc.lookup k = some v → k ≠ app → env.isProcessAlive v = true := by
        intro hfull k v hk hne
        rcases hlive hfull ⟨k, v⟩ (AList.mem_lookup_iff.mp hk) with he | halive
        · rw [happ] at he
          exact absurd (Option.some.inj he).symm hne
        · exact halive
      refine (Table.lookup_insertBounded_of_live hpurge (hfit app happ) a).trans ?_
      by_cases ha : a = app
      · simp [ha]
      · simp [ha, Ne.symm ha]

theorem Holds.congr {s' : Shared} {pid : Nat} {card : Option Bytes}
    (h : s'.cache.lookup (SocketId.ofPid pid) = s.cache.lookup (SocketId.ofPid pid)) (hs : Holds s pid card) :
    Holds s' pid card := by
  cases card with
  | none => exact h.trans hs
  | some bytes =>
      obtain ⟨v, hv, hc⟩ := hs
      exact ⟨v, h.trans hv, hc⟩

theorem Agrees.publish (hC : C.Encodes) (h : Agrees s r) (ha : cmd.activity.isSome) (hfit : CardFits cmd s)
    (howners : ∀ app ∈ cmd.applicationId,
      Table.size (s.handoff.liveIpc.insert app cmd.pid) ≤ maxHandoffEntries)
    (hlive : maxHandoffEntries ≤ Table.size s.handoff.liveIpc → ∀ slot ∈ s.handoff.liveIpc.entries,
      cmd.applicationId = some slot.1 ∨ env.isProcessAlive slot.2 = true) :
    Agrees (announce C env cmd (claimed env cmd s)
        (differs (s.cache.lookup (SocketId.ofPid cmd.pid)) (fingerprint C env cmd))) (r.publish C env cmd) := by
  have hfit' : CardFits cmd (claimed env cmd s) := by
    intro v
    rw [claimed_cache]
    exact hfit v
  constructor
  · intro pid
    by_cases hp : pid = cmd.pid
    · subst hp
      obtain ⟨v, hv, hc, hfp⟩ := announce_publish (s := claimed env cmd s) env hC ha hfit'
      rw [claimed_cache] at hv
      simp only [Reference.publish, Function.update_self, hfp]
      exact ⟨v, hfp ▸ hv, hc, rfl⟩
    · have hk : SocketId.ofPid pid ≠ SocketId.ofPid cmd.pid := fun hk => hp (SocketId.ofPid_injective hk)
      simp only [Reference.publish, Function.update_of_ne hp]
      exact (h.cards pid).congr (by rw [announce_other hfit' hk, claimed_cache])
  · intro a
    rw [announce_handoff, claimed_lookup howners hlive, h.owners a]
    rfl

theorem Agrees.dropped (hC : C.Encodes) (h : Agrees s r) (ha : cmd.activity.isSome)
    (hd : differs (s.cache.lookup (SocketId.ofPid cmd.pid)) (fingerprint C env cmd) = false)
    (howner : ∀ app ∈ cmd.applicationId, s.handoff.liveIpc.lookup app = some cmd.pid) :
    Agrees s (r.publish C env cmd) := by
  obtain ⟨bytes, hfp⟩ := fingerprint_isSome env hC ha
  constructor
  · intro pid
    by_cases hp : pid = cmd.pid
    · subst hp
      simp only [Reference.publish, Function.update_self, hfp]
      rw [hfp] at hd
      cases hl : s.cache.lookup (SocketId.ofPid cmd.pid) with
      | none => simp [hl, differs] at hd
      | some v =>
          simp only [hl, differs, Bool.or_eq_false_iff, bne_eq_false_iff_eq] at hd
          exact ⟨v, hl, hd.1, hd.2⟩
    · simp only [Reference.publish, Function.update_of_ne hp]
      exact h.cards pid
  · intro a
    by_cases happ : cmd.applicationId = some a
    · simp only [Reference.publish, happ, if_true]
      exact howner a happ
    · simp only [Reference.publish, happ, if_false]
      exact h.owners a

theorem resumed_owners (hs : s.handoff.lastScans = ∅) (ha : cmd.activity = none)
    (hzero : cmd.pid = 0 → ∀ slot ∈ s.handoff.liveIpc.entries, slot.2 = 0 → ¬Releases cmd slot.1) (a : AppId) :
    ((resumeAfterClear C env (fixed C env cmd)).exec s).handoff.liveIpc.lookup a =
      if Releases cmd a ∧ s.handoff.liveIpc.lookup a = some cmd.pid then none
      else s.handoff.liveIpc.lookup a := by
  by_cases hp : cmd.pid = 0
  · have hg : isGenuineClear cmd = false := by
      rw [Bool.eq_false_iff, ne_eq, isGenuineClear_iff]
      exact fun hg => hg.1 hp
    rw [resumeAfterClear_publish hg, if_neg]
    rintro ⟨hrel, ho⟩
    exact hzero hp ⟨a, cmd.pid⟩ (AList.mem_lookup_iff.mp ho) hp hrel
  · rw [resumed_unscanned hs (isGenuineClear_iff.mpr ⟨hp, ha⟩)]
    exact releaseSlots_liveIpc env cmd s.handoff a

theorem Agrees.clear (hC : C.Encodes) (h : Agrees s r) (hconf : Confined pids apps s) (ha : cmd.activity = none)
    (hargs : cmd.args.isSome)
    (hzero : cmd.pid = 0 → ∀ slot ∈ s.handoff.liveIpc.entries, slot.2 = 0 → ¬Releases cmd slot.1) :
    Agrees (announce C env cmd ((resumeAfterClear C env (fixed C env cmd)).exec s)
        (differs (s.cache.lookup (SocketId.ofPid cmd.pid)) none)) (r.clear cmd) := by
  have hcache : ((resumeAfterClear C env (fixed C env cmd)).exec s).cache = s.cache :=
    resumed_cache hconf.unscanned
  constructor
  · intro pid
    by_cases hp : pid = cmd.pid
    · subst hp
      simp only [Reference.clear, Function.update_self]
      have hh := h.cards cmd.pid
      cases hl : s.cache.lookup (SocketId.ofPid cmd.pid) with
      | none =>
          rw [Holds, announce]
          change ((resumeAfterClear C env (fixed C env cmd)).exec s).cache.lookup _ = none
          rw [hcache, hl]
      | some v =>
          have hc : v.1.isClear = false := by
            cases hr : r.cards cmd.pid with
            | none =>
                rw [hr, Holds, hl] at hh
                cases hh
            | some bytes =>
                rw [hr] at hh
                obtain ⟨v', hv', hc', _⟩ := hh
                rw [hl] at hv'
                cases hv'
                exact hc'
          obtain ⟨e, he⟩ := sdkCard_isSome env hC hargs
          have hclear : e.isClear = true := by
            rw [(sdkCard_spec he).isClear, ha]
            rfl
          have hd : differs (some v) none = true := by simp [differs, hc]
          rw [Holds, announce, hd, if_pos rfl, he]
          exact (broadcastActivity_clear hclear).trans (if_pos rfl)
    · have hk : SocketId.ofPid pid ≠ SocketId.ofPid cmd.pid := fun hk => hp (SocketId.ofPid_injective hk)
      simp only [Reference.clear, Function.update_of_ne hp]
      exact (h.cards pid).congr (by rw [announce_clear_other ha hk, hcache])
  · intro a
    rw [announce_handoff, resumed_owners hconf.unscanned ha hzero, h.owners a]
    rfl

theorem Confined.step (h : Confined pids apps s) {e : Event} (hcmd : e.isCommand = true)
    (hp : ∀ p ∈ e.sdkPid, p ∈ pids) (ha : ∀ app ∈ e.namedApp, app ∈ apps) : Confined pids apps (step C s e) := by
  obtain ⟨env, cmd | input⟩ := e
  · change Confined pids apps ((handleSetActivity C env cmd).exec s)
    have hp : cmd.pid ∈ pids := hp cmd.pid rfl
    by_cases hargs : cmd.args = none
    · rw [handleSetActivity_noArgs hargs]
      exact h.recorded
    cases hact : cmd.activity with
    | none =>
        rw [handleSetActivity_clear hact (Option.isSome_iff_ne_none.mpr hargs)]
        exact h.recorded.resumed.announce hp _
    | some activity =>
        cases hd : RichPresence.dropped C env cmd s with
        | true =>
            rw [handleSetActivity_dropped hd]
            exact h
        | false =>
            rw [handleSetActivity_publish (by simp [hact]) hd]
            exact (h.recorded.claimed ha).announce hp _
  · cases hcmd

theorem Agrees.step (hC : C.Encodes) (h : Agrees s r) (hconf : Confined pids apps s)
    (hpids : pids.length ≤ maxCachedActivities) (happs : apps.length ≤ maxHandoffEntries) {e : Event}
    (hcmd : e.isCommand = true) (hp : ∀ p ∈ e.sdkPid, p ∈ pids) (ha : ∀ app ∈ e.namedApp, app ∈ apps)
    (hidle : GuardsIdle C s e) : Agrees (step C s e) (r.apply C e) := by
  obtain ⟨env, cmd | input⟩ := e
  · obtain ⟨hdrop, hfull, hzero⟩ := hidle
    change Agrees ((handleSetActivity C env cmd).exec s) _
    by_cases hargs : cmd.args = none
    · have happly : r.apply C ⟨env, .setActivity cmd⟩ = r := if_pos (by simp [hargs])
      rw [handleSetActivity_noArgs hargs, happly]
      exact ⟨h.cards, h.owners⟩
    have hargs := Option.isSome_iff_ne_none.mpr hargs
    have hnone : cmd.args.isNone = false := by rwa [← Option.not_isSome, Bool.not_eq_false']
    have hrec : Agrees (recorded C env cmd s) r := ⟨h.cards, h.owners⟩
    have happly : r.apply C ⟨env, .setActivity cmd⟩ =
        if cmd.activity.isSome then r.publish C env cmd else r.clear cmd := if_neg (by simp [hnone])
    cases hact : cmd.activity with
    | none =>
        rw [handleSetActivity_clear hact hargs, happly, if_neg (by simp [hact])]
        refine hrec.clear hC hconf.recorded hact hargs fun hz => ?_
        exact hzero (by simp [hact]) hz hargs
    | some activity =>
        have hact' : cmd.activity.isSome := by simp [hact]
        rw [happly, if_pos hact']
        cases hd : RichPresence.dropped C env cmd s with
        | true =>
            rw [handleSetActivity_dropped hd]
            exact h.dropped hC hact' (hdrop hd).1 (hdrop hd).2
        | false =>
            rw [handleSetActivity_publish hact' hd]
            refine hrec.publish hC hact' (hconf.recorded.cards_fit hpids (hp _ rfl)) (fun app happ => ?_) ?_
            · exact hconf.recorded.owners_fit happs (ha app happ) cmd.pid
            · exact hfull hact'
  · cases hcmd

end Step

variable {C : Codec}

/-- With at most as many pids and applications as the tables take, in a run of
commands whose guards stay idle every state agrees with the guard-free
reference. -/
theorem run_agrees_reference (hC : C.Encodes) {es pre : List Event} (hcmds : ∀ e ∈ es, e.isCommand = true)
    (hpids : (pidsOf es).length ≤ maxCachedActivities) (happs : (appsOf es).length ≤ maxHandoffEntries)
    (hidle : Along (step C) (GuardsIdle C) {} es) (hpre : pre <+: es) :
    Agrees (run C pre) (Reference.run C pre) := by
  have hnamed : ∀ e ∈ es, e.isCommand = true ∧ (∀ p ∈ e.sdkPid, p ∈ pidsOf es) ∧
      ∀ app ∈ e.namedApp, app ∈ appsOf es := fun e he =>
    ⟨hcmds e he, fun p hp => List.mem_dedup.mpr (List.mem_filterMap.mpr ⟨e, he, hp⟩),
      fun app ha => List.mem_dedup.mpr (List.mem_filterMap.mpr ⟨e, he, ha⟩)⟩
  have hall := (hidle.and (Along.of_forall hnamed)).initial hpre
  have hstart : Confined (pidsOf es) (appsOf es) {} ∧ Agrees {} {} :=
    ⟨⟨rfl, fun _ _ h => by simp at h, fun _ _ h => by simp at h⟩, fun _ => rfl, fun _ => rfl⟩
  exact (hall.simulation (fun s r => Confined (pidsOf es) (appsOf es) s ∧ Agrees s r)
    (fun s r e ⟨hconf, hag⟩ ⟨hi, hc, hp, ha⟩ => ⟨hconf.step hc hp ha,
      hag.step hC hconf hpids happs hc hp ha hi⟩) hstart).2

/-- A client publishes, its connection is lost, and within the window it is back
with the same bytes: the flood guard still remembers them, and nothing is shown. -/
theorem republish_after_loss_dropped :
    let app : AppId := ⟨"1145360"⟩
    let es : List Event := [.publish (.calm (fun _ => true) 0) app 77 "Escaping",
      .clear (.calm (fun _ => true) (10 ^ 9)) none 77,
      .publish (.calm (fun _ => true) (2 * 10 ^ 9)) app 77 "Escaping"]
    (∀ e ∈ es, e.isCommand = true) ∧ (pidsOf es).length ≤ maxCachedActivities ∧
      (appsOf es).length ≤ maxHandoffEntries ∧ ¬Agrees (run Serde.codec es) (Reference.run Serde.codec es) := by
  intro app es
  refine ⟨by decide, by decide, by decide, fun h => ?_⟩
  have howner : (run Serde.codec es).handoff.liveIpc.lookup app = none := by decide +kernel
  have hasked : (Reference.run Serde.codec es).owners app = some 77 := by decide +kernel
  rw [h.owners app, hasked] at howner
  cases howner

/-- A repeat inside the window is dropped, and a named clear re-arms the slot. -/
theorem run_agrees_reference_repeat :
    let app : AppId := ⟨"1145360"⟩
    let es : List Event := [.publish (.calm (fun _ => true) 0) app 77 "Escaping",
      .publish (.calm (fun _ => true) (10 ^ 9)) app 77 "Escaping",
      .clear (.calm (fun _ => true) (2 * 10 ^ 9)) (some app) 77,
      .publish (.calm (fun _ => true) (3 * 10 ^ 9)) app 77 "Escaping"]
    (run Serde.codec es).handoff.liveIpc.lookup app = some 77 ∧
      Agrees (run Serde.codec es) (Reference.run Serde.codec es) :=
  ⟨by decide +kernel, run_agrees_reference Serde.codec_encodes (by decide) (by decide) (by decide)
    (by decide +kernel) (List.prefix_refl _)⟩

end RichPresence
