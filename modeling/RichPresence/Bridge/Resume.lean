import RichPresence.Bridge.Carded

namespace RichPresence

open Lib

variable {C : Codec} {env : Env} {cmd : ActivityCmd} {s : Shared} {a : AppId}

theorem setActivity_lastScans :
    ((handleSetActivity C env cmd).exec s).handoff.lastScans = s.handoff.lastScans := by
  by_cases hargs : cmd.args = none
  · rw [handleSetActivity_noArgs hargs]
    rfl
  · cases ha : cmd.activity with
    | none =>
        rw [handleSetActivity_clear ha (Option.isSome_iff_ne_none.mpr hargs), announce_handoff]
        cases hg : isGenuineClear cmd with
        | false =>
            rw [resumeAfterClear_publish hg]
            rfl
        | true =>
            rw [resumed_handoff hg]
            exact releaseSlots_lastScans env cmd s.handoff
    | some activity =>
        cases hd : dropped C env cmd s with
        | true => rw [handleSetActivity_dropped hd]
        | false =>
            rw [handleSetActivity_publish (by simp [ha]) hd, announce_handoff, claimed_lastScans]
            rfl

theorem resumeGeneric_published (game : ScannedGame) (hr : Table.size s.lastProcess < maxHandoffEntries) :
    ((resumeGeneric C env game).exec s).published a = if a = game.id then some game.pid else s.published a := by
  rw [Shared.published, resumeGeneric_lastProcess, trackProcessPublication, Table.insertBounded_of_room hr,
    Table.lookup_insert_eq]
  rfl

theorem resumes_published {games : List ScannedGame}
    (ht : (forM games (resumeGeneric C env)).Through Shared.HasRoom s)
    (h : (s.published a).isSome ∨ ∃ game ∈ games, game.id = a) :
    (((forM games (resumeGeneric C env)).exec s).published a).isSome := by
  induction games generalizing s with
  | nil =>
      rcases h with h | ⟨_, hm, _⟩
      · exact h
      · cases hm
  | cons game games ih =>
      rw [List.forM_cons, Prog.through_bind] at ht
      rw [List.forM_cons, Prog.exec_bind]
      apply ih ht.2
      rw [resumeGeneric_published game (resumeGeneric_hasRoom ht.1).2.1]
      by_cases ha : a = game.id
      · rw [if_pos ha]
        exact .inl rfl
      · rw [if_neg ha]
        rcases h with h | ⟨known, hm, hid⟩
        · exact .inl h
        · rcases List.mem_cons.mp hm with rfl | hm
          · exact absurd hid.symm ha
          · exact .inr ⟨known, hm, hid⟩

theorem claimed_vacant (hroom : Table.size s.handoff.liveIpc < maxHandoffEntries)
    (ho : (claimed env cmd s).handoff.liveIpc.lookup a = none) : s.owners a = none := by
  rw [claimed] at ho
  cases happ : cmd.applicationId with
  | none =>
      rw [happ] at ho
      exact ho
  | some app =>
      rw [happ] at ho
      change (Table.insertBounded ..).lookup a = none at ho
      rw [Table.insertBounded_of_room hroom, Table.lookup_insert_eq] at ho
      split at ho
      next => cases ho
      next => exact ho

theorem released_vacant (ho : (released env cmd s).handoff.liveIpc.lookup a = none) :
    s.owners a = none ∨ Releases cmd a ∧ s.handoff.liveIpc.lookup a = some cmd.pid := by
  change (releaseSlots env cmd s.handoff).2.liveIpc.lookup a = none at ho
  rw [releaseSlots_liveIpc env cmd s.handoff a] at ho
  split at ho
  next hrel => exact .inr hrel
  next => exact .inl ho

/-- A slot without an owner whose game is known and alive stays published: a
publish only adds owners, and a clear that releases the slot resumes its game. -/
theorem setActivity_vacant {game : ScannedGame} (hr : StartsWithRoom C s ⟨env, .setActivity cmd⟩)
    (hscan : s.handoff.lastScans.lookup a = some game) (hlive : env.isProcessAlive game.pid = true)
    (h : s.owners a = none → (s.published a).isSome)
    (ho : ((handleSetActivity C env cmd).exec s).owners a = none) :
    (((handleSetActivity C env cmd).exec s).published a).isSome := by
  by_cases hargs : cmd.args = none
  · rw [handleSetActivity_noArgs hargs] at ho ⊢
    exact h ho
  · cases ha : cmd.activity with
    | none =>
        rw [handleSetActivity_clear ha (Option.isSome_iff_ne_none.mpr hargs)] at ho ⊢
        rw [Shared.owners, announce_handoff] at ho
        rw [Shared.published, announce_lastProcess]
        cases hg : isGenuineClear cmd with
        | false =>
            rw [resumeAfterClear_publish hg] at ho ⊢
            exact h ho
        | true =>
            rw [resumed_handoff hg] at ho
            rw [resumeAfterClear_genuine hg]
            apply resumes_published (hr.resumed hg)
            rcases released_vacant ho with ho | hrel
            · exact .inl (h ho)
            · have hid : game.id = a := s.handoff.keyed a game hscan
              subst hid
              have hm : game ∈ (releaseSlots env cmd s.handoff).1 := mem_releaseSlots.mpr ⟨hrel.1, hrel.2, hscan⟩
              exact .inr ⟨game, List.mem_filter.mpr ⟨hm, hlive⟩, rfl⟩
    | some activity =>
        cases hd : dropped C env cmd s with
        | true =>
            rw [handleSetActivity_dropped hd] at ho ⊢
            exact h ho
        | false =>
            rw [handleSetActivity_publish (by simp [ha]) hd] at ho ⊢
            rw [Shared.owners, announce_handoff] at ho
            rw [Shared.published, announce_lastProcess, claimed_lastProcess]
            have hroom : Table.size (recorded C env cmd s).handoff.liveIpc < maxHandoffEntries := hr.here.2.2.1
            exact h (claimed_vacant (s := recorded C env cmd s) hroom ho)

theorem setActivity_stale (env : Env) {Sdk : Nat → Prop} {Scan : AppId → Prop} (hp : Placed Sdk Scan s)
    (hsep : ∀ a, Scan a → SocketId.ofPid cmd.pid ≠ SocketId.ofApp a) (ha : cmd.activity = none)
    (happ : cmd.applicationId = some a) (ho : s.owners a ≠ some cmd.pid) :
    ((handleSetActivity C env cmd).exec s).handoff = s.handoff ∧
      ∀ v : CachedActivity × UInt64, v.1.isGeneric = true →
        (((handleSetActivity C env cmd).exec s).cache.lookup (SocketId.ofApp a) = some v ↔
          s.cache.lookup (SocketId.ofApp a) = some v) := by
  by_cases hargs : cmd.args = none
  · rw [handleSetActivity_noArgs hargs]
    exact ⟨rfl, fun _ _ => Iff.rfl⟩
  · have hkept : releaseSlots env cmd s.handoff = ([], s.handoff) := by
      have hn : ¬s.handoff.liveIpc.lookup a = some cmd.pid := ho
      simp only [releaseSlots, happ, HandoffState.noteClear, if_neg hn]
    have hres : (resumeAfterClear C env (fixed C env cmd)).exec (recorded C env cmd s) = recorded C env cmd s := by
      cases hg : isGenuineClear cmd with
      | false => exact resumeAfterClear_publish hg
      | true =>
          have hrec : releaseSlots env cmd (recorded C env cmd s).handoff = ([], s.handoff) := hkept
          rw [resumeAfterClear_genuine hg, resumable, released, hrec]
          rfl
    rw [handleSetActivity_clear ha (Option.isSome_iff_ne_none.mpr hargs), hres]
    refine ⟨announce_handoff _, fun v hg => ⟨fun hv => ?_, fun hv => ?_⟩⟩
    · rcases announce_cache_sub hv with ⟨_, he, _⟩ | hv
      · rw [(sdkCard_spec he).not_generic] at hg
        cases hg
      · exact hv
    · rw [announce_clear_other ha (hsep a (hp.generic hv hg)).symm]
      exact hv

theorem detected_lastScans (game : ScannedGame) (hr : s.HasRoom) :
    ((onDetected C env game).exec s).handoff.lastScans.lookup a =
      if a = game.id then some game else s.handoff.lastScans.lookup a := by
  have hs : (scanned env (some game) s).handoff.lastScans.lookup a =
      if a = game.id then some game else s.handoff.lastScans.lookup a := by
    change (Table.insertBounded ..).lookup a = _
    rw [Table.insertBounded_of_room hr.2.2.2.1, Table.lookup_insert_eq]
  rw [← hs]
  cases ho : s.handoff.liveIpc.lookup game.id with
  | some owner =>
      rw [onDetected_owned ho]
      cases s.lastProcess.lookup game.id with
      | some pid => rw [broadcastClear_handoff]
      | none => rfl
  | none =>
      cases hp : s.lastProcess.lookup game.id with
      | some pid => rw [onDetected_shown ho hp]
      | none => rw [onDetected_fresh ho hp, resumeGeneric_handoff]

end RichPresence
