import RichPresence.Bridge.Gathering

namespace RichPresence

open Lib

variable {A : Type} {read : Read A} {C : Codec} {n : Newcomer} {refreshed : Bool} {s : Gathering}

theorem Built.names {payload : CachedActivity} {k : SocketId} (h : Built C payload k) {protocol : BridgeProtocol}
    (hread : Reads read C protocol) : Names read protocol payload k := by
  cases h with
  | clear _ _ h => exact emptyCached_names hread h
  | generic _ _ h => exact genericPayload_names hread h
  | sdk _ _ h => exact sdkCard_names hread h

theorem outcome_eq_none {payload : CachedActivity} : payload.outcome = none ↔ payload.isClear = true := by
  rw [CachedActivity.outcome]
  cases payload.isClear <;> simp

theorem outcome_eq_some {payload p : CachedActivity} :
    payload.outcome = some p ↔ payload.isClear = false ∧ payload = p := by
  rw [CachedActivity.outcome]
  cases payload.isClear <;> simp

namespace Gathering

/-- What every orderly step keeps: broadcasts under way agree with the cache, and
the newcomer shows what the cache has or a broadcast of it is still to come. -/
structure Tuned (read : Read A) (n : Newcomer) (refreshed : Bool) (s : Gathering) : Prop where
  filed : Filed read n.protocol s.shared.cache
  named : ∀ pump f, s.flights.lookup pump = some f → Names read n.protocol f.payload f.socketId
  member : s.joiner = .registered → ∃ c, s.shared.consumers.lookup n.id = some c ∧ c.protocol = n.protocol
  agreed : ∀ pump f, s.flights.lookup pump = some f → s.Final refreshed f.socketId →
    f.payload.outcome = s.due f.socketId
  served : ∀ k, s.Final refreshed k → ∀ frames, s.inbox n = some frames →
    Displays read n.protocol (viewOf read frames) k (s.due k) ∨
      ∃ pump f, s.flights.lookup pump = some f ∧ f.socketId = k ∧ (s.joiner.connecting = true → f.late = true)

namespace Tuned

theorem start {shared : Shared} (h : Filed read n.protocol shared.cache) :
    Tuned read n refreshed { shared := shared } where
  filed := h
  named _ _ hf := by simp at hf
  member hj := by cases hj
  agreed _ _ hf := by simp at hf
  served _ _ _ hi := by cases hi

theorem begun_filed (h : Tuned read n refreshed s) {pump : Nat} {env : Env} {payload : CachedActivity} {k : SocketId}
    (hn : Names read n.protocol payload k)
    (hdue : ∀ k', (s.begun pump env payload k).due k' = if k' = k then payload.outcome else s.due k') :
    Filed read n.protocol (s.begun pump env payload k).shared.cache := by
  intro k' card hcard
  have hd : (s.begun pump env payload k).due k' = some card.1 := by rw [due, hcard]; rfl
  rw [hdue] at hd
  split at hd
  next hk =>
      obtain ⟨hc, hp⟩ := outcome_eq_some.mp hd
      rw [← hp, hk]
      exact ⟨hc, hn⟩
  next =>
      obtain ⟨card', hcard', he⟩ := Option.map_eq_some_iff.mp hd
      rw [← he]
      exact h.filed k' card' hcard'

theorem update (h : Tuned read n refreshed s) {pump : Nat} {env : Env} {payload : CachedActivity} {k : SocketId}
    (hn : Names read n.protocol payload k) (ho : Orderly refreshed s (.update pump env payload k)) :
    Tuned read n refreshed (s.step n (.update pump env payload k)) := by
  cases hidle : s.flights.lookup pump with
  | some f =>
      simp only [step, hidle, Option.isSome_some, if_true]
      exact h
  | none =>
      have hstep : s.step n (.update pump env payload k) = s.begun pump env payload k := by
        simp only [step, hidle, Option.isSome_none, Bool.false_eq_true, if_false, begun]
      have hdue := begun_due pump env ho.1
      rw [hstep]
      refine ⟨h.begun_filed hn hdue, fun pump' f hf => ?_, fun hj => ?_, fun pump' f hf hfinal => ?_,
        fun k' hfinal frames hframes => ?_⟩
      · rcases begun_flight hf with rfl | hf
        · exact hn
        · exact h.named pump' f hf
      · obtain ⟨c, hc⟩ := h.member hj
        exact ⟨c, by rwa [begun, Shared.updateCache_consumers]⟩
      · rw [Final, hdue] at hfinal
        rw [hdue]
        rcases begun_flight hf with rfl | hf
        · rw [if_pos rfl]
        · by_cases hk : f.socketId = k
          · rw [if_pos hk] at hfinal ⊢
            rw [outcome_eq_none] at hfinal
            exact ho.2 hfinal ⟨pump', f⟩ (AList.mem_lookup_iff.mp hf) hk
          · rw [if_neg hk] at hfinal ⊢
            exact h.agreed pump' f hf hfinal
      · rw [begun_inbox] at hframes
        by_cases hk : k' = k
        · refine .inr ⟨pump, ⟨payload, k, s.joiner.hasSnapshot⟩, AList.lookup_insert _, hk.symm, fun hj => ?_⟩
          change s.joiner.connecting = true at hj
          cases hjoin : s.joiner <;> rw [hjoin] at hj <;> first | rfl | cases hj
        · rw [Final, hdue, if_neg hk] at hfinal
          rw [hdue, if_neg hk]
          rcases h.served k' hfinal frames hframes with hd | ⟨pump', f, hf, hsock, hlate⟩
          · exact .inl hd
          · exact .inr ⟨pump', f, begun_kept hidle hf, hsock, hlate⟩

theorem ne_passing (h : Tuned read n refreshed s) {pump : Nat} {env : Env} {f g : Flight}
    (hf : s.flights.lookup pump = some f) (ho : Orderly refreshed s (.fanOut pump env))
    (hj : s.joiner.connecting = true) (hfinal : s.Final refreshed g.socketId) (hlate : g.late = true) : g ≠ f := by
  rintro rfl
  have hclear : refreshed = false ∨ g.payload.isClear = true := by
    rcases hfinal with hr | hd
    · exact .inl hr
    · have hout := h.agreed pump g hf (.inr hd)
      rw [hd] at hout
      exact .inr (outcome_eq_none.mp hout)
  have hearly := ho hj g hf hclear
  rw [hlate] at hearly
  cases hearly

theorem landed_connecting (h : Tuned read n refreshed s) {pump : Nat} {env : Env} {f : Flight} {k : SocketId}
    (hf : s.flights.lookup pump = some f) (ho : Orderly refreshed s (.fanOut pump env))
    (hj : s.joiner.connecting = true) (hfinal : s.Final refreshed k) {frames : List Message}
    (hframes : s.inbox n = some frames) : Displays read n.protocol (viewOf read frames) k (s.due k) ∨
      ∃ pump' g, (s.landed pump env f).flights.lookup pump' = some g ∧ g.socketId = k ∧
        (s.joiner.connecting = true → g.late = true) := by
  rcases h.served k hfinal frames hframes with hd | ⟨pump', g, hg, rfl, hlate⟩
  · exact .inl hd
  · exact .inr ⟨pump', g, landed_kept hf hg (h.ne_passing hf ho hj hfinal (hlate hj)), rfl, hlate⟩

theorem landed_registered (h : Tuned read n refreshed s) {pump : Nat} {env : Env} {f : Flight} {k : SocketId}
    (hf : s.flights.lookup pump = some f) (hfinal : s.Final refreshed k) {sent : List Message}
    (hsent : s.inbox n = some sent) :
    Displays read n.protocol (viewOf read (sent ++ [encodeFor n.protocol f.payload])) k (s.due k) ∨
      ∃ pump' g, (s.landed pump env f).flights.lookup pump' = some g ∧ g.socketId = k ∧
        (s.joiner.connecting = true → g.late = true) := by
  rw [viewOf_concat]
  by_cases hk : k = f.socketId
  · subst hk
    have hown := displays_own (viewOf read sent) (h.named pump f hf)
    rw [h.agreed pump f hf hfinal] at hown
    exact .inl hown
  · rw [displays_other (h.named pump f hf) hk]
    rcases h.served k hfinal sent hsent with hd | ⟨pump', g, hg, hsock, hlate⟩
    · exact .inl hd
    · refine .inr ⟨pump', g, landed_kept hf hg ?_, hsock, hlate⟩
      rintro rfl
      exact hk hsock.symm

theorem fanOut (h : Tuned read n refreshed s) {pump : Nat} {env : Env}
    (hacc : ∀ sent, env.accepts n.id sent = true) (ho : Orderly refreshed s (.fanOut pump env)) :
    Tuned read n refreshed (s.step n (.fanOut pump env)) := by
  cases hf : s.flights.lookup pump with
  | none =>
      simp only [step, hf]
      exact h
  | some f =>
      have hstep : s.step n (.fanOut pump env) = s.landed pump env f := by simp only [step, hf, landed]
      rw [hstep]
      refine ⟨h.filed, fun pump' g hg => h.named pump' g (landed_flight hg), fun hj => ?_,
        fun pump' g hg => h.agreed pump' g (landed_flight hg), fun k hfinal frames hframes => ?_⟩
      · obtain ⟨c, hc, hp⟩ := h.member hj
        exact ⟨_, sendToAll_accepted hacc f.payload hc, hp⟩
      · by_cases hj : s.joiner = .registered
        · obtain ⟨c, hc, hp⟩ := h.member hj
          have hbefore : s.inbox n = some c.sent := by
            rw [inbox, hj, hc]
            rfl
          rw [landed_inbox_of_registered hj hacc hc, hp] at hframes
          obtain rfl := Option.some.inj hframes
          exact h.landed_registered hf hfinal hbefore
        · rw [landed_inbox_of_unregistered hj] at hframes
          refine h.landed_connecting hf ho ?_ hfinal hframes
          cases hjoin : s.joiner with
          | away =>
              rw [inbox, hjoin] at hframes
              cases hframes
          | holding _ | queued _ => rfl
          | registered => exact absurd hjoin hj

theorem snapshot (h : Tuned read n refreshed s) (env : Env) : Tuned read n refreshed (s.step n (.snapshot env)) := by
  cases hj : s.joiner with
  | away =>
      simp only [step, hj]
      refine ⟨h.filed, h.named, fun hr => (by cases hr), h.agreed, fun k _ frames hframes => .inl ?_⟩
      obtain rfl := Option.some.inj hframes
      exact mirrors_replay env h.filed (fun _ _ => rfl) k
  | holding cached => simpa only [step, hj] using h
  | queued sent => simpa only [step, hj] using h
  | registered => simpa only [step, hj] using h

theorem queue (h : Tuned read n refreshed s) {env : Env} (hacc : ∀ sent, env.accepts n.id sent = true)
    (hready : read n.ready = none) : Tuned read n refreshed (s.step n (.queue env)) := by
  cases hj : s.joiner with
  | holding cached =>
      simp only [step, hj]
      refine ⟨h.filed, h.named, fun hr => (by cases hr), h.agreed, fun k hfinal frames hframes => ?_⟩
      obtain rfl := Option.some.inj hframes
      have hserved := h.served k hfinal (cached.map (encodeFor n.protocol)) (by rw [inbox, hj])
      rw [hj] at hserved
      have hview : viewOf read (queueReplay env n.id n.protocol n.ready cached) =
          viewOf read (cached.map (encodeFor n.protocol)) := by
        rw [queueReplay_accepted hacc, viewOf, List.foldl_cons, View.apply, hready]
        rfl
      rw [hview]
      exact hserved
  | away => simpa only [step, hj] using h
  | queued sent => simpa only [step, hj] using h
  | registered => simpa only [step, hj] using h

theorem register (h : Tuned read n refreshed s) : Tuned read n refreshed (s.step n .register) := by
  cases hj : s.joiner with
  | queued sent =>
      simp only [step, hj]
      have hlookup : (s.shared.register n.id ⟨n.protocol, sent⟩).consumers.lookup n.id = some ⟨n.protocol, sent⟩ :=
        AList.lookup_insert _
      refine ⟨h.filed, h.named, fun _ => ⟨_, hlookup, rfl⟩, h.agreed, fun k hfinal frames hframes => ?_⟩
      rw [inbox] at hframes
      change Option.map _ ((s.shared.register n.id ⟨n.protocol, sent⟩).consumers.lookup n.id) = _ at hframes
      rw [hlookup] at hframes
      obtain rfl := Option.some.inj hframes
      rcases h.served k hfinal sent (by rw [inbox, hj]) with hd | ⟨pump, f, hf, hsock, _⟩
      · exact .inl hd
      · exact .inr ⟨pump, f, hf, hsock, fun hc => by cases hc⟩
  | away => simpa only [step, hj] using h
  | holding cached => simpa only [step, hj] using h
  | registered => simpa only [step, hj] using h

theorem step (hread : Reads read C n.protocol) (hready : read n.ready = none) (h : Tuned read n refreshed s)
    {e : LockStep} (hreg : e.Regular C n.id) (ho : Orderly refreshed s e) :
    Tuned read n refreshed (s.step n e) := by
  cases e with
  | update pump env payload k => exact h.update (Built.names hreg hread) ho
  | fanOut pump env => exact h.fanOut hreg ho
  | snapshot env => exact h.snapshot env
  | queue env => exact h.queue hreg hready
  | register => exact h.register

end Tuned

end Gathering

end RichPresence
