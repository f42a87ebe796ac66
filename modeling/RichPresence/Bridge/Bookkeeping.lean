import RichPresence.Bridge.Bystander
import RichPresence.Bridge.Carded

namespace RichPresence

open Lib

def Shared.Bounded (s : Shared) : Prop := Table.size s.cache ≤ maxCachedActivities

def Shared.Stamped (s : Shared) : Prop :=
  ∀ k v, s.cache.lookup k = some v → v.2.toNat ≤ s.activitySeq.toNat

/-- Cards put up under these sockets stay: they all fit in, or they are the
youngest and not too many. -/
def Lands (s : Shared) (ks : List SocketId) : Prop :=
  (sockets s.cache ks).card ≤ maxCachedActivities ∨
    ks.toFinset.card ≤ maxCachedActivities ∧ s.Stamped ∧ s.activitySeq.toNat + ks.length < 2 ^ 64

/-- Whatever the input pushes out of the cache, it is no generic card. -/
def EvictsNoGeneric (C : Codec) (s : Shared) (e : Event) : Prop :=
  (∀ a, s.showsGeneric a = true → Outlives s.cache (e.shows C s) (SocketId.ofApp a)) ∧ Lands s (e.shows C s)

variable {C : Codec} {env : Env} {cmd : ActivityCmd} {s : Shared} {k : SocketId} {ks : List SocketId}
  {payload : CachedActivity}

theorem toNat_succ {seq : UInt64} (h : seq.toNat + 1 < 2 ^ 64) : (seq + 1).toNat = seq.toNat + 1 := by
  rw [UInt64.toNat_add]
  exact Nat.mod_eq_of_lt h

theorem size_pruneCache (w : Walk) (cache : ReplayCache) : Table.size (pruneCache w cache) ≤ maxCachedActivities := by
  rw [pruneCache]
  generalize hn : Table.size cache - maxCachedActivities = n
  induction n generalizing cache with
  | zero =>
      rw [Function.iterate_zero, id]
      omega
  | succ n ih =>
      have hsize := size_evictOldest w cache
      rw [Function.iterate_succ_apply]
      exact ih (evictOldest w cache) (by omega)

theorem broadcastActivity_seq (hc : payload.isClear = false) :
    ((broadcastActivity env payload k).exec s).activitySeq = s.activitySeq + 1 := by
  simp [broadcastActivity, Shared.setDirty, Shared.sendToAll, Shared.updateCache, hc]

theorem Shared.Bounded.of_sub {t : Shared} (h : s.Bounded)
    (hsub : ∀ k v, t.cache.lookup k = some v → s.cache.lookup k = some v) : t.Bounded := by
  refine (Table.size_le_of_subset s.cache.keys fun x hx => ?_).trans h
  obtain ⟨v, hv⟩ := Table.mem_keys_iff_lookup.mp hx
  exact Table.mem_keys_iff_lookup.mpr ⟨v, hsub x v hv⟩

theorem Shared.Bounded.broadcastActivity (h : s.Bounded) (env : Env) (payload : CachedActivity) (k : SocketId) :
    ((broadcastActivity env payload k).exec s).Bounded := by
  rw [Shared.Bounded, broadcastActivity_cache]
  cases hc : payload.isClear with
  | true =>
      rw [Shared.updateCache_clear _ _ _ _ hc]
      have hsub : ∀ x v, (s.cache.erase k).lookup x = some v → s.cache.lookup x = some v := by
        intro x v hv
        rw [Table.lookup_erase_eq] at hv
        split at hv
        next => cases hv
        next => exact hv
      exact Shared.Bounded.of_sub (t := { s with cache := s.cache.erase k }) h hsub
  | false =>
      rw [Shared.updateCache_card _ _ _ _ hc]
      exact size_pruneCache _ _

theorem Shared.Stamped.broadcastActivity (h : s.Stamped) (hwrap : s.activitySeq.toNat + 1 < 2 ^ 64)
    (hc : payload.isClear = false) : ((broadcastActivity env payload k).exec s).Stamped := by
  have hseq := toNat_succ hwrap
  intro k' v hv
  rw [broadcastActivity_seq hc, hseq]
  rw [broadcastActivity_cache, Shared.updateCache_card _ _ _ _ hc] at hv
  have hi := lookup_pruneCache hv
  rw [Table.lookup_insert_eq] at hi
  split at hi
  next =>
      obtain rfl := Option.some.inj hi
      exact hseq.le
  next => exact (h k' v hi).trans (Nat.le_succ _)

theorem Lands.outlives (h : Lands s (k :: ks)) (payload : CachedActivity) :
    Outlives (s.cache.insert k (payload, s.activitySeq + 1)) ks k := by
  rcases h with hfits | ⟨hfew, hstamped, hwrap⟩
  · apply Outlives.of_fits
    rwa [sockets_insert]
  · intro v hv
    obtain rfl : (payload, s.activitySeq + 1) = v := by simpa using hv
    rw [List.length_cons] at hwrap
    have hseq : (s.activitySeq + 1).toNat = s.activitySeq.toNat + 1 := toNat_succ (by omega)
    have hcover : sockets (s.cache.insert k (payload, s.activitySeq + 1)) ks ⊆
        olderThan (s.cache.insert k (payload, s.activitySeq + 1)) ks (s.activitySeq + 1) ∪ (k :: ks).toFinset := by
      intro x hx
      rw [Finset.mem_union, List.mem_toFinset, List.mem_cons, mem_olderThan, Table.lookup_insert_eq]
      rw [sockets_insert, mem_sockets, List.mem_cons] at hx
      by_cases hxk : x = k ∨ x ∈ ks
      · exact .inr hxk
      · obtain ⟨v, hv⟩ := hx.resolve_right hxk
        rw [not_or] at hxk
        have hle := hstamped x v hv
        refine .inl ⟨hxk.2, v, ?_, ?_⟩
        · rw [if_neg hxk.1, hv]
        · omega
    have hcard := (Finset.card_le_card hcover).trans (Finset.card_union_le _ _)
    change _ ≤ (olderThan (s.cache.insert k (payload, s.activitySeq + 1)) ks (s.activitySeq + 1)).card
    omega

theorem Lands.broadcastActivity (h : Lands s (k :: ks)) (env : Env) (hc : payload.isClear = false) :
    ((broadcastActivity env payload k).exec s).cache.lookup k = some (payload, s.activitySeq + 1) ∧
      Outlives ((RichPresence.broadcastActivity env payload k).exec s).cache ks k ∧
      Lands ((RichPresence.broadcastActivity env payload k).exec s) ks := by
  obtain ⟨hout, hlookup⟩ := (h.outlives payload).pruneCache (w := env.walk)
  refine ⟨?_, ?_, ?_⟩
  · rw [broadcastActivity_cache, Shared.updateCache_card _ _ _ _ hc, hlookup, Table.lookup_insert_eq, if_pos rfl]
  · rwa [broadcastActivity_cache, Shared.updateCache_card _ _ _ _ hc]
  · rcases h with hfits | ⟨hfew, hstamped, hwrap⟩
    · refine .inl ((Finset.card_le_card fun x hx => ?_).trans hfits)
      rw [mem_sockets] at hx ⊢
      rw [broadcastActivity_cache, Shared.updateCache_card _ _ _ _ hc] at hx
      rcases hx with ⟨v, hv⟩ | hx
      · have hi := lookup_pruneCache hv
        rw [Table.lookup_insert_eq] at hi
        split at hi
        next hxk => exact .inr (by simp [hxk])
        next => exact .inl ⟨v, hi⟩
      · exact .inr (List.mem_cons_of_mem _ hx)
    · rw [List.length_cons] at hwrap
      have hone : s.activitySeq.toNat + 1 < 2 ^ 64 := by omega
      have hseq := toNat_succ hone
      refine .inr ⟨(Finset.card_le_card fun x hx => ?_).trans hfew, hstamped.broadcastActivity hone hc, ?_⟩
      · rw [List.mem_toFinset] at hx ⊢
        exact List.mem_cons_of_mem _ hx
      · rw [broadcastActivity_seq hc, hseq]
        omega

theorem Shared.Bounded.announce (h : s.Bounded) (changed : Bool) : (announce C env cmd s changed).Bounded := by
  rw [RichPresence.announce]
  split
  next =>
      split
      next e he => exact h.broadcastActivity env e _
      next => exact h
  next => exact h

theorem Carded.size_le (h : Carded s) : Table.size s.lastProcess ≤ Table.size s.cache := by
  have hsub : s.lastProcess.keys.map SocketId.ofApp ⊆ s.cache.keys := by
    intro k hk
    obtain ⟨a, ha, rfl⟩ := List.mem_map.mp hk
    obtain ⟨pid, hp⟩ := Table.mem_keys_iff_lookup.mp ha
    have hg : s.showsGeneric a = true := (h a).symm.trans (by rw [Shared.published, hp]; rfl)
    obtain ⟨v, hv, -⟩ := showsGeneric_iff.mp hg
    exact Table.mem_keys_iff_lookup.mpr ⟨v, hv⟩
  have hnodup := s.lastProcess.keys_nodup.map SocketId.ofApp_injective
  simpa [Table.size] using (List.subperm_of_subset hnodup hsub).length_le

/-- What a run keeps: the published slots are those with a generic card, and
the cache is within its bound. -/
structure Kept (s : Shared) : Prop where
  carded : Carded s
  bounded : s.Bounded

namespace Kept

theorem room (h : Kept s) : Table.size s.lastProcess < maxHandoffEntries := by
  have hle := h.carded.size_le.trans h.bounded
  exact Nat.lt_of_le_of_lt hle (by decide)

theorem resumeGeneric (hC : C.Encodes) (h : Kept s) (env : Env) (game : ScannedGame)
    (hout : ∀ a, s.showsGeneric a = true → Outlives s.cache (SocketId.ofApp game.id :: ks) (SocketId.ofApp a))
    (hland : Lands s (SocketId.ofApp game.id :: ks)) :
    Kept ((resumeGeneric C env game).exec s) ∧
      (∀ a, ((RichPresence.resumeGeneric C env game).exec s).showsGeneric a = true →
        Outlives ((RichPresence.resumeGeneric C env game).exec s).cache ks (SocketId.ofApp a)) ∧
      Lands ((RichPresence.resumeGeneric C env game).exec s) ks := by
  obtain ⟨payload, hp⟩ := genericPayload_isSome hC env game
  obtain ⟨hc, hgen, -⟩ := genericPayload_spec hp
  have hexec : (RichPresence.resumeGeneric C env game).exec s =
      (broadcastActivity env payload (SocketId.ofApp game.id)).exec
        { s with lastProcess := trackProcessPublication env game.id game.pid s.lastProcess } := by
    rw [RichPresence.resumeGeneric, Prog.exec_bind, hp]
    rfl
  obtain ⟨hown, hnew, hland'⟩ := Lands.broadcastActivity
    (s := { s with lastProcess := trackProcessPublication env game.id game.pid s.lastProcess }) hland env hc
  rw [← hexec] at hown hnew hland'
  have hother (a : AppId) (ha : a ≠ game.id) (hg : s.showsGeneric a = true) :=
    (hout a hg).resumeGeneric C env fun hk => ha (SocketId.ofApp_injective hk)
  refine ⟨⟨h.carded.comesUp h.room (showsGeneric_iff.mpr ⟨_, hown, hgen⟩) fun a ha hg => ?_, ?_⟩,
    fun a hg => ?_, hland'⟩
  · rwa [showsGeneric_congr (hother a ha hg).2]
  · rw [hexec]
    have hb : Shared.Bounded
        { s with lastProcess := trackProcessPublication env game.id game.pid s.lastProcess } := h.bounded
    exact hb.broadcastActivity env payload _
  · by_cases ha : a = game.id
    · rwa [ha]
    · obtain ⟨v, hv, hv'⟩ := showsGeneric_iff.mp hg
      rcases resumeGeneric_cache_sub hv with ⟨hk, -⟩ | hv
      · exact absurd (SocketId.ofApp_injective hk) ha
      · exact (hother a ha (showsGeneric_iff.mpr ⟨v, hv, hv'⟩)).1

theorem resumes (hC : C.Encodes) (h : Kept s) {games : List ScannedGame}
    (hout : ∀ a, s.showsGeneric a = true →
      Outlives s.cache (games.map fun game => SocketId.ofApp game.id) (SocketId.ofApp a))
    (hland : Lands s (games.map fun game => SocketId.ofApp game.id)) :
    Kept ((forM games (RichPresence.resumeGeneric C env)).exec s) := by
  induction games generalizing s with
  | nil => exact h
  | cons game games ih =>
      obtain ⟨hkept, hout', hland'⟩ := h.resumeGeneric hC env game hout hland
      rw [List.forM_cons, Prog.exec_bind]
      exact ih hkept hout' hland'

theorem of_same {t : Shared} (h : Kept s) (hl : t.lastProcess = s.lastProcess) (hc : t.cache = s.cache) :
    Kept t :=
  ⟨h.carded.of_same hl hc, h.bounded.of_sub fun _ _ hv => hc ▸ hv⟩

variable {Sdk : Nat → Prop} {Scan : AppId → Prop}

theorem setActivity (hC : C.Encodes) (h : Kept s) (hp : Placed Sdk Scan s)
    (hsep : ∀ a, Scan a → SocketId.ofPid cmd.pid ≠ SocketId.ofApp a)
    (he : EvictsNoGeneric C s ⟨env, .setActivity cmd⟩) : Kept ((handleSetActivity C env cmd).exec s) := by
  have hrec : Kept (recorded C env cmd s) := h.of_same rfl rfl
  by_cases hargs : cmd.args = none
  · rw [handleSetActivity_noArgs hargs]
    exact hrec
  · cases ha : cmd.activity with
    | none =>
        rw [handleSetActivity_clear ha (Option.isSome_iff_ne_none.mpr hargs)]
        have hres : Kept ((resumeAfterClear C env (fixed C env cmd)).exec (recorded C env cmd s)) := by
          cases hg : isGenuineClear cmd with
          | false =>
              rw [resumeAfterClear_publish hg]
              exact hrec
          | true =>
              rw [EvictsNoGeneric, shows_clear hg] at he
              have hrel : Kept (released env cmd (recorded C env cmd s)) := hrec.of_same rfl rfl
              rw [resumeAfterClear_genuine hg]
              exact hrel.resumes hC he.1 he.2
        refine ⟨hres.carded.announce ?_, hres.bounded.announce _⟩
        exact Carded.announce_keeps hp.recorded.resumed hsep fun k hk => announce_clear_other ha hk
    | some activity =>
        cases hd : dropped C env cmd s with
        | true =>
            rw [handleSetActivity_dropped hd]
            exact h
        | false =>
            have hsome : cmd.activity.isSome := by simp [ha]
            rw [EvictsNoGeneric, shows_publish hsome hd] at he
            have hcl : Kept (claimed env cmd (recorded C env cmd s)) := hrec.of_same claimed_lastProcess claimed_cache
            have hcache : (claimed env cmd (recorded C env cmd s)).cache = s.cache := claimed_cache
            rw [handleSetActivity_publish hsome hd]
            refine ⟨hcl.carded.announce fun a hg => ?_, hcl.bounded.announce _⟩
            have hgen : s.showsGeneric a = true := by rwa [← showsGeneric_congr (by rw [hcache])]
            obtain ⟨v, hv, hv'⟩ := showsGeneric_iff.mp hgen
            have hne := (hsep a (hp.generic hv hv')).symm
            rwa [showsGeneric_congr (announce_outlived (by rw [hcache]; exact he.1 a hgen) hne)]

theorem detected (hC : C.Encodes) (h : Kept s) {game : ScannedGame}
    (he : EvictsNoGeneric C s ⟨env, .proc (.detected game)⟩) : Kept ((onDetected C env game).exec s) := by
  have hs : Kept (scanned env (some game) s) := h.of_same rfl rfl
  have hfresh (ho : s.handoff.liveIpc.lookup game.id = none) (hp : s.lastProcess.lookup game.id = none) :
      Kept ((RichPresence.resumeGeneric C env game).exec (scanned env (some game) s)) := by
    rw [EvictsNoGeneric, shows_detected ho hp] at he
    exact (hs.resumeGeneric hC env game he.1 he.2).1
  refine ⟨h.carded.detected hC fun ho hp => (hfresh ho hp).carded, ?_⟩
  cases ho : s.handoff.liveIpc.lookup game.id with
  | some owner =>
      rw [onDetected_owned ho]
      cases s.lastProcess.lookup game.id with
      | some pid =>
          have hfree : Shared.Bounded
              { scanned env (some game) s with lastProcess := s.lastProcess.erase game.id } := h.bounded
          exact hfree.of_sub (broadcastClear_dimmed ..).cache
      | none => exact h.bounded
  | none =>
      cases hp : s.lastProcess.lookup game.id with
      | some pid =>
          rw [onDetected_shown ho hp]
          exact hs.bounded
      | none =>
          rw [onDetected_fresh ho hp]
          exact (hfresh ho hp).bounded

theorem removed (hC : C.Encodes) (h : Kept s) (app : AppId) (pid : Nat) :
    Kept ((onRemoved C env app pid).exec s) := by
  refine ⟨h.carded.removed hC app pid, ?_⟩
  by_cases hp : s.lastProcess.lookup app = some pid
  · have hfree : Shared.Bounded { unscanned app pid s with lastProcess := s.lastProcess.erase app } := h.bounded
    rw [onRemoved_match hp]
    exact hfree.of_sub (broadcastClear_dimmed ..).cache
  · rw [onRemoved_stale hp]
    exact h.bounded

theorem cleared (hC : C.Encodes) (h : Kept s) : Kept ((onCleared C env).exec s) :=
  ⟨h.carded.cleared hC, h.bounded.of_sub fun k v hv => onCleared_dimmed.cache k v hv⟩

theorem step (hC : C.Encodes) (h : Kept s) (hp : Placed Sdk Scan s) {e : Event}
    (hsep : ∀ p, e.sdkPid = some p → ∀ a, Scan a → SocketId.ofPid p ≠ SocketId.ofApp a)
    (he : EvictsNoGeneric C s e) : Kept (step C s e) := by
  obtain ⟨env, input⟩ := e
  rcases input with cmd | game | ⟨app, pid⟩ | _
  · exact h.setActivity hC hp (hsep _ rfl) he
  · exact h.detected hC he
  · exact h.removed hC app pid
  · exact h.cleared hC

end Kept

theorem kept_start : Kept {} :=
  ⟨fun a => by simp [Shared.published, Shared.showsGeneric], by simp [Shared.Bounded, Table.size, AList.keys_empty]⟩

/-- In every run that pushes no generic card out of the cache, the applications
in the publication table are those whose generic card is in the cache. -/
theorem bookkeeping_matches_cache (hC : C.Encodes) {es pre : List Event} (hsep : Separate es)
    (he : Along (RichPresence.step C) (EvictsNoGeneric C) {} es) (hpre : pre <+: es) (a : AppId) :
    ((run C pre).lastProcess.lookup a).isSome = true ↔
      ∃ v, (run C pre).cache.lookup (SocketId.ofApp a) = some v ∧ v.1.isGeneric = true := by
  have hwithin : Along (RichPresence.step C) (fun _ e => e.Within (· ∈ es.filterMap Event.sdkPid)
      (· ∈ es.filterMap Event.scannedApp)) {} es := Along.of_forall within_run
  have hend := ((he.and hwithin).initial hpre).invariant
    (fun s => Kept s ∧ Placed (· ∈ es.filterMap Event.sdkPid) (· ∈ es.filterMap Event.scannedApp) s)
    (fun s e hs hc => ⟨hs.1.step hC hs.2 (fun p hp a ha => hsep p (hc.2.1 p hp) a ha) hc.1, hs.2.step hc.2⟩)
    ⟨kept_start, Placed.start⟩
  rw [← showsGeneric_iff]
  exact Bool.eq_iff_iff.mp (hend.1.carded a)

theorem evictsNoGeneric_of_fits {e : Event} (h : CardsFit C s e) : EvictsNoGeneric C s e := by
  have hfits : (sockets s.cache (e.shows C s)).card ≤ maxCachedActivities := by
    rwa [sockets, List.card_toFinset]
  exact ⟨fun _ _ => .of_fits hfits, .inl hfits⟩

theorem bookkeeping_matches_cache_visit :
    ((run Serde.codec visit).lastProcess.lookup hades.id).isSome = true ∧
      ∃ v, (run Serde.codec visit).cache.lookup (SocketId.ofApp hades.id) = some v ∧ v.1.isGeneric = true := by
  have hshown : ((run Serde.codec visit).lastProcess.lookup hades.id).isSome = true := by decide +kernel
  have hfit : Along (step Serde.codec) (CardsFit Serde.codec) {} visit := by decide +kernel
  refine ⟨hshown, (bookkeeping_matches_cache Serde.codec_encodes ?_ ?_ (List.prefix_refl visit) hades.id).mp hshown⟩
  · decide +kernel
  · exact hfit.imp fun _ _ => evictsNoGeneric_of_fits

def celeste : ScannedGame := ⟨⟨"504230"⟩, "Celeste", 4343, 1763199000000, .steamAppId, none⟩

def rushHour : List Event := .detected (calmAt 0) celeste :: crowd 1 50 ++ [.detected (calmAt 60) celeste]

/-- Fifty clients push the card of a running game out of the cache; the game
stays in the publication table, and its next detection is taken for a repeat. -/
theorem evicted_generic_stays_listed :
    Separate rushHour ∧ ((run Serde.codec rushHour).lastProcess.lookup celeste.id).isSome = true ∧
      (run Serde.codec rushHour).showsGeneric celeste.id = false := by
  decide +kernel

end RichPresence
