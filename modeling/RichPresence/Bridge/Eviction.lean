import Mathlib.Data.Finset.Card
import RichPresence.Bridge.Effects

namespace RichPresence

open Lib

/-- The sockets that have a card or are about to get one. -/
def sockets (cache : ReplayCache) (ks : List SocketId) : Finset SocketId := (cache.keys ++ ks).toFinset

/-- The cards with a smaller stamp that are not about to be replaced. -/
def olderThan (cache : ReplayCache) (ks : List SocketId) (stamp : UInt64) : Finset SocketId :=
  cache.keys.toFinset.filter fun k => k ∉ ks ∧ (cache.lookup k).any (·.2.toNat < stamp.toNat)

/-- A card of the socket is younger than as many others as have to make room. -/
def Outlives (cache : ReplayCache) (ks : List SocketId) (k : SocketId) : Prop :=
  ∀ v, cache.lookup k = some v →
    (sockets cache ks).card - maxCachedActivities ≤ (olderThan cache ks v.2).card

variable {w : Walk} {cache : ReplayCache} {ks : List SocketId} {k k' : SocketId}

theorem mem_sockets : k ∈ sockets cache ks ↔ (∃ v, cache.lookup k = some v) ∨ k ∈ ks := by
  rw [sockets, List.mem_toFinset, List.mem_append, Table.mem_keys_iff_lookup]

theorem mem_olderThan {stamp : UInt64} :
    k ∈ olderThan cache ks stamp ↔
      k ∉ ks ∧ ∃ v, cache.lookup k = some v ∧ v.2.toNat < stamp.toNat := by
  rw [olderThan, Finset.mem_filter, List.mem_toFinset, Table.mem_keys_iff_lookup]
  cases h : cache.lookup k <;> simp

theorem size_le_sockets (cache : ReplayCache) (ks : List SocketId) :
    Table.size cache ≤ (sockets cache ks).card := by
  rw [Table.size, ← List.toFinset_card_of_nodup cache.keys_nodup]
  apply Finset.card_le_card
  intro k hk
  rw [sockets, List.toFinset_append]
  exact Finset.mem_union_left _ hk

theorem oldestKey_spec {e : SocketId} (h : oldestKey w cache = some e) :
    ∃ v, cache.lookup e = some v ∧ ∀ k u, cache.lookup k = some u → v.2.toNat ≤ u.2.toNat := by
  obtain ⟨⟨_, v⟩, hm, rfl⟩ := Option.map_eq_some_iff.mp h
  have hmem := w.mem_order.mp (List.argmin_mem hm)
  refine ⟨v, AList.mem_lookup_iff.mpr hmem, fun k u hu => ?_⟩
  have hu' : (⟨k, u⟩ : Sigma fun _ : SocketId => CachedActivity × UInt64) ∈ w.order cache.entries :=
    w.mem_order.mpr (AList.mem_lookup_iff.mp hu)
  exact List.le_of_mem_argmin (f := fun e : Sigma fun _ : SocketId => CachedActivity × UInt64 => e.2.2.toNat)
    hu' hm

theorem size_evictOldest (w : Walk) (cache : ReplayCache) :
    Table.size (evictOldest w cache) = Table.size cache - 1 := by
  rw [evictOldest]
  split
  next e he =>
      obtain ⟨v, hv, -⟩ := oldestKey_spec he
      have hmem : e ∈ cache.keys := Table.mem_keys_iff_lookup.mpr ⟨v, hv⟩
      simp [Table.size, AList.keys_erase, List.length_erase_of_mem hmem]
  next he =>
      have hnil : w.order cache.entries = [] := List.argmin_eq_none.mp (Option.map_eq_none_iff.mp he)
      have hentries : cache.entries = [] := (hnil ▸ w.perm cache.entries).symm.eq_nil
      simp [Table.size, AList.keys, hentries]

theorem mem_sockets_erase {e : SocketId} :
    k ∈ sockets (cache.erase e) ks ↔ (k ≠ e ∧ ∃ v, cache.lookup k = some v) ∨ k ∈ ks := by
  rw [mem_sockets, Table.lookup_erase_eq]
  by_cases hk : k = e <;> simp [hk]

theorem mem_olderThan_erase {e : SocketId} {stamp : UInt64} :
    k ∈ olderThan (cache.erase e) ks stamp ↔ k ≠ e ∧ k ∈ olderThan cache ks stamp := by
  rw [mem_olderThan, mem_olderThan, Table.lookup_erase_eq]
  by_cases hk : k = e <;> simp [hk]

theorem count_erase {e : SocketId} {v : CachedActivity × UInt64} {stamp : UInt64} (he : cache.lookup e = some v)
    (h : (sockets cache ks).card - maxCachedActivities ≤ (olderThan cache ks stamp).card) :
    (sockets (cache.erase e) ks).card - maxCachedActivities ≤ (olderThan (cache.erase e) ks stamp).card := by
  have holder : olderThan (cache.erase e) ks stamp = (olderThan cache ks stamp).erase e := by
    ext x
    rw [mem_olderThan_erase, Finset.mem_erase]
  rw [holder]
  by_cases hks : e ∈ ks
  · have hsockets : sockets (cache.erase e) ks = sockets cache ks := by
      ext x
      rw [mem_sockets_erase, mem_sockets]
      by_cases hx : x = e <;> simp [hx, hks]
    have hnot : e ∉ olderThan cache ks stamp := fun hm => (mem_olderThan.mp hm).1 hks
    rwa [hsockets, Finset.erase_eq_of_notMem hnot]
  · have hsockets : sockets (cache.erase e) ks = (sockets cache ks).erase e := by
      ext x
      rw [mem_sockets_erase, Finset.mem_erase, mem_sockets]
      by_cases hx : x = e <;> simp [hx, hks]
    have hmem : e ∈ sockets cache ks := mem_sockets.mpr (.inl ⟨v, he⟩)
    have hleft := Finset.pred_card_le_card_erase (s := olderThan cache ks stamp) (a := e)
    rw [hsockets, Finset.card_erase_of_mem hmem]
    omega

theorem sockets_insert (v : CachedActivity × UInt64) :
    sockets (cache.insert k' v) ks = sockets cache (k' :: ks) := by
  ext x
  rw [mem_sockets, mem_sockets, Table.lookup_insert_eq, List.mem_cons]
  by_cases hx : x = k' <;> simp [hx]

namespace Outlives

theorem of_fits (h : (sockets cache ks).card ≤ maxCachedActivities) : Outlives cache ks k :=
  fun _ _ => by omega

theorem insert (h : Outlives cache (k' :: ks) k) (hk : k ≠ k') (v : CachedActivity × UInt64) :
    Outlives (cache.insert k' v) ks k := by
  intro u hu
  rw [Table.lookup_insert_eq, if_neg hk] at hu
  rw [sockets_insert]
  refine (h u hu).trans (Finset.card_le_card fun x hx => ?_)
  obtain ⟨hks, y, hy, hlt⟩ := mem_olderThan.mp hx
  rw [List.mem_cons, not_or] at hks
  refine mem_olderThan.mpr ⟨hks.2, y, ?_, hlt⟩
  rw [Table.lookup_insert_eq, if_neg hks.1, hy]

theorem tail (h : Outlives cache (k' :: ks) k) : Outlives cache ks k := by
  intro v hv
  have hsockets : (sockets cache ks).card ≤ (sockets cache (k' :: ks)).card := by
    refine Finset.card_le_card fun x hx => mem_sockets.mpr ?_
    exact (mem_sockets.mp hx).imp_right (List.mem_cons_of_mem _)
  have holder : (olderThan cache (k' :: ks) v.2).card ≤ (olderThan cache ks v.2).card := by
    refine Finset.card_le_card fun x hx => ?_
    obtain ⟨hks, hx⟩ := mem_olderThan.mp hx
    exact mem_olderThan.mpr ⟨fun hm => hks (List.mem_cons_of_mem _ hm), hx⟩
  have hcount := h v hv
  omega

theorem ne_oldest (h : Outlives cache ks k) (hfull : maxCachedActivities < Table.size cache) {e : SocketId}
    (he : oldestKey w cache = some e) {u : CachedActivity × UInt64} (hu : cache.lookup k = some u) : k ≠ e := by
  rintro rfl
  obtain ⟨v, hv, hleast⟩ := oldestKey_spec he
  obtain ⟨x, hx⟩ : (olderThan cache ks u.2).Nonempty := by
    have hroom := size_le_sockets cache ks
    have hcount := h u hu
    exact Finset.card_pos.mp (by omega)
  obtain ⟨-, y, hy, hlt⟩ := mem_olderThan.mp hx
  obtain rfl : u = v := Option.some.inj (hu.symm.trans hv)
  have hle := hleast x y hy
  omega

theorem evictOldest (h : Outlives cache ks k) (hfull : maxCachedActivities < Table.size cache) :
    Outlives (evictOldest w cache) ks k ∧ (evictOldest w cache).lookup k = cache.lookup k := by
  rw [RichPresence.evictOldest]
  split
  next e he =>
      obtain ⟨v, hv, -⟩ := oldestKey_spec he
      have hlookup : (cache.erase e).lookup k = cache.lookup k := by
        rw [Table.lookup_erase_eq]
        split
        next hke =>
            cases hu : cache.lookup k with
            | none => rfl
            | some u => exact absurd hke (h.ne_oldest hfull he hu)
        next => rfl
      refine ⟨fun u hu => ?_, hlookup⟩
      rw [hlookup] at hu
      exact count_erase hv (h u hu)
  next => exact ⟨h, rfl⟩

theorem pruneCache (h : Outlives cache ks k) :
    Outlives (pruneCache w cache) ks k ∧ (pruneCache w cache).lookup k = cache.lookup k := by
  rw [RichPresence.pruneCache]
  generalize hn : Table.size cache - maxCachedActivities = n
  induction n generalizing cache with
  | zero => exact ⟨h, rfl⟩
  | succ n ih =>
      obtain ⟨hs, hl⟩ := h.evictOldest (w := w) (by omega)
      have hsize := size_evictOldest w cache
      obtain ⟨hs', hl'⟩ := ih hs (by omega)
      rw [Function.iterate_succ_apply]
      exact ⟨hs', hl'.trans hl⟩

variable {payload : CachedActivity} {s : Shared}

theorem broadcastActivity (env : Env) (h : Outlives s.cache (k' :: ks) k) (hk : k ≠ k')
    (hc : payload.isClear = false) :
    Outlives ((broadcastActivity env payload k').exec s).cache ks k ∧
      ((RichPresence.broadcastActivity env payload k').exec s).cache.lookup k = s.cache.lookup k := by
  rw [broadcastActivity_cache, Shared.updateCache_card _ _ _ _ hc]
  obtain ⟨hs, hl⟩ := (h.insert hk (payload, s.activitySeq + 1)).pruneCache (w := env.walk)
  refine ⟨hs, hl.trans ?_⟩
  rw [Table.lookup_insert_eq, if_neg hk]

theorem resumeGeneric (C : Codec) (env : Env) {game : ScannedGame}
    (h : Outlives s.cache (SocketId.ofApp game.id :: ks) k) (hk : k ≠ SocketId.ofApp game.id) :
    Outlives ((resumeGeneric C env game).exec s).cache ks k ∧
      ((RichPresence.resumeGeneric C env game).exec s).cache.lookup k = s.cache.lookup k := by
  rw [RichPresence.resumeGeneric, Prog.exec_bind]
  split
  next payload hp =>
      exact broadcastActivity env
        (s := { s with lastProcess := trackProcessPublication env game.id game.pid s.lastProcess })
        h hk (genericPayload_spec hp).1
  next => exact ⟨h.tail, rfl⟩

theorem resumes (C : Codec) (env : Env) {games : List ScannedGame}
    (h : Outlives s.cache (games.map fun game => SocketId.ofApp game.id) k)
    (hk : k ∉ games.map fun game => SocketId.ofApp game.id) :
    ((forM games (RichPresence.resumeGeneric C env)).exec s).cache.lookup k = s.cache.lookup k := by
  induction games generalizing s with
  | nil => rfl
  | cons game games ih =>
      rw [List.map_cons, List.mem_cons, not_or] at hk
      obtain ⟨hs, hl⟩ := h.resumeGeneric C env hk.1
      rw [List.forM_cons, Prog.exec_bind]
      exact (ih hs hk.2).trans hl

end Outlives

end RichPresence
