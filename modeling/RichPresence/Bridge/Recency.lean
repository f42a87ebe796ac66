import RichPresence.Bridge.Bookkeeping

namespace RichPresence

open Lib

abbrev Card := Sigma fun _ : SocketId => CachedActivity × UInt64

/-- One call of `broadcastActivity` with its surroundings. -/
structure Broadcast where
  env : Env
  payload : CachedActivity
  socketId : SocketId

namespace Broadcast

def exec (s : Shared) (b : Broadcast) : Shared := (broadcastActivity b.env b.payload b.socketId).exec s

def publishes (bs : List Broadcast) : Nat := bs.countP fun b => !b.payload.isClear

end Broadcast

/-- The sockets with their payloads, the one that published last at the end. -/
abbrev Recency := List (SocketId × CachedActivity)

namespace Recency

def dropFirsts : Recency → Recency
  | [] => []
  | e :: l => if maxCachedActivities < (e :: l).length then dropFirsts l else e :: l

def without (k : SocketId) (l : Recency) : Recency := l.filter fun e => e.1 ≠ k

def broadcast (l : Recency) (b : Broadcast) : Recency :=
  if b.payload.isClear then l.without b.socketId
  else dropFirsts (l.without b.socketId ++ [(b.socketId, b.payload)])

theorem dropFirsts_eq (l : Recency) : dropFirsts l = l.drop (l.length - maxCachedActivities) := by
  induction l with
  | nil => rfl
  | cons e l ih =>
      rw [dropFirsts]
      split
      next hlong =>
          rw [List.length_cons] at hlong ⊢
          rw [ih, Nat.succ_sub (Nat.le_of_lt_succ hlong), List.drop_succ_cons]
      next hshort => rw [Nat.sub_eq_zero_of_le (Nat.not_lt.mp hshort), List.drop_zero]

end Recency

/-- The cards of the cache in the order of their stamps. -/
structure Lists (cache : ReplayCache) (cards : List Card) : Prop where
  mem_iff : ∀ k v, ⟨k, v⟩ ∈ cards ↔ cache.lookup k = some v
  sorted : cards.Pairwise fun d e => d.2.2.toNat < e.2.2.toNat

namespace Lists

variable {w : Walk} {cache : ReplayCache} {cards : List Card} {k : SocketId}

theorem perm (h : Lists cache cards) : cache.entries.Perm cards := by
  have hnodup : cards.Nodup := by
    refine h.sorted.imp fun {d e} hlt heq => ?_
    rw [heq] at hlt
    exact Nat.lt_irrefl _ hlt
  refine (List.perm_ext_iff_of_nodup cache.nodupKeys.nodup hnodup).mpr fun e => ?_
  obtain ⟨k, v⟩ := e
  rw [h.mem_iff, ← AList.mem_lookup_iff]
  rfl

theorem length (h : Lists cache cards) : Table.size cache = cards.length := by
  rw [← h.perm.length_eq, Table.size, AList.keys, List.keys, List.length_map]

theorem erase (h : Lists cache cards) (k : SocketId) : Lists (cache.erase k) (cards.filter fun e => e.1 ≠ k) := by
  refine ⟨fun x v => ?_, h.sorted.filter _⟩
  rw [List.mem_filter, decide_eq_true_iff, Table.lookup_erase_eq, h.mem_iff]
  by_cases hx : x = k
  · simp [hx]
  · simp [hx]

theorem insert (h : Lists cache cards) {v : CachedActivity × UInt64}
    (hyoung : ∀ e ∈ cards, e.2.2.toNat < v.2.toNat) :
    Lists (cache.insert k v) ((cards.filter fun e => e.1 ≠ k) ++ [⟨k, v⟩]) := by
  refine ⟨fun x u => ?_, ?_⟩
  · rw [List.mem_append, List.mem_filter, decide_eq_true_iff, List.mem_singleton, Table.lookup_insert_eq, h.mem_iff]
    by_cases hx : x = k
    · subst hx
      simp [eq_comm]
    · simp [hx]
  · refine List.pairwise_append.mpr ⟨h.sorted.filter _, List.pairwise_singleton _ _, fun d hd e he => ?_⟩
    rw [List.mem_singleton.mp he]
    exact hyoung d (List.mem_of_mem_filter hd)

theorem filter_head {c : Card} (h : Lists cache (c :: cards)) :
    ((c :: cards).filter fun e => e.1 ≠ c.1) = cards := by
  rw [List.filter_cons_of_neg (by simp), List.filter_eq_self]
  intro e he
  refine decide_eq_true fun hkey => ?_
  have hlt := (List.pairwise_cons.mp h.sorted).1 e he
  have hc := (h.mem_iff c.1 c.2).mp List.mem_cons_self
  have he' := (h.mem_iff e.1 e.2).mp (List.mem_cons_of_mem c he)
  rw [hkey, hc] at he'
  rw [Option.some.inj he'] at hlt
  exact Nat.lt_irrefl _ hlt

theorem evictOldest (h : Lists cache cards) : Lists (evictOldest w cache) cards.tail := by
  rw [RichPresence.evictOldest]
  cases cards with
  | nil =>
      split
      next e he =>
          obtain ⟨v, hv, -⟩ := oldestKey_spec he
          exact absurd ((h.mem_iff e v).mpr hv) List.not_mem_nil
      next => exact h
  | cons c cards =>
      obtain ⟨hfirst, -⟩ := List.pairwise_cons.mp h.sorted
      have hc := (h.mem_iff c.1 c.2).mp List.mem_cons_self
      split
      next e he =>
          obtain ⟨v, hv, hleast⟩ := oldestKey_spec he
          have hkey : e = c.1 := by
            rcases List.mem_cons.mp ((h.mem_iff e v).mpr hv) with heq | hmem
            · rw [← heq]
            · exact absurd (hfirst _ hmem) (Nat.not_lt.mpr (hleast c.1 c.2 hc))
          have herase := h.erase c.1
          rw [h.filter_head] at herase
          rw [hkey]
          exact herase
      next he =>
          have hnil : w.order cache.entries = [] := List.argmin_eq_none.mp (Option.map_eq_none_iff.mp he)
          have hmem := w.mem_order.mpr (h.perm.mem_iff.mpr (List.mem_cons_self : c ∈ c :: cards))
          rw [hnil] at hmem
          exact absurd hmem List.not_mem_nil

theorem pruneCache (h : Lists cache cards) :
    Lists (pruneCache w cache) (cards.drop (cards.length - maxCachedActivities)) := by
  rw [RichPresence.pruneCache, h.length]
  generalize cards.length - maxCachedActivities = n
  induction n generalizing cache cards with
  | zero => exact h
  | succ n ih =>
      rw [Function.iterate_succ_apply, ← List.drop_tail]
      exact ih h.evictOldest

end Lists

namespace Broadcast

variable {s : Shared} {cards : List Card}

def shown (cards : List Card) : Recency := cards.map fun e => (e.1, e.2.1)

theorem shown_filter (cards : List Card) (k : SocketId) :
    shown (cards.filter fun e => e.1 ≠ k) = (shown cards).without k := by
  rw [shown, shown, Recency.without, List.filter_map]
  rfl

/-- The cache lists what the reference holds, and no card is stamped ahead of the counter. -/
structure Follows (s : Shared) (l : Recency) (cards : List Card) : Prop where
  lists : Lists s.cache cards
  shown_eq : shown cards = l
  stamped : s.Stamped

theorem exec_clear {b : Broadcast} (hclear : b.payload.isClear = true) :
    (b.exec s).cache = s.cache.erase b.socketId ∧ (b.exec s).activitySeq = s.activitySeq := by
  refine ⟨?_, ?_⟩
  · rw [exec, broadcastActivity_cache, Shared.updateCache_clear _ _ _ _ hclear]
  · simp [exec, broadcastActivity, Shared.setDirty, Shared.sendToAll, Shared.updateCache, hclear]

theorem follows_clear {b : Broadcast} {l : Recency} (h : Follows s l cards) (hclear : b.payload.isClear = true) :
    Follows (b.exec s) (l.broadcast b) (cards.filter fun e => e.1 ≠ b.socketId) := by
  obtain ⟨hcache, hseq⟩ := exec_clear (s := s) hclear
  refine ⟨hcache ▸ h.lists.erase b.socketId, ?_, fun k v hv => ?_⟩
  · rw [shown_filter, h.shown_eq, Recency.broadcast, if_pos hclear]
  · rw [hcache, Table.lookup_erase_eq] at hv
    rw [hseq]
    split at hv
    next => cases hv
    next => exact h.stamped k v hv

theorem follows_publish {b : Broadcast} {l : Recency} (h : Follows s l cards) (hclear : b.payload.isClear = false)
    (hwrap : s.activitySeq.toNat + 1 < 2 ^ 64) : ∃ cards', Follows (b.exec s) (l.broadcast b) cards' := by
  have hseq := toNat_succ hwrap
  have hcache : (b.exec s).cache =
      pruneCache b.env.walk (s.cache.insert b.socketId (b.payload, s.activitySeq + 1)) := by
    rw [exec, broadcastActivity_cache, Shared.updateCache_card _ _ _ _ hclear]
  have hyoung : ∀ e ∈ cards, e.2.2.toNat < (s.activitySeq + 1).toNat := by
    intro e he
    have hle := h.stamped e.1 e.2 ((h.lists.mem_iff e.1 e.2).mp he)
    omega
  have hlists := (h.lists.insert (k := b.socketId) (v := (b.payload, s.activitySeq + 1)) hyoung).pruneCache
    (w := b.env.walk)
  rw [← hcache] at hlists
  refine ⟨_, hlists, ?_, h.stamped.broadcastActivity hwrap hclear⟩
  have hshown (n : Nat) (cards : List Card) : shown (cards.drop n) = (shown cards).drop n := List.map_drop
  have hlength (cards : List Card) : (shown cards).length = cards.length := List.length_map _
  have happend : shown ((cards.filter fun e => e.1 ≠ b.socketId) ++ [⟨b.socketId, b.payload, s.activitySeq + 1⟩]) =
      l.without b.socketId ++ [(b.socketId, b.payload)] := by
    rw [← h.shown_eq, ← shown_filter, shown, List.map_append]
    rfl
  rw [hshown, ← hlength, happend, Recency.broadcast, if_neg (by simp [hclear]), Recency.dropFirsts_eq]

theorem publishes_cons (b : Broadcast) (bs : List Broadcast) :
    publishes (b :: bs) = publishes bs + if b.payload.isClear then 0 else 1 := by
  rw [publishes, List.countP_cons]
  cases b.payload.isClear <;> rfl

theorem follows_run {bs : List Broadcast} {l : Recency} (h : Follows s l cards)
    (hwrap : s.activitySeq.toNat + publishes bs < 2 ^ 64) :
    ∃ cards', Follows (bs.foldl exec s) (bs.foldl Recency.broadcast l) cards' := by
  induction bs generalizing s l cards with
  | nil => exact ⟨cards, h⟩
  | cons b bs ih =>
      rw [publishes_cons] at hwrap
      cases hclear : b.payload.isClear with
      | true =>
          refine ih (follows_clear h hclear) ?_
          rw [hclear] at hwrap
          rwa [(exec_clear hclear).2]
      | false =>
          rw [hclear] at hwrap
          have hone : s.activitySeq.toNat + 1 < 2 ^ 64 := by
            simp only [Bool.false_eq_true, if_false] at hwrap
            omega
          obtain ⟨cards', h'⟩ := follows_publish h hclear hone
          refine ih h' ?_
          have hseq : (b.exec s).activitySeq.toNat = s.activitySeq.toNat + 1 := by
            rw [exec, broadcastActivity_seq hclear, toNat_succ hone]
          simp only [Bool.false_eq_true, if_false] at hwrap
          omega

/-- While the counter does not wrap, the cards in the order of their stamps are the recency list. -/
theorem cache_is_recency_list (hempty : s.cache = ∅) (bs : List Broadcast)
    (hwrap : s.activitySeq.toNat + publishes bs < 2 ^ 64) :
    ∃ cards : List Card, (bs.foldl exec s).cache.entries.Perm cards ∧
      shown cards = bs.foldl Recency.broadcast [] ∧ cards.Pairwise fun d e => d.2.2.toNat < e.2.2.toNat := by
  have hstart : Follows s [] [] := by
    refine ⟨⟨fun k v => ?_, List.Pairwise.nil⟩, rfl, fun k v hv => ?_⟩
    · rw [hempty]
      simp
    · rw [hempty] at hv
      cases hv
  obtain ⟨cards, hend⟩ := follows_run hstart hwrap
  exact ⟨cards, hend.lists.perm, hend.shown_eq, hend.lists.sorted⟩

def published (pid : Nat) : Broadcast :=
  ⟨.calm (fun _ => true) 0, ⟨"\x7b\x7d", [], false, [], none, pid⟩, SocketId.ofPid pid⟩

theorem cache_is_recency_list_three :
    ∃ cards : List Card,
      ([published 7, published 8, published 7].foldl exec {}).cache.entries.Perm cards ∧
      shown cards = [(SocketId.ofPid 8, (published 8).payload), (SocketId.ofPid 7, (published 7).payload)] ∧
      cards.Pairwise fun d e => d.2.2.toNat < e.2.2.toNat := by
  obtain ⟨cards, hperm, hshown, hsorted⟩ := cache_is_recency_list (s := {}) rfl
    [published 7, published 8, published 7] (by decide)
  exact ⟨cards, hperm, hshown.trans (by decide +kernel), hsorted⟩

theorem recency_replicate (n : Nat) :
    (List.replicate (n + 1) (published 7)).foldl Recency.broadcast [] =
      [(SocketId.ofPid 7, (published 7).payload)] := by
  induction n with
  | zero => rfl
  | succ n ih =>
      rw [List.replicate_succ', List.foldl_append, ih]
      decide +kernel

theorem seq_replicate (n : Nat) :
    ((List.replicate n (published 7)).foldl exec {}).activitySeq = UInt64.ofNat n := by
  induction n with
  | zero => rfl
  | succ n ih =>
      rw [List.replicate_succ', List.foldl_append, List.foldl_cons, List.foldl_nil, exec, broadcastActivity_seq rfl,
        ih, UInt64.ofNat_add]
      rfl

/-- The publish after which the counter has wrapped is stamped before all others. -/
theorem wrapped_stamp_comes_first :
    ¬∃ cards : List Card,
      ((List.replicate (2 ^ 64 - 1) (published 7) ++ [published 8]).foldl exec {}).cache.entries.Perm cards ∧
      shown cards = (List.replicate (2 ^ 64 - 1) (published 7) ++ [published 8]).foldl Recency.broadcast [] ∧
      cards.Pairwise fun d e => d.2.2.toNat < e.2.2.toNat := by
  generalize hn : 2 ^ 64 - 2 = n
  have hsucc : 2 ^ 64 - 1 = n + 1 := by omega
  have hlist : Recency.broadcast [(SocketId.ofPid 7, (published 7).payload)] (published 8) =
      [(SocketId.ofPid 7, (published 7).payload), (SocketId.ofPid 8, (published 8).payload)] := by decide +kernel
  rw [hsucc, List.foldl_append, List.foldl_append, recency_replicate, List.foldl_cons, List.foldl_cons,
    List.foldl_nil, List.foldl_nil, hlist]
  rintro ⟨cards, hperm, hshown, hsorted⟩
  match cards with
  | [] | [_] | _ :: _ :: _ :: _ => exact absurd (congrArg List.length hshown) (by simp [shown])
  | [c, ⟨k, v⟩] =>
      simp only [shown, List.map_cons, List.map_nil, List.cons.injEq, Prod.mk.injEq] at hshown
      obtain ⟨-, ⟨rfl, -⟩, -⟩ := hshown
      have hmem := AList.mem_lookup_iff.mpr (hperm.mem_iff.mpr (List.mem_cons_of_mem c List.mem_cons_self))
      rw [exec, broadcastActivity_cache, Shared.updateCache_card _ _ _ _ rfl] at hmem
      have hlookup := lookup_pruneCache hmem
      have hown : SocketId.ofPid 8 = (published 8).socketId := rfl
      rw [Table.lookup_insert_eq, if_pos hown, seq_replicate] at hlookup
      have hzero : (UInt64.ofNat (n + 1) + 1).toNat = 0 := by
        rw [UInt64.toNat_add, UInt64.toNat_ofNat', ← hn]
        rfl
      obtain rfl := Option.some.inj hlookup
      have hlt : c.2.2.toNat < (UInt64.ofNat (n + 1) + 1).toNat := by simpa using hsorted
      omega

end Broadcast

end RichPresence
