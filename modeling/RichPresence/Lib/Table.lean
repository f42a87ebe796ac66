import Mathlib.Data.List.AList
import Mathlib.Logic.Function.Iterate

namespace RichPresence.Lib

variable {K V W : Type} [DecidableEq K]

/-- A keyed table without duplicate keys. The order of its entries carries no
meaning: code that iterates over a table takes the order from elsewhere. -/
abbrev Table (K V : Type) := AList fun _ : K => V

namespace Table

def size (t : Table K V) : Nat := t.keys.length

theorem lookup_insert_eq (t : Table K V) (k k' : K) (v : V) :
    (t.insert k v).lookup k' = if k' = k then some v else t.lookup k' := by
  by_cases h : k' = k
  · subst h
    simp
  · simp [h]

theorem lookup_erase_eq (t : Table K V) (k k' : K) :
    (t.erase k).lookup k' = if k' = k then none else t.lookup k' := by
  by_cases h : k' = k
  · subst h
    simp
  · simp [h]

theorem mem_iff_lookup {t : Table K V} {k : K} : k ∈ t ↔ ∃ v, t.lookup k = some v := by
  rw [← AList.lookup_isSome, Option.isSome_iff_exists]

omit [DecidableEq K] in
theorem keys_filterMap_sublist (f : K → V → Option W) (l : List (Sigma fun _ : K => V)) :
    (l.filterMap fun e => (f e.1 e.2).map (Sigma.mk (β := fun _ : K => W) e.1)).keys.Sublist l.keys := by
  induction l with
  | nil => exact List.Sublist.slnil
  | cons e l ih =>
      cases he : f e.1 e.2 with
      | none => simpa [List.filterMap_cons, he] using ih.cons e.1
      | some w => simpa [List.filterMap_cons, he] using ih.cons_cons e.1

def filterMap (f : K → V → Option W) (t : Table K V) : Table K W where
  entries := t.entries.filterMap fun e => (f e.1 e.2).map (Sigma.mk e.1)
  nodupKeys := by
    rw [List.NodupKeys]
    exact (keys_filterMap_sublist f t.entries).nodup t.keys_nodup

def retain (p : K → V → Bool) (t : Table K V) : Table K V :=
  filterMap (fun k v => if p k v then some v else none) t

theorem lookup_filterMap (f : K → V → Option W) (t : Table K V) (k : K) :
    (filterMap f t).lookup k = (t.lookup k).bind (f k) := by
  apply Option.ext
  intro w
  have hf := AList.mem_lookup_iff (s := filterMap f t) (a := k) (b := w)
  rw [← Option.mem_def, hf]
  simp only [filterMap, List.mem_filterMap, Option.map_eq_some_iff, Option.bind_eq_some_iff]
  constructor
  · rintro ⟨⟨k', v⟩, hmem, w', hw, heq⟩
    cases heq
    exact ⟨v, AList.mem_lookup_iff.mpr hmem, hw⟩
  · rintro ⟨v, hv, hw⟩
    exact ⟨⟨k, v⟩, AList.mem_lookup_iff.mp hv, w, hw, rfl⟩

theorem lookup_retain (p : K → V → Bool) (t : Table K V) (k : K) :
    (retain p t).lookup k = (t.lookup k).filter (p k) := by
  rw [retain, lookup_filterMap]
  cases t.lookup k <;> simp [Option.filter]

/-- A value that is already there stays. -/
def orInsert (t : Table K V) (e : K × V) : Table K V := if e.1 ∈ t then t else t.insert e.1 e.2

theorem lookup_orInsert (t : Table K V) (e : K × V) (k : K) :
    (orInsert t e).lookup k = (t.lookup k).or (if k = e.1 then some e.2 else none) := by
  rw [orInsert]
  split
  next h =>
      obtain ⟨v, hv⟩ := mem_iff_lookup.mp h
      by_cases hk : k = e.1
      · rw [hk, hv, Option.some_or]
      · rw [if_neg hk, Option.or_none]
  next h =>
      rw [lookup_insert_eq]
      by_cases hk : k = e.1
      · rw [if_pos hk, if_pos hk, hk, AList.lookup_eq_none.mpr h, Option.none_or]
      · rw [if_neg hk, if_neg hk, Option.or_none]

theorem lookup_orInserts [BEq K] [LawfulBEq K] (es : List (K × V)) (t : Table K V) (k : K) :
    (es.foldl orInsert t).lookup k = (t.lookup k).or (es.lookup k) := by
  induction es generalizing t with
  | nil => rw [List.foldl_nil, List.lookup_nil, Option.or_none]
  | cons e es ih =>
      rw [List.foldl_cons, ih, lookup_orInsert, Option.or_assoc, List.lookup_cons]
      by_cases hk : k = e.1
      · rw [if_pos hk, hk, beq_self_eq_true, Option.some_or]
      · rw [if_neg hk, beq_false_of_ne hk, Option.none_or]

theorem size_insert_of_mem {t : Table K V} {k : K} (h : k ∈ t) (v : V) : size (t.insert k v) = size t := by
  have hk : k ∈ t.keys := AList.mem_keys.mp h
  have hpos : 0 < t.keys.length := List.length_pos_of_mem hk
  simp only [size, AList.keys_insert, List.length_cons, List.length_erase_of_mem hk]
  omega

theorem size_insert_of_notMem {t : Table K V} {k : K} (h : k ∉ t) (v : V) :
    size (t.insert k v) = size t + 1 := by
  have hk : k ∉ t.keys := fun hm => h (AList.mem_keys.mpr hm)
  simp [size, AList.keys_insert, List.erase_of_not_mem hk]

theorem size_insert_le (t : Table K V) (k : K) (v : V) : size (t.insert k v) ≤ size t + 1 := by
  by_cases h : k ∈ t
  · rw [size_insert_of_mem h]; omega
  · rw [size_insert_of_notMem h]

omit [DecidableEq K] in
theorem size_le_of_subset {t : Table K V} (ks : List K) (h : ∀ k ∈ t.keys, k ∈ ks) : size t ≤ ks.length :=
  (List.subperm_of_subset t.keys_nodup h).length_le

theorem mem_keys_iff_lookup {t : Table K V} {k : K} : k ∈ t.keys ↔ ∃ v, t.lookup k = some v := by
  rw [← AList.mem_keys, mem_iff_lookup]

end Table

/-- The order in which a hash table happens to be walked: any rearrangement. -/
structure Walk : Type 1 where
  order : {α : Type} → List α → List α
  perm : ∀ {α : Type} (l : List α), (order l).Perm l

namespace Walk

theorem mem_order (w : Walk) {α : Type} {l : List α} {a : α} : a ∈ w.order l ↔ a ∈ l := (w.perm l).mem_iff

def inOrder : Walk := ⟨id, fun _ => .refl _⟩

end Walk

namespace Table

def firstKey (w : Walk) (t : Table K V) : Option K := (w.order t.keys).head?

def evictFirst (w : Walk) (t : Table K V) : Table K V :=
  match firstKey w t with
  | some victim => t.erase victim
  | none => t

/-- Drop arbitrary entries until the table fits. Every turn of the loop drops
one entry, so the excess says how often it turns. -/
def evictTo (w : Walk) (cap : Nat) (t : Table K V) : Table K V := (evictFirst w)^[size t - cap] t

/-- Insert into a table bounded by `cap`: a full table first drops its stale
values, and an insertion that still overflows evicts arbitrary entries. -/
def insertBounded (w : Walk) (cap : Nat) (live : V → Bool) (k : K) (v : V) (t : Table K V) : Table K V :=
  let t' := if size t ≥ cap then retain (fun _ v => live v) t else t
  evictTo w cap (t'.insert k v)

theorem lookup_evictFirst {w : Walk} {t : Table K V} {k : K} {v : V}
    (h : (evictFirst w t).lookup k = some v) : t.lookup k = some v := by
  rw [evictFirst] at h
  split at h
  next victim _ =>
    rw [lookup_erase_eq] at h
    split at h
    next => cases h
    next => exact h
  next => exact h

theorem lookup_evictTo {w : Walk} {cap : Nat} {t : Table K V} {k : K} {v : V}
    (h : (evictTo w cap t).lookup k = some v) : t.lookup k = some v := by
  rw [evictTo] at h
  generalize size t - cap = n at h
  induction n generalizing t with
  | zero => exact h
  | succ n ih => exact lookup_evictFirst (ih h)

theorem evictTo_of_le {w : Walk} {cap : Nat} {t : Table K V} (h : size t ≤ cap) : evictTo w cap t = t := by
  rw [evictTo, Nat.sub_eq_zero_of_le h, Function.iterate_zero, id]

theorem insertBounded_of_room {w : Walk} {cap : Nat} {live : V → Bool} {t : Table K V}
    (h : size t < cap) (k : K) (v : V) : insertBounded w cap live k v t = t.insert k v := by
  have hle := size_insert_le t k v
  rw [insertBounded, if_neg (by omega), evictTo_of_le (by omega)]

theorem lookup_insertBounded {w : Walk} {cap : Nat} {live : V → Bool} {t : Table K V} {k k' : K} {v v' : V}
    (h : (insertBounded w cap live k v t).lookup k' = some v') :
    (k' = k ∧ v' = v) ∨ t.lookup k' = some v' := by
  have hi := lookup_evictTo h
  rw [lookup_insert_eq] at hi
  split at hi
  next hk => exact .inl ⟨hk, (Option.some.inj hi).symm⟩
  next hk =>
    right
    split at hi
    next => exact (Option.filter_eq_some_iff.mp (lookup_retain _ t k' ▸ hi)).1
    next => exact hi

/-- Room for a key in a table bounded by `cap`: a full table without the key drops its
stale entries, and one arbitrary entry if it is full still. -/
def makeRoom (w : Walk) (cap : Nat) (live : K → V → Bool) (k : K) (t : Table K V) : Table K V :=
  if size t ≥ cap ∧ k ∉ t then
    if size (retain live t) ≥ cap then evictFirst w (retain live t) else retain live t
  else t

omit [DecidableEq K] in
theorem size_retain_le (p : K → V → Bool) (t : Table K V) : size (retain p t) ≤ size t :=
  (keys_filterMap_sublist (fun k v => if p k v then some v else none) t.entries).length_le

theorem size_erase_le (t : Table K V) (k : K) : size (t.erase k) ≤ size t := by
  rw [size, AList.keys_erase]
  exact List.erase_sublist.length_le

theorem size_evictFirst (w : Walk) (t : Table K V) : size (evictFirst w t) = size t - 1 := by
  rw [evictFirst]
  split
  next victim hfirst =>
      have hmem : victim ∈ t.keys := w.mem_order.mp (List.mem_of_head? hfirst)
      rw [size, AList.keys_erase, List.length_erase_of_mem hmem]
      rfl
  next hfirst =>
      have hperm := w.perm t.keys
      rw [List.head?_eq_none_iff.mp hfirst] at hperm
      have hnil : t.keys = [] := hperm.nil_eq.symm
      rw [size, hnil]
      rfl

section MakeRoom

variable {w : Walk} {cap : Nat} {live : K → V → Bool} {k : K} {t : Table K V}

theorem lookup_makeRoom {k' : K} {v : V} (h : (makeRoom w cap live k t).lookup k' = some v) :
    t.lookup k' = some v := by
  have hretain {v : V} (h : (retain live t).lookup k' = some v) : t.lookup k' = some v := by
    rw [lookup_retain] at h
    exact (Option.filter_eq_some_iff.mp h).1
  rw [makeRoom] at h
  split at h
  · split at h
    · exact hretain (lookup_evictFirst h)
    · exact hretain h
  · exact h

theorem makeRoom_of_room (h : size t < cap ∨ k ∈ t) : makeRoom w cap live k t = t := by
  refine if_neg fun ⟨hfull, hk⟩ => ?_
  rcases h with hroom | hmem
  · omega
  · exact hk hmem

theorem size_insert_makeRoom (hcap : 1 ≤ cap) (hsize : size t ≤ cap) (v : V) :
    size ((makeRoom w cap live k t).insert k v) ≤ cap := by
  have hinsert := size_insert_le (makeRoom w cap live k t) k v
  by_cases hroom : size t < cap ∨ k ∈ t
  · rw [makeRoom_of_room hroom] at hinsert ⊢
    rcases hroom with hlt | hmem
    · omega
    · rwa [size_insert_of_mem hmem]
  · obtain ⟨hfull, hk⟩ := not_or.mp hroom
    have hretain := size_retain_le live t
    rw [makeRoom, if_pos ⟨Nat.not_lt.mp hfull, hk⟩] at hinsert ⊢
    split at hinsert
    next hpurged =>
        rw [size_evictFirst] at hinsert
        rw [if_pos hpurged]
        omega
    next hpurged =>
        rw [if_neg hpurged]
        omega

end MakeRoom

theorem lookup_insertBounded_of_live {w : Walk} {cap : Nat} {live : V → Bool} {t : Table K V} {k : K} {v : V}
    (hlive : cap ≤ size t → ∀ k' v', t.lookup k' = some v' → k' ≠ k → live v' = true)
    (hsize : size (t.insert k v) ≤ cap) (k' : K) :
    (insertBounded w cap live k v t).lookup k' = if k' = k then some v else t.lookup k' := by
  by_cases hfull : size t ≥ cap
  · have hle : size ((retain (fun _ v => live v) t).insert k v) ≤ cap := by
      refine Nat.le_trans (size_le_of_subset (t.insert k v).keys fun x hx => ?_) hsize
      rw [mem_keys_iff_lookup, lookup_insert_eq] at hx ⊢
      split at hx
      next hxk =>
        rw [if_pos hxk]
        exact ⟨v, rfl⟩
      next hxk =>
        obtain ⟨y, hy⟩ := hx
        rw [lookup_retain, Option.filter_eq_some_iff] at hy
        rw [if_neg hxk]
        exact ⟨y, hy.1⟩
    rw [insertBounded, if_pos hfull, evictTo_of_le hle, lookup_insert_eq]
    split
    next => rfl
    next hk =>
      rw [lookup_retain]
      cases hl : t.lookup k' with
      | none => rfl
      | some v' => simp [hlive hfull k' v' hl hk]
  · rw [insertBounded, if_neg hfull, evictTo_of_le hsize, lookup_insert_eq]

end Table

end RichPresence.Lib
