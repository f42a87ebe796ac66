import RichPresence.Lib.Table

namespace RichPresence.Lib

/-- The same order from its end. -/
def Walk.backwards (w : Walk) : Walk :=
  ⟨fun l => (w.order l).reverse, fun l => (List.reverse_perm _).trans (w.perm l)⟩

namespace Table

variable {K V : Type} [DecidableEq K] {t u : Table K V} {k : K} {v : V}

def pairs (w : Walk) (t : Table K V) : List (K × V) := (w.order t.entries).map fun e => (e.1, e.2)

theorem mem_pairs (w : Walk) (t : Table K V) : (k, v) ∈ t.pairs w ↔ t.lookup k = some v := by
  rw [pairs, List.mem_map, ← Option.mem_def, AList.mem_lookup_iff]
  constructor
  · rintro ⟨⟨k', v'⟩, hmem, heq⟩
    obtain ⟨rfl, rfl⟩ := Prod.mk.inj heq
    exact w.mem_order.mp hmem
  · intro hmem
    exact ⟨⟨k, v⟩, w.mem_order.mpr hmem, rfl⟩

theorem lookup_pairs [BEq K] [LawfulBEq K] (w : Walk) (t : Table K V) (k : K) :
    (t.pairs w).lookup k = t.lookup k := by
  have hsound {v : V} (h : (t.pairs w).lookup k = some v) : t.lookup k = some v := by
    obtain ⟨before, after, hpairs, -⟩ := List.lookup_eq_some_iff.mp h
    exact (mem_pairs w t).mp (by simp [hpairs])
  cases hlookup : (t.pairs w).lookup k with
  | some v => exact (hsound hlookup).symm
  | none =>
      symm
      refine Option.eq_none_iff_forall_ne_some.mpr fun v hv => ?_
      have hmem := (mem_pairs w t).mpr hv
      exact absurd (List.lookup_eq_none_iff.mp hlookup _ hmem) (by simp)

/-- The entries of a table join another one, where a value that is already there stays. -/
def adopt (w : Walk) (t u : Table K V) : Table K V := (u.pairs w).foldl orInsert t

theorem lookup_adopt (w : Walk) (t u : Table K V) (k : K) :
    (adopt w t u).lookup k = (t.lookup k).or (u.lookup k) := by
  rw [adopt, lookup_orInserts, lookup_pairs]

/-- The entries whose keys pass a test are written over another table. -/
def overwrite (w : Walk) (p : K → Bool) (t u : Table K V) : Table K V :=
  (u.pairs w).foldl (fun t e => if p e.1 then t.insert e.1 e.2 else t) t

theorem lookup_overwrite (w : Walk) (p : K → Bool) (t u : Table K V) (k : K) :
    (overwrite w p t u).lookup k = ((u.lookup k).filter fun _ => p k).or (t.lookup k) := by
  have hloop (es : List (K × V)) (t : Table K V) :
      (es.foldl (fun t e => if p e.1 then t.insert e.1 e.2 else t) t).lookup k =
        ((es.reverse.lookup k).filter fun _ => p k).or (t.lookup k) := by
    induction es generalizing t with
    | nil => rfl
    | cons e es ih =>
        rw [List.foldl_cons, ih, List.reverse_cons, List.lookup_append]
        cases hlast : es.reverse.lookup k with
        | some v =>
            rw [Option.some_or]
            cases hp : p k with
            | true => simp [Option.filter]
            | false =>
                have hsame : (if p e.1 then t.insert e.1 e.2 else t).lookup k = t.lookup k := by
                  split
                  next he => rw [lookup_insert_eq, if_neg fun heq => absurd (heq ▸ he) (by simp [hp])]
                  next => rfl
                simp [Option.filter, hsame]
        | none =>
            rw [Option.none_or, List.lookup_cons, List.lookup_nil]
            by_cases hk : k = e.1
            · subst hk
              cases p e.1 <;> simp [Option.filter]
            · rw [beq_false_of_ne hk]
              split
              next => rw [lookup_insert_eq, if_neg hk]
              next => rfl
  have hreverse : (u.pairs w).reverse = u.pairs w.backwards := by
    rw [pairs, pairs, ← List.map_reverse]
    rfl
  rw [overwrite, hloop, hreverse, lookup_pairs]

omit [DecidableEq K] in
theorem nodup_keys_filterMap {A B : Type} {es : List (A × B)} {f : A × B → Option (K × V)} {g : A → K}
    (hg : Function.Injective g) (hf : ∀ e e', f e = some e' → e'.1 = g e.1) (hnodup : (es.map Prod.fst).Nodup) :
    ((es.filterMap f).map Prod.fst).Nodup := by
  rw [List.Nodup, List.pairwise_map] at hnodup ⊢
  refine List.Pairwise.filterMap f (fun a a' hne b hb b' hb' heq => hne (hg ?_)) hnodup
  rw [← hf a b hb, ← hf a' b' hb', heq]

omit [DecidableEq K] in
theorem nodup_pairs (w : Walk) (t : Table K V) : ((t.pairs w).map Prod.fst).Nodup := by
  have hkeys : ((w.order t.entries).map Sigma.fst).Nodup :=
    ((w.perm t.entries).map Sigma.fst).nodup_iff.mpr t.keys_nodup
  rw [pairs, List.map_map]
  exact hkeys

/-- A later value of a key takes the place of an earlier one. -/
def collect (es : List (K × V)) : Table K V := es.foldl (fun t e => t.insert e.1 e.2) ∅

theorem lookup_collect {es : List (K × V)} (hnodup : (es.map Prod.fst).Nodup) :
    (collect es).lookup k = some v ↔ (k, v) ∈ es := by
  have hloop (t : Table K V) (hfresh : ∀ e ∈ es, e.1 ∉ t) :
      (es.foldl (fun t e => t.insert e.1 e.2) t).lookup k = some v ↔ t.lookup k = some v ∨ (k, v) ∈ es := by
    induction es generalizing t with
    | nil => simp
    | cons e es ih =>
        obtain ⟨hhead, htail⟩ := List.nodup_cons.mp hnodup
        have hne (f : K × V) (hf : f ∈ es) : f.1 ≠ e.1 := fun heq => hhead (heq ▸ List.mem_map_of_mem hf)
        have hrest : ∀ f ∈ es, f.1 ∉ t.insert e.1 e.2 := by
          intro f hf hmem
          rcases (AList.mem_insert t).mp hmem with heq | hmem
          · exact hne f hf heq
          · exact hfresh f (List.mem_cons_of_mem e hf) hmem
        rw [List.foldl_cons, ih htail _ hrest, lookup_insert_eq, List.mem_cons]
        split
        next heq =>
            have hnone : t.lookup k ≠ some v := fun hk =>
              hfresh e List.mem_cons_self (heq ▸ mem_iff_lookup.mpr ⟨v, hk⟩)
            rw [Option.some.injEq, or_iff_right hnone, Prod.ext_iff, and_iff_right heq, eq_comm]
        next hk => rw [Prod.ext_iff, or_iff_right fun h : _ ∧ _ => hk h.1]
  rw [collect, hloop ∅ fun e _ hmem => AList.notMem_empty _ hmem]
  simp

theorem lookup_eq_of_size_le (hsub : ∀ k v, t.lookup k = some v → u.lookup k = some v) (hsize : size u ≤ size t)
    (k : K) : t.lookup k = u.lookup k := by
  have hkeys : t.keys ⊆ u.keys := by
    intro k hk
    obtain ⟨v, hv⟩ := mem_keys_iff_lookup.mp hk
    exact mem_keys_iff_lookup.mpr ⟨v, hsub k v hv⟩
  have hperm := (List.subperm_of_subset t.keys_nodup hkeys).perm_of_length_le hsize
  apply Option.ext
  intro v
  constructor
  · exact hsub k v
  · intro hv
    have hk : k ∈ t.keys := hperm.mem_iff.mpr (mem_keys_iff_lookup.mpr ⟨v, hv⟩)
    obtain ⟨v', hv'⟩ := mem_keys_iff_lookup.mp hk
    rw [hv', ← hsub k v' hv', hv]

end Table

end RichPresence.Lib
