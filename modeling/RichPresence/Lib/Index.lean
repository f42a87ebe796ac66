import Mathlib.Data.List.Sort

namespace RichPresence.Lib

variable {K V α : Type} [DecidableEq K]

section Sorted

variable {r : K → K → Prop} [DecidableRel fun a b : K × V => r a.1 b.1]

theorem lookup_cons_eq (e : K × V) (l : List (K × V)) (k : K) :
    (e :: l).lookup k = if k = e.1 then some e.2 else l.lookup k := by
  obtain ⟨key, value⟩ := e
  rw [List.lookup_cons]
  by_cases h : k = key
  · simp [h]
  · simp [h, beq_eq_false_iff_ne.mpr h]

theorem lookup_orderedInsert (hrefl : ∀ k, r k k) (e : K × V) (l : List (K × V)) (k : K) :
    (l.orderedInsert (fun a b => r a.1 b.1) e).lookup k = if k = e.1 then some e.2 else l.lookup k := by
  induction l with
  | nil => rw [List.orderedInsert, lookup_cons_eq]
  | cons f l ih =>
      rw [List.orderedInsert]
      split
      · rw [lookup_cons_eq]
      next hnot =>
        rw [lookup_cons_eq, ih, lookup_cons_eq f]
        by_cases hk : k = e.1
        · have hf : k ≠ f.1 := fun hf => hnot (by rw [← hk, ← hf]; exact hrefl k)
          rw [if_neg hf, if_pos hk, if_pos hk]
        · rw [if_neg hk, if_neg hk]

theorem lookup_insertionSort (hrefl : ∀ k, r k k) (l : List (K × V)) (k : K) :
    (l.insertionSort fun a b => r a.1 b.1).lookup k = l.lookup k := by
  induction l with
  | nil => rfl
  | cons e l ih => rw [List.insertionSort_cons, lookup_orderedInsert hrefl, ih, lookup_cons_eq]

end Sorted

theorem lookup_dropWhile {key k : K} (hne : k ≠ key) (l : List (K × V)) :
    (l.dropWhile fun e => e.1 = key).lookup k = l.lookup k := by
  induction l with
  | nil => rfl
  | cons e l ih =>
      rw [List.dropWhile_cons]
      split
      next he =>
        rw [ih, lookup_cons_eq, if_neg]
        rw [decide_eq_true_eq] at he
        rwa [he]
      next => rfl

def indexed (keys : α → List K) (xs : List α) : List (K × Nat) :=
  xs.zipIdx.flatMap fun x => (keys x.1).map fun k => (k, x.2)

omit [DecidableEq K] in
theorem mem_indexed {keys : α → List K} {xs : List α} {k : K} {i : Nat} :
    (k, i) ∈ indexed keys xs ↔ ∃ x, xs[i]? = some x ∧ k ∈ keys x := by
  rw [indexed, List.mem_flatMap]
  constructor
  · rintro ⟨⟨x, j⟩, hx, hk⟩
    obtain ⟨key, hkey, heq⟩ := List.mem_map.mp hk
    obtain ⟨rfl, rfl⟩ := Prod.mk.inj heq
    exact ⟨x, List.mk_mem_zipIdx_iff_getElem?.mp hx, hkey⟩
  · rintro ⟨x, hx, hk⟩
    exact ⟨(x, i), List.mk_mem_zipIdx_iff_getElem?.mpr hx, List.mem_map.mpr ⟨k, hk, rfl⟩⟩

theorem mem_of_lookup {l : List (K × V)} {k : K} {v : V} (h : l.lookup k = some v) : (k, v) ∈ l := by
  obtain ⟨before, after, rfl, -⟩ := List.lookup_eq_some_iff.mp h
  exact List.mem_append_right _ (List.mem_cons_self ..)

theorem exists_lookup_of_mem {l : List (K × V)} {k : K} {v : V} (h : (k, v) ∈ l) : ∃ w, l.lookup k = some w :=
  Option.isSome_iff_exists.mp (List.lookup_isSome_iff.mpr ⟨(k, v), h, beq_self_eq_true k⟩)

theorem lookup_eq_some_iff_mem {l : List (K × V)} (hnodup : (l.map Prod.fst).Nodup) {k : K} {v : V} :
    l.lookup k = some v ↔ (k, v) ∈ l := by
  refine ⟨mem_of_lookup, fun hmem => ?_⟩
  obtain ⟨v', hv'⟩ := exists_lookup_of_mem hmem
  have heq : (k, v') = (k, v) := List.inj_on_of_nodup_map hnodup (mem_of_lookup hv') hmem rfl
  rw [hv', (Prod.mk.inj heq).2]

theorem lookup_map_const (ks : List K) (v : V) (k : K) :
    (ks.map fun k => (k, v)).lookup k = if k ∈ ks then some v else none := by
  induction ks with
  | nil => rfl
  | cons key ks ih =>
      rw [List.map_cons, lookup_cons_eq, ih]
      by_cases h : k = key
      · simp [h]
      · simp [h]

theorem lookup_indexed (keys : α → List K) (xs : List α) (k : K) :
    (indexed keys xs).lookup k = xs.findIdx? fun x => k ∈ keys x := by
  have hfrom (n : Nat) :
      ((xs.zipIdx n).flatMap fun x => (keys x.1).map fun k => (k, x.2)).lookup k =
        (xs.findIdx? fun x => k ∈ keys x).map (· + n) := by
    induction xs generalizing n with
    | nil => rfl
    | cons x xs ih =>
        rw [List.zipIdx_cons, List.flatMap_cons, List.lookup_append, lookup_map_const, ih, List.findIdx?_cons]
        by_cases h : k ∈ keys x
        · simp [h]
        · simp only [h, if_false, decide_false, Bool.false_eq_true, Option.none_or, Option.map_map]
          exact Option.map_congr fun i _ => by simp only [Function.comp_apply]; omega
  have hzero := hfrom 0
  rw [indexed, hzero]
  simp

end RichPresence.Lib
