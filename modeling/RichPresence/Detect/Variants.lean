import RichPresence.Detect.Classify
import RichPresence.Detect.Normalizers

namespace RichPresence.Detect

open Lib

/-- The caller's buffers for the variants of a path: always five of them. -/
structure VariantBufs where
  bufs : List Path := List.replicate 5 []
  length_bufs : bufs.length = 5 := by rfl

def VariantBufs.set (out : VariantBufs) (index : Nat) (buf : Path) : VariantBufs where
  bufs := out.bufs.set index buf
  length_bufs := by rw [List.length_set, out.length_bufs]

def removeMarkerInto (path marker buf : Path) : Path := deleteLoop marker path.length path (cleared buf)

/-- A candidate is written into the next buffer before it is known whether it is kept. -/
def variantTurn (path : Path) (state : Nat × VariantBufs) (marker : Path) : Nat × VariantBufs :=
  let (count, out) := state
  if ¬marker <:+: path ∨ 5 ≤ count then state
  else
    let candidate := removeMarkerInto path marker (out.bufs.getD count [])
    let out := out.set count candidate
    if candidate ≠ path ∧ candidate ∉ out.bufs.take count then (count + 1, out) else (count, out)

def pathVariantsInto (path : Path) (out : VariantBufs) : Nat × VariantBufs :=
  let out := out.set 0 (cleared (out.bufs.getD 0 []) ++ path)
  markers.foldl (variantTurn path) (1, out)

section Marker

variable {marker : Path}

theorem removeMarker_skip (marker : Path) (skip : Nat) (path : Path) :
    removeMarker marker skip path = removeMarker marker 0 (path.drop skip) := by
  induction skip generalizing path with
  | zero => rfl
  | succ skip ih =>
      cases path with
      | nil => rfl
      | cons c path =>
          rw [removeMarker, List.drop_succ_cons]
          exact ih path

theorem deleted_removeMarker (hmarker : marker ≠ []) (path : Path) :
    Deleted marker path (removeMarker marker 0 path) := by
  induction hn : path.length using Nat.strongRecOn generalizing path with
  | ind n ih =>
      cases path with
      | nil => exact .rest fun h => hmarker (List.infix_nil.mp h)
      | cons c path =>
          rw [removeMarker]
          split
          next hprefix =>
              obtain ⟨after, hafter⟩ := List.isPrefixOf_iff_prefix.mp hprefix
              have hpos : 0 < marker.length := List.length_pos_iff.mpr hmarker
              have hlen := congrArg List.length hafter
              have hdrop : path.drop (marker.length - 1) = after := by
                rw [← List.drop_succ_cons (a := c), Nat.sub_add_cancel hpos, ← hafter, List.drop_left]
              rw [List.length_append, List.length_cons] at hlen
              rw [List.length_cons] at hn
              rw [removeMarker_skip, hdrop, ← hafter]
              exact (ih after.length (by omega) after rfl).drop
          next hprefix =>
              refine (ih path.length (by rw [← hn]; exact Nat.lt_succ_self _) path rfl).cons fun h => ?_
              exact hprefix (List.isPrefixOf_iff_prefix.mpr h)

theorem removeMarkerInto_eq (hmarker : marker ≠ []) (path buf : Path) :
    removeMarkerInto path marker buf = removeMarker marker 0 path := by
  obtain ⟨left, hloop, hleft⟩ := deleted_deleteLoop hmarker (Nat.le_refl path.length) (cleared buf)
  rw [removeMarkerInto, hloop]
  exact hleft.unique (deleted_removeMarker hmarker path)

end Marker

theorem take_set_same {α : Type} (l : List α) (n : Nat) (a : α) : (l.set n a).take n = l.take n :=
  List.take_set_of_le (Nat.le_refl n)

theorem take_succ_set {α : Type} {l : List α} {n : Nat} (h : n < l.length) (a : α) :
    (l.set n a).take (n + 1) = l.take n ++ [a] := by
  rw [List.take_add_one, take_set_same, List.getElem?_set_self h]
  rfl

theorem take_variantTurns (path : Path) {ms : List Path} (hms : ∀ marker ∈ ms, marker ≠ []) {count : Nat}
    {out : VariantBufs} (hroom : count + ms.length ≤ 5) :
    (ms.foldl (variantTurn path) (count, out)).2.bufs.take (ms.foldl (variantTurn path) (count, out)).1 =
      ms.foldl (fun filled marker =>
        let candidate := removeMarker marker 0 path
        if marker <:+: path ∧ candidate ≠ path ∧ candidate ∉ filled then filled ++ [candidate] else filled)
        (out.bufs.take count) := by
  induction ms generalizing count out with
  | nil => rfl
  | cons marker ms ih =>
      rw [List.length_cons] at hroom
      rw [List.foldl_cons, List.foldl_cons, variantTurn]
      have hcount : ¬5 ≤ count := by omega
      have hlt : count < out.bufs.length := by rw [out.length_bufs]; omega
      have hrest : ∀ marker ∈ ms, marker ≠ [] := fun m hm => hms m (List.mem_cons_of_mem _ hm)
      by_cases hmarker : marker <:+: path
      · simp only [hmarker, hcount, not_true, or_false, if_false, removeMarkerInto_eq (hms marker List.mem_cons_self),
          VariantBufs.set, take_set_same, true_and]
        split
        · rw [ih hrest (by omega), take_succ_set hlt]
        · rw [ih hrest (by omega), take_set_same]
      · simp only [hmarker, not_false_eq_true, true_or, if_true, false_and, if_false]
        exact ih hrest (by omega)

theorem markers_ne_nil : ∀ marker ∈ markers, marker ≠ [] := by decide

theorem pathVariantsInto_eq (path : Path) (out : VariantBufs) :
    (pathVariantsInto path out).2.bufs.take (pathVariantsInto path out).1 = pathVariants path := by
  have hlt : 0 < out.bufs.length := by rw [out.length_bufs]; omega
  rw [pathVariantsInto, take_variantTurns path markers_ne_nil (by decide), pathVariants, VariantBufs.set,
    take_succ_set hlt]
  rfl

theorem variantTurns_le (path : Path) (ms : List Path) (count : Nat) (out : VariantBufs) :
    (ms.foldl (variantTurn path) (count, out)).1 ≤ count + ms.length := by
  induction ms generalizing count out with
  | nil => exact Nat.le_refl count
  | cons marker ms ih =>
      have hturn : (variantTurn path (count, out) marker).1 ≤ count + 1 := by
        rw [variantTurn]
        split
        · exact Nat.le_succ count
        · dsimp only
          split
          · exact Nat.le_refl _
          · exact Nat.le_succ count
      have hrest := ih (variantTurn path (count, out) marker).1 (variantTurn path (count, out) marker).2
      rw [List.foldl_cons, List.length_cons]
      exact hrest.trans (by omega)

theorem foldl_append_new {α : Type} [BEq α] [LawfulBEq α] (l acc : List α) :
    l.foldl (fun acc a => if a ∈ acc then acc else acc ++ [a]) acc = acc ++ (l.filter (· ∉ acc)).eraseDups := by
  induction l generalizing acc with
  | nil => exact (List.append_nil acc).symm
  | cons a l ih =>
      rw [List.foldl_cons, ih]
      by_cases ha : a ∈ acc
      · rw [if_pos ha, List.filter_cons_of_neg (by simpa using ha)]
      · rw [if_neg ha, List.filter_cons_of_pos (by simpa using ha), List.eraseDups_cons, List.append_assoc,
          List.filter_filter]
        refine congrArg (acc ++ a :: ·.eraseDups) (List.filter_congr fun b _ => ?_)
        by_cases hb : b = a
        · simp [hb]
        · simp [hb]

theorem pathVariants_eq (path : Path) :
    pathVariants path =
      (path :: (markers.filter (· <:+: path)).map fun marker => removeMarker marker 0 path).eraseDups := by
  have hfold (ms : List Path) (filled : List Path) (hpath : path ∈ filled) :
      ms.foldl (fun filled marker =>
        let candidate := removeMarker marker 0 path
        if marker <:+: path ∧ candidate ≠ path ∧ candidate ∉ filled then filled ++ [candidate] else filled) filled =
      ((ms.filter (· <:+: path)).map fun marker => removeMarker marker 0 path).foldl
        (fun filled candidate => if candidate ∈ filled then filled else filled ++ [candidate]) filled := by
    induction ms generalizing filled with
    | nil => rfl
    | cons marker ms ih =>
        rw [List.foldl_cons]
        dsimp only
        by_cases hmarker : marker <:+: path
        · rw [List.filter_cons_of_pos (by simpa using hmarker), List.map_cons, List.foldl_cons]
          by_cases hmem : removeMarker marker 0 path ∈ filled
          · rw [if_neg fun h => h.2.2 hmem, if_pos hmem]
            exact ih filled hpath
          · have hne : removeMarker marker 0 path ≠ path := fun heq => hmem (by rwa [heq])
            rw [if_pos ⟨hmarker, hne, hmem⟩, if_neg hmem]
            exact ih _ (List.mem_append_left _ hpath)
        · rw [if_neg fun h => hmarker h.1, List.filter_cons_of_neg (by simpa using hmarker)]
          exact ih filled hpath
  rw [pathVariants, hfold markers [path] List.mem_cons_self, foldl_append_new, List.eraseDups_cons]
  refine congrArg (path :: ·.eraseDups) (List.filter_congr fun variant _ => ?_)
  by_cases hvariant : variant = path
  · simp [hvariant]
  · simp [hvariant]

/-- Whatever the buffers hold, those that are counted are filled with the path and with what is left of it without
each marker that occurs, in order and each text once. -/
theorem pathVariantsInto_exact (path : Path) (out : VariantBufs) :
    (pathVariantsInto path out).2.bufs.take (pathVariantsInto path out).1 =
        (path :: (markers.filter (· <:+: path)).map fun marker => removeMarker marker 0 path).eraseDups ∧
      (pathVariantsInto path out).1 =
        (path :: (markers.filter (· <:+: path)).map fun marker => removeMarker marker 0 path).eraseDups.length ∧
      ∀ marker ∈ markers, ∀ left, Deleted marker path left ↔ left = removeMarker marker 0 path := by
  have hfilled := (pathVariantsInto_eq path out).trans (pathVariants_eq path)
  refine ⟨hfilled, ?_, fun marker hmarker left => ⟨fun h => ?_, ?_⟩⟩
  · have hle : (pathVariantsInto path out).1 ≤ 1 + markers.length := variantTurns_le path markers 1 _
    rw [← hfilled, List.length_take, VariantBufs.length_bufs]
    exact (Nat.min_eq_left hle).symm
  · exact h.unique (deleted_removeMarker (markers_ne_nil marker hmarker) path)
  · rintro rfl
    exact deleted_removeMarker (markers_ne_nil marker hmarker) path

end RichPresence.Detect
