import Mathlib.Data.List.Induction

namespace RichPresence.Lib

variable {α : Type}

/-- An item of a list with what stands before it and behind it. -/
structure Placed (α : Type) where
  before : List α
  item : α
  after : List α

def placedFrom (before : List α) : List α → List (Placed α)
  | [] => []
  | x :: after => ⟨before, x, after⟩ :: placedFrom (before ++ [x]) after

def placed (xs : List α) : List (Placed α) := placedFrom [] xs

namespace Placed

def extend (y : α) (p : Placed α) : Placed α := { p with after := p.after ++ [y] }

end Placed

theorem placedFrom_concat (before xs : List α) (y : α) :
    placedFrom before (xs ++ [y]) = (placedFrom before xs).map (Placed.extend y) ++ [⟨before ++ xs, y, []⟩] := by
  induction xs generalizing before with
  | nil => simp [placedFrom]
  | cons x xs ih =>
      rw [List.cons_append, placedFrom, placedFrom, ih, List.map_cons, List.append_assoc, List.singleton_append]
      rfl

theorem placed_concat (xs : List α) (y : α) :
    placed (xs ++ [y]) = (placed xs).map (Placed.extend y) ++ [⟨xs, y, []⟩] :=
  placedFrom_concat [] xs y

theorem length_placed (xs : List α) : (placed xs).length = xs.length := by
  induction xs using List.reverseRecOn with
  | nil => rfl
  | append_singleton xs y ih => rw [placed_concat, List.length_append, List.length_map, ih, List.length_append]; rfl

theorem before_subset {xs : List α} {p : Placed α} (hp : p ∈ placed xs) : p.before ⊆ xs := by
  induction xs using List.reverseRecOn generalizing p with
  | nil => cases hp
  | append_singleton xs y ih =>
      rw [placed_concat, List.mem_append, List.mem_singleton] at hp
      rcases hp with hp | rfl
      · obtain ⟨q, hq, rfl⟩ := List.mem_map.mp hp
        have hsub : q.before ⊆ xs := ih hq
        exact List.subset_append_of_subset_left _ hsub
      · exact List.subset_append_left _ _

theorem countP_placed_concat (p : Placed α → Bool) (xs : List α) (y : α) :
    (placed (xs ++ [y])).countP p =
      (placed xs).countP (fun q => p (q.extend y)) + if p ⟨xs, y, []⟩ then 1 else 0 := by
  rw [placed_concat, List.countP_append, List.countP_map, List.countP_singleton]
  rfl

theorem countP_or {p q r : α → Bool} {xs : List α} (h : ∀ x ∈ xs, p x = (q x || r x) ∧ (q x && r x) = false) :
    xs.countP p = xs.countP q + xs.countP r := by
  induction xs with
  | nil => rfl
  | cons x xs ih =>
      obtain ⟨hor, hand⟩ := h x (List.mem_cons_self ..)
      rw [List.countP_cons, List.countP_cons, List.countP_cons, ih fun y hy => h y (List.mem_cons_of_mem _ hy), hor]
      cases hq : q x <;> cases hr : r x <;> simp_all <;> omega

end RichPresence.Lib
