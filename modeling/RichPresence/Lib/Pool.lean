import Mathlib.Algebra.Ring.Nat
import Mathlib.Data.List.Nodup
import Mathlib.Data.List.Perm.Subperm

namespace RichPresence.Lib

/-- Tasks, each known by its place, over a state that they share. -/
structure Pool (τ σ : Type) where
  tasks : List τ := []
  shared : σ

namespace Pool

variable {τ σ κ : Type}

def advance (f : τ → σ → τ × σ) (i : Nat) (p : Pool τ σ) : Pool τ σ :=
  match p.tasks[i]? with
  | some t => ⟨p.tasks.set i (f t p.shared).1, (f t p.shared).2⟩
  | none => p

def spawn (t : τ) (p : Pool τ σ) : Pool τ σ := { p with tasks := p.tasks ++ [t] }

variable {f : τ → σ → τ × σ} {i : Nat} {p : Pool τ σ}

theorem advance_of_some {t : τ} (h : p.tasks[i]? = some t) :
    p.advance f i = ⟨p.tasks.set i (f t p.shared).1, (f t p.shared).2⟩ := by
  rw [advance, h]

theorem advance_of_none (h : p.tasks[i]? = none) : p.advance f i = p := by
  rw [advance, h]

theorem map_advance {key : τ → κ} (hkey : ∀ t s, key (f t s).1 = key t) :
    (p.advance f i).tasks.map key = p.tasks.map key := by
  cases h : p.tasks[i]? with
  | none => rw [advance_of_none h]
  | some t =>
      obtain ⟨hi, rfl⟩ := List.getElem?_eq_some_iff.mp h
      rw [advance_of_some h, List.map_set, hkey, ← List.map_set, List.set_getElem_self]

/-- The rule for one step among others: it has to keep what is known of its own task,
and what is known of every task with another key. -/
theorem forall_advance {key : τ → κ} {J : σ → τ → Prop} (hnodup : (p.tasks.map key).Nodup)
    (hown : ∀ t ∈ p.tasks, J p.shared t → J (f t p.shared).2 (f t p.shared).1)
    (hother : ∀ t ∈ p.tasks, ∀ u ∈ p.tasks, key u ≠ key t → J p.shared u → J (f t p.shared).2 u)
    (h : ∀ t ∈ p.tasks, J p.shared t) :
    ∀ t ∈ (p.advance f i).tasks, J (p.advance f i).shared t := by
  cases hi : p.tasks[i]? with
  | none => rw [advance_of_none hi]; exact h
  | some t =>
      obtain ⟨hlt, rfl⟩ := List.getElem?_eq_some_iff.mp hi
      rw [advance_of_some hi]
      intro u hu
      obtain ⟨j, hj, rfl⟩ := List.getElem_of_mem hu
      rw [List.length_set] at hj
      rw [List.getElem_set]
      split
      next => exact hown _ (List.getElem_mem hlt) (h _ (List.getElem_mem hlt))
      next hne =>
          refine hother _ (List.getElem_mem hlt) _ (List.getElem_mem hj) ?_ (h _ (List.getElem_mem hj))
          intro hkey
          have hi' : i < (p.tasks.map key).length := by simpa using hlt
          have hj' : j < (p.tasks.map key).length := by simpa using hj
          have heq : (p.tasks.map key)[i] = (p.tasks.map key)[j] := by simpa using hkey.symm
          exact hne (hnodup.getElem_inj_iff.mp heq)

theorem forall_tasks_advance {Q : τ → Prop} (hown : ∀ t ∈ p.tasks, Q t → Q (f t p.shared).1)
    (h : ∀ t ∈ p.tasks, Q t) : ∀ t ∈ (p.advance f i).tasks, Q t := by
  cases hi : p.tasks[i]? with
  | none => rw [advance_of_none hi]; exact h
  | some t =>
      rw [advance_of_some hi]
      have ht := List.mem_of_getElem? hi
      intro u hu
      obtain hu | rfl := List.mem_or_eq_of_mem_set hu
      · exact h u hu
      · exact hown t ht (h t ht)

theorem countP_advance {q : τ → Bool} {t : τ} (h : p.tasks[i]? = some t) :
    (p.advance f i).tasks.countP q + (q t).toNat = p.tasks.countP q + (q (f t p.shared).1).toNat := by
  rw [advance_of_some h]
  obtain ⟨hi, rfl⟩ := List.getElem?_eq_some_iff.mp h
  have hle := List.boole_getElem_le_countP (p := q) hi
  rw [List.countP_set hi]
  cases hq : q p.tasks[i] with
  | false => cases q (f p.tasks[i] p.shared).1 <;> simp
  | true =>
      rw [hq, if_pos rfl] at hle
      cases q (f p.tasks[i] p.shared).1 <;> simp <;> omega

theorem sum_map_advance (w : τ → Nat) {t : τ} (h : p.tasks[i]? = some t) :
    ((p.advance f i).tasks.map w).sum + w t = (p.tasks.map w).sum + w (f t p.shared).1 := by
  obtain ⟨hi, rfl⟩ := List.getElem?_eq_some_iff.mp h
  have hsplit : p.tasks.take i ++ p.tasks[i] :: p.tasks.drop (i + 1) = p.tasks := by
    rw [← List.drop_eq_getElem_cons hi, List.take_append_drop]
  have hsum := congrArg (fun tasks => (tasks.map w).sum) hsplit
  rw [advance_of_some h, List.set_eq_take_append_cons_drop, if_pos hi]
  simp only [List.map_append, List.map_cons, List.sum_append, List.sum_cons] at hsum ⊢
  omega

/-- A potential that a task and the shared state make up together does not grow by the
steps of the task. -/
theorem potential_advance (w : τ → Nat) (v : σ → Nat) (h : ∀ t s, w (f t s).1 + v (f t s).2 ≤ w t + v s) :
    ((p.advance f i).tasks.map w).sum + v (p.advance f i).shared ≤ (p.tasks.map w).sum + v p.shared := by
  cases hi : p.tasks[i]? with
  | none => exact Nat.le_of_eq (by rw [advance_of_none hi])
  | some t =>
      have hsum := sum_map_advance (f := f) w hi
      have hstep := h t p.shared
      rw [advance_of_some hi] at hsum ⊢
      dsimp only at hsum ⊢
      omega

theorem potential_advance_lt (w : τ → Nat) (v : σ → Nat) {t : τ} (hi : p.tasks[i]? = some t)
    (h : w (f t p.shared).1 + v (f t p.shared).2 < w t + v p.shared) :
    ((p.advance f i).tasks.map w).sum + v (p.advance f i).shared < (p.tasks.map w).sum + v p.shared := by
  have hsum := sum_map_advance (f := f) w hi
  rw [advance_of_some hi] at hsum ⊢
  dsimp only at hsum ⊢
  omega

theorem balance_advance {q : τ → Bool} (free : σ → Nat)
    (h : ∀ t s, free (f t s).2 + (q (f t s).1).toNat = free s + (q t).toNat) :
    free (p.advance f i).shared + (p.advance f i).tasks.countP q = free p.shared + p.tasks.countP q := by
  cases hi : p.tasks[i]? with
  | none => rw [advance_of_none hi]
  | some t =>
      have hcount := countP_advance (f := f) (q := q) hi
      have hfree := h t p.shared
      rw [advance_of_some hi] at hcount ⊢
      dsimp only at hcount ⊢
      omega

end Pool

end RichPresence.Lib
