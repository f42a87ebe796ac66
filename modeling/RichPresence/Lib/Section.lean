import Mathlib.Logic.Basic

namespace RichPresence.Lib

/-- A program made of atomic sections over a shared state. A section updates
the state in one step, and the rest of the program may depend on what the
section saw when it started. -/
inductive Prog (σ α : Type)
  | ret (a : α)
  | atomic (f : σ → σ) (k : σ → Prog σ α)

namespace Prog

variable {σ α β : Type}

def bind : Prog σ α → (α → Prog σ β) → Prog σ β
  | ret a, g => g a
  | atomic f k, g => atomic f fun s => bind (k s) g

instance : Monad (Prog σ) where
  pure := ret
  bind := bind

def locked (f : σ → α × σ) : Prog σ α := atomic (fun s => (f s).2) fun s => ret (f s).1

def reads (f : σ → α) : Prog σ α := atomic id fun s => ret (f s)

def updates (f : σ → σ) : Prog σ Unit := atomic f fun _ => ret ()

def run : Prog σ α → σ → α × σ
  | ret a, s => (a, s)
  | atomic f k, s => run (k s) (f s)

def exec (p : Prog σ α) (s : σ) : σ := (run p s).2

def starts : Prog σ α → σ → List σ
  | ret _, _ => []
  | atomic f k, s => s :: starts (k s) (f s)

@[simp] theorem run_locked (f : σ → α × σ) (s : σ) : run (locked f) s = f s := rfl

@[simp] theorem run_reads (f : σ → α) (s : σ) : run (reads f) s = (f s, s) := rfl

@[simp] theorem run_bind (p : Prog σ α) (g : α → Prog σ β) (s : σ) :
    run (p >>= g) s = run (g (run p s).1) (run p s).2 := by
  induction p generalizing s with
  | ret a => rfl
  | atomic f k ih => exact ih s (f s)

@[simp] theorem exec_pure (a : α) (s : σ) : exec (pure a : Prog σ α) s = s := rfl

@[simp] theorem exec_locked (f : σ → α × σ) (s : σ) : exec (locked f) s = (f s).2 := rfl

@[simp] theorem exec_reads (f : σ → α) (s : σ) : exec (reads f) s = s := rfl

@[simp] theorem exec_updates (f : σ → σ) (s : σ) : exec (updates f) s = f s := rfl

@[simp] theorem exec_bind (p : Prog σ α) (g : α → Prog σ β) (s : σ) :
    exec (p >>= g) s = exec (g (run p s).1) (exec p s) := by
  simp [exec]

@[simp] theorem starts_locked (f : σ → α × σ) (s : σ) : starts (locked f) s = [s] := rfl

@[simp] theorem starts_reads (f : σ → α) (s : σ) : starts (reads f) s = [s] := rfl

@[simp] theorem starts_updates (f : σ → σ) (s : σ) : starts (updates f) s = [s] := rfl

@[simp] theorem starts_bind (p : Prog σ α) (g : α → Prog σ β) (s : σ) :
    starts (p >>= g) s = starts p s ++ starts (g (run p s).1) (exec p s) := by
  induction p generalizing s with
  | ret a => rfl
  | atomic f k ih => exact congrArg (s :: ·) (ih s (f s))

/-- Every section of the run starts in a state with `Q`. -/
def Through (Q : σ → Prop) (p : Prog σ α) (s : σ) : Prop := ∀ t ∈ starts p s, Q t

section Through

variable {Q : σ → Prop} {s : σ}

@[simp] theorem through_locked (f : σ → α × σ) : Through Q (locked f) s ↔ Q s := by simp [Through]

@[simp] theorem through_updates (f : σ → σ) : Through Q (updates f) s ↔ Q s := by simp [Through]

@[simp] theorem through_bind (p : Prog σ α) (g : α → Prog σ β) :
    Through Q (p >>= g) s ↔ Through Q p s ∧ Through Q (g (run p s).1) (exec p s) := by
  simp [Through, or_imp, forall_and]

instance [DecidablePred Q] (p : Prog σ α) : Decidable (Through Q p s) :=
  inferInstanceAs (Decidable (∀ t ∈ starts p s, Q t))

end Through

/-- The loop rule: an invariant that holds before the loop and survives every
body holds after it. The body may use which element it is given. -/
theorem exec_forM_induction {p : α → Prog σ PUnit} {l : List α} (I : σ → Prop) {s : σ} (hs : I s)
    (hp : ∀ a ∈ l, ∀ s, I s → I (exec (p a) s)) : I (exec (forM l p) s) := by
  induction l generalizing s with
  | nil => exact hs
  | cons a l ih =>
      rw [List.forM_cons, exec_bind]
      exact ih (hp a (by simp) s hs) fun b hb => hp b (by simp [hb])

theorem through_forM_induction {p : α → Prog σ PUnit} {l : List α} {Q : σ → Prop} (I : σ → Prop) {s : σ}
    (hs : I s) (ht : Through Q (forM l p) s)
    (hp : ∀ a ∈ l, ∀ s, I s → Through Q (p a) s → I (exec (p a) s)) : I (exec (forM l p) s) := by
  induction l generalizing s with
  | nil => exact hs
  | cons a l ih =>
      rw [List.forM_cons, through_bind] at ht
      rw [List.forM_cons, exec_bind]
      exact ih (hp a (by simp) s hs ht.1) ht.2 fun b hb => hp b (by simp [hb])

end Prog

end RichPresence.Lib

namespace RichPresence.Lib.Prog

variable {σ α β : Type}

/-- Two programs run side by side from one state to another: every section of
either is one step, and any of the two may take the next one. -/
inductive Weave : Prog σ α → Prog σ β → σ → σ → Prop
  | done (a : α) (b : β) (s : σ) : Weave (ret a) (ret b) s s
  | left {f : σ → σ} {k : σ → Prog σ α} {q : Prog σ β} {s t : σ} :
      Weave (k s) q (f s) t → Weave (atomic f k) q s t
  | right {p : Prog σ α} {f : σ → σ} {k : σ → Prog σ β} {s t : σ} :
      Weave p (k s) (f s) t → Weave p (atomic f k) s t

/-- The run that lets the left program take the turns marked `true`. A turn for
a finished program is skipped, and after the last turn the left one finishes
first. -/
def weave : List Bool → Prog σ α → Prog σ β → σ → σ
  | [], p, q, s => q.exec (p.exec s)
  | true :: turns, ret a, q, s => weave turns (ret a) q s
  | true :: turns, atomic f k, q, s => weave turns (k s) q (f s)
  | false :: turns, p, ret b, s => weave turns p (ret b) s
  | false :: turns, p, atomic f k, s => weave turns p (k s) (f s)

namespace Weave

variable {p : Prog σ α} {q : Prog σ β} {s t : σ}

theorem symm (h : Weave p q s t) : Weave q p s t := by
  induction h with
  | done a b s => exact .done b a s
  | left _ ih => exact .right ih
  | right _ ih => exact .left ih

theorem alone (a : α) (q : Prog σ β) (s : σ) : Weave (ret a) q s (q.exec s) := by
  induction q generalizing s with
  | ret b => exact .done a b s
  | atomic f k ih => exact .right (ih s (f s))

theorem ended {a : α} (h : Weave (ret a) q s t) : t = q.exec s := by
  generalize hp : (ret a : Prog σ α) = p at h
  induction h with
  | done a b s => rfl
  | left _ _ => cases hp
  | right _ ih => exact ih hp

theorem serial (p : Prog σ α) (q : Prog σ β) (s : σ) : Weave p q s (q.exec (p.exec s)) := by
  induction p generalizing s with
  | ret a => exact alone a q s
  | atomic f k ih => exact .left (ih s (f s))

theorem of_turns (turns : List Bool) (p : Prog σ α) (q : Prog σ β) (s : σ) :
    Weave p q s (weave turns p q s) := by
  induction turns generalizing p q s with
  | nil => exact serial p q s
  | cons turn turns ih =>
      rcases turn with _ | _
      · cases q with
        | ret b => exact ih p (ret b) s
        | atomic f k => exact .right (ih p (k s) (f s))
      · cases p with
        | ret a => exact ih (ret a) q s
        | atomic f k => exact .left (ih (k s) q (f s))

end Weave

end RichPresence.Lib.Prog
