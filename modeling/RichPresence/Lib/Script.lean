import RichPresence.Lib.Run

namespace RichPresence.Lib

/-- A task as a tree of calls. Each call is one atomic step on a state that other
tasks share, and the rest of the task depends on the answer. -/
inductive Script (ω : Type) (ρ : ω → Type) (α : Type)
  | done (a : α)
  | call (o : ω) (k : ρ o → Script ω ρ α)

namespace Script

variable {ω σ ε α β : Type} {ρ : ω → Type}

def bind : Script ω ρ α → (α → Script ω ρ β) → Script ω ρ β
  | done a, g => g a
  | call o k, g => call o fun r => bind (k r) g

instance : Monad (Script ω ρ) where
  pure := done
  bind := bind

instance : LawfulMonad (Script ω ρ) := LawfulMonad.mk' _
  (fun p => by
    induction p with
    | done a => rfl
    | call o k ih => exact congrArg (call o) (funext ih))
  (fun _ _ => rfl)
  (fun p f g => by
    induction p with
    | done a => rfl
    | call o k ih => exact congrArg (call o) (funext ih))

def perform (o : ω) : Script ω ρ (ρ o) := call o done

def next : Script ω ρ α → Option ω
  | done _ => none
  | call o _ => some o

variable (act : (o : ω) → σ → ρ o × σ)

def run : Script ω ρ α → σ → α × σ
  | done a, s => (a, s)
  | call o k, s => run (k (act o s).1) (act o s).2

@[simp] theorem run_pure (a : α) (s : σ) : run act (pure a : Script ω ρ α) s = (a, s) := rfl

@[simp] theorem run_perform (o : ω) (s : σ) : run act (perform o) s = act o s := rfl

@[simp] theorem run_bind (p : Script ω ρ α) (g : α → Script ω ρ β) (s : σ) :
    run act (p >>= g) s = run act (g (run act p s).1) (run act p s).2 := by
  induction p generalizing s with
  | done a => rfl
  | call o k ih => exact ih (act o s).1 (act o s).2

end Script

structure Task (ω : Type) (ρ : ω → Type) (σ : Type) where
  script : Script ω ρ Unit
  state : σ

/-- Whose step is next: the task's own, or one of the tasks around it. -/
inductive Slice (ε : Type)
  | own
  | other (e : ε)
  deriving DecidableEq, Repr

namespace Task

variable {ω σ ε : Type} {ρ : ω → Type} (act : (o : ω) → σ → ρ o × σ) (world : σ → ε → σ)

def step (t : Task ω ρ σ) : Slice ε → Task ω ρ σ
  | .own =>
      match t.script with
      | .done _ => t
      | .call o k => ⟨k (act o t.state).1, (act o t.state).2⟩
  | .other e => { t with state := world t.state e }

def runs (t : Task ω ρ σ) (slices : List (Slice ε)) : Task ω ρ σ := slices.foldl (step act world) t

/-- A condition on the calls of the task, in the states it makes them in. -/
def Calls (P : σ → ω → Prop) (t : Task ω ρ σ) : Slice ε → Prop
  | .own => ∀ o ∈ t.script.next, P t.state o
  | .other _ => True

instance (P : σ → ω → Prop) [∀ s o, Decidable (P s o)] (t : Task ω ρ σ) : (e : Slice ε) → Decidable (t.Calls P e)
  | .own => inferInstanceAs (Decidable (∀ o ∈ t.script.next, P t.state o))
  | .other _ => inferInstanceAs (Decidable True)

variable {act world}

/-- The interleaving rule: what every call that meets the condition keeps, and
every step of the other tasks keeps, is kept however they interleave. -/
theorem invariant {P : σ → ω → Prop} (I : σ → Prop) (hown : ∀ s o, I s → P s o → I (act o s).2)
    (hworld : ∀ s e, I s → I (world s e)) {t : Task ω ρ σ} {slices : List (Slice ε)} (ht : I t.state)
    (hp : Along (step act world) (Calls P) t slices) : I (t.runs act world slices).state := by
  refine hp.invariant (fun t => I t.state) (fun t e hs hc => ?_) ht
  cases e with
  | other e => exact hworld _ e hs
  | own =>
      rw [step]
      split
      next => exact hs
      next o k ho => exact hown _ o hs (hc o (by rw [ho]; rfl))

end Task

end RichPresence.Lib
