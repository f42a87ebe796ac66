import Mathlib.Data.List.Basic

namespace RichPresence.Lib

variable {σ ε : Type*}

/-- Every event of a run meets a condition on the state it finds. -/
def Along (step : σ → ε → σ) (P : σ → ε → Prop) : σ → List ε → Prop
  | _, [] => True
  | s, e :: es => P s e ∧ Along step P (step s e) es

namespace Along

instance decidable (step : σ → ε → σ) (P : σ → ε → Prop) [∀ s e, Decidable (P s e)] :
    ∀ s es, Decidable (Along step P s es)
  | _, [] => .isTrue trivial
  | s, e :: es =>
      have := decidable step P (step s e) es
      inferInstanceAs (Decidable (P s e ∧ Along step P (step s e) es))

variable {step : σ → ε → σ} {P Q : σ → ε → Prop} {s : σ}

theorem append {es fs : List ε} :
    Along step P s (es ++ fs) ↔ Along step P s es ∧ Along step P (es.foldl step s) fs := by
  induction es generalizing s with
  | nil => simp [Along]
  | cons e es ih => simp [Along, ih, and_assoc]

theorem concat {es : List ε} {e : ε} :
    Along step P s (es ++ [e]) ↔ Along step P s es ∧ P (es.foldl step s) e := by
  simp [append, Along]

theorem initial {es fs : List ε} (h : es <+: fs) (hp : Along step P s fs) : Along step P s es := by
  obtain ⟨rest, rfl⟩ := h
  exact (append.mp hp).1

theorem and {es : List ε} (hp : Along step P s es) (hq : Along step Q s es) :
    Along step (fun s e => P s e ∧ Q s e) s es := by
  induction es generalizing s with
  | nil => trivial
  | cons e es ih => exact ⟨⟨hp.1, hq.1⟩, ih hp.2 hq.2⟩

theorem imp {es : List ε} (h : ∀ s e, P s e → Q s e) (hp : Along step P s es) : Along step Q s es := by
  induction es generalizing s with
  | nil => trivial
  | cons e es ih => exact ⟨h s e hp.1, ih hp.2⟩

theorem of_forall {R : ε → Prop} {es : List ε} (h : ∀ e ∈ es, R e) : Along step (fun _ e => R e) s es := by
  induction es generalizing s with
  | nil => trivial
  | cons e es ih => exact ⟨h e (by simp), ih fun f hf => h f (by simp [hf])⟩

theorem iff_forall {es : List ε} :
    Along step P s es ↔ ∀ pre e, pre ++ [e] <+: es → P (pre.foldl step s) e := by
  constructor
  · intro h pre e hp
    exact (concat.mp (h.initial hp)).2
  · intro h
    induction es generalizing s with
    | nil => trivial
    | cons e es ih =>
        refine ⟨h [] e ⟨es, rfl⟩, ih fun pre f hp => ?_⟩
        obtain ⟨rest, rfl⟩ := hp
        exact h (e :: pre) f ⟨rest, by simp⟩

/-- The invariant rule: what holds at the start and survives every event that
meets the condition holds at the end of every run whose events all meet it. -/
theorem invariant (I : σ → Prop) (hstep : ∀ s e, I s → P s e → I (step s e))
    {es : List ε} (hs : I s) (hp : Along step P s es) : I (es.foldl step s) := by
  induction es generalizing s with
  | nil => exact hs
  | cons e es ih => exact ih (hstep s e hs hp.1) hp.2

/-- The simulation rule: a relation that every event meeting the condition keeps
between two machines holds between the ends of their runs. -/
theorem simulation {τ : Type*} {step' : τ → ε → τ} (R : σ → τ → Prop) {t : τ}
    (hstep : ∀ s t e, R s t → P s e → R (step s e) (step' t e)) {es : List ε} (hs : R s t)
    (hp : Along step P s es) : R (es.foldl step s) (es.foldl step' t) := by
  induction es generalizing s t with
  | nil => exact hs
  | cons e es ih => exact ih (hstep s t e hs hp.1) hp.2

end Along

end RichPresence.Lib
