import RichPresence.Lib.Script

namespace RichPresence.Lib.Script

variable {ω σ ν α β : Type} {ρ : ω → Type} (act : ν → (o : ω) → σ → ρ o × σ)

/-- A script that may be cut off before any of its calls. What becomes of a call is
given by a verdict; where the verdicts end, so does the run. -/
def attempt : Script ω ρ α → List ν → σ → Option α × σ
  | done a, _, s => (some a, s)
  | call _ _, [], s => (none, s)
  | call o k, v :: vs, s => attempt (k (act v o s).1) vs (act v o s).2

/-- Whatever the verdicts are, the invariant holds before and after each call, and the
answer and the last state meet the postcondition. -/
def Holds (I : σ → Prop) (Q : α → σ → Prop) : Script ω ρ α → σ → Prop
  | done a, s => I s ∧ Q a s
  | call o k, s => I s ∧ ∀ v, Holds I Q (k (act v o s).1) (act v o s).2

/-- An assertion that the calls of a kind keep, in all their outcomes. -/
def Kept (P : ω → Prop) (I : σ → Prop) : Prop := ∀ v o s, P o → I s → I (act v o s).2

namespace Holds

variable {act} {I : σ → Prop} {s : σ}

theorem attempt {Q : α → σ → Prop} {p : Script ω ρ α} (h : Holds act I Q p s) (vs : List ν) :
    I (p.attempt act vs s).2 ∧ ∀ a, (p.attempt act vs s).1 = some a → Q a (p.attempt act vs s).2 := by
  induction p generalizing s vs with
  | done a =>
      refine ⟨h.1, fun b hb => ?_⟩
      obtain rfl := Option.some.inj hb
      exact h.2
  | call o k ih =>
      cases vs with
      | nil => exact ⟨h.1, nofun⟩
      | cons v vs => exact ih (act v o s).1 (h.2 v) vs

theorem bind {R : α → σ → Prop} {Q : β → σ → Prop} {p : Script ω ρ α} {g : α → Script ω ρ β}
    (hp : Holds act I R p s) (hg : ∀ a s', I s' → R a s' → Holds act I Q (g a) s') : Holds act I Q (p >>= g) s := by
  induction p generalizing s with
  | done a => exact hg a s hp.1 hp.2
  | call o k ih => exact ⟨hp.1, fun v => ih (act v o s).1 (hp.2 v)⟩

theorem pure {Q : α → σ → Prop} {a : α} (hs : I s) (hq : Q a s) : Holds act I Q (pure a : Script ω ρ α) s := ⟨hs, hq⟩

theorem perform {o : ω} {Q : ρ o → σ → Prop} (hs : I s) (h : ∀ v, I (act v o s).2 ∧ Q (act v o s).1 (act v o s).2) :
    Holds act I Q (perform o : Script ω ρ (ρ o)) s :=
  ⟨hs, h⟩

theorem kept {P : ω → Prop} {J : σ → Prop} {o : ω} (hJ : ∀ s, I s → J s) (hkept : Kept act P I) (ho : P o)
    (hs : I s) : Holds act J (fun _ => I) (Script.perform o : Script ω ρ (ρ o)) s :=
  perform (hJ s hs) fun v => ⟨hJ _ (hkept v o s ho hs), hkept v o s ho hs⟩

theorem mono {Q R : α → σ → Prop} {p : Script ω ρ α} (h : Holds act I Q p s) (hqr : ∀ a s', I s' → Q a s' → R a s') :
    Holds act I R p s := by
  induction p generalizing s with
  | done a => exact ⟨h.1, hqr a s h.1 h.2⟩
  | call o k ih => exact ⟨h.1, fun v => ih (act v o s).1 (h.2 v)⟩

theorem always (p : Script ω ρ α) (s : σ) : Holds act (fun _ => True) (fun _ _ => True) p s := by
  induction p generalizing s with
  | done a => exact ⟨trivial, trivial⟩
  | call o k ih => exact ⟨trivial, fun v => ih (act v o s).1 (act v o s).2⟩

theorem of_run {act : (o : ω) → σ → ρ o × σ} {Q : α → σ → Prop} {p : Script ω ρ α}
    (h : Q (p.run act s).1 (p.run act s).2) : Holds (fun _ : Unit => act) (fun _ => True) Q p s := by
  induction p generalizing s with
  | done a => exact ⟨trivial, h⟩
  | call o k ih => exact ⟨trivial, fun _ => ih _ h⟩

theorem run {act : (o : ω) → σ → ρ o × σ} {Q : α → σ → Prop} {p : Script ω ρ α}
    (h : Holds (fun _ : Unit => act) I Q p s) : Q (p.run act s).1 (p.run act s).2 := by
  induction p generalizing s with
  | done a => exact h.2
  | call o k ih => exact ih _ (h.2 ())

end Holds

theorem exists_attempt_eq_run (verdict : ω → ν) (p : Script ω ρ α) (s : σ) :
    ∃ vs, p.attempt act vs s = ((p.run (fun o => act (verdict o) o) s).map some id) := by
  induction p generalizing s with
  | done a => exact ⟨[], rfl⟩
  | call o k ih =>
      obtain ⟨vs, hvs⟩ := ih (act (verdict o) o s).1 (act (verdict o) o s).2
      exact ⟨verdict o :: vs, hvs⟩

end RichPresence.Lib.Script
