import RichPresence.Lib.Script

namespace RichPresence.Lib.Script

variable {ω σ ε α β : Type} {ρ : ω → Type}

section Amid

variable (act : (o : ω) → σ → ρ o × σ) (world : σ → ε → σ)

/-- A script runs to its end while the tasks around it step in at any moment. -/
inductive Amid : Script ω ρ α → σ → α → σ → Prop
  | done (a : α) (s : σ) : Amid (.done a) s a s
  | call {o : ω} {k : ρ o → Script ω ρ α} {s s' : σ} {a : α} :
      Amid (k (act o s).1) (act o s).2 a s' → Amid (.call o k) s a s'
  | other {p : Script ω ρ α} {s s' : σ} {a : α} (e : ε) : Amid p (world s e) a s' → Amid p s a s'

/-- An assertion the tasks around a script do not disturb. -/
def Stable (I : σ → Prop) : Prop := ∀ s e, I s → I (world s e)

/-- From every state that meets the assertion the script can only end in an answer
and a state that meet the other. -/
def Ensures (I : σ → Prop) (p : Script ω ρ α) (Q : α → σ → Prop) : Prop :=
  ∀ s a s', I s → Amid act world p s a s' → Q a s'

end Amid

variable {act : (o : ω) → σ → ρ o × σ} {world : σ → ε → σ} {I : σ → Prop}

theorem Amid.bind {p : Script ω ρ α} {g : α → Script ω ρ β} {s s'' : σ} {b : β}
    (h : Amid act world (p >>= g) s b s'') :
    ∃ a s', Amid act world p s a s' ∧ Amid act world (g a) s' b s'' := by
  generalize hq : p >>= g = q at h
  induction h generalizing p with
  | done b s =>
      cases p with
      | done a =>
          have hg : g a = .done b := hq
          exact ⟨a, s, .done a s, hg ▸ .done b s⟩
      | call o k => cases hq
  | @call o k s s' b h ih =>
      cases p with
      | done a =>
          have hg : g a = .call o k := hq
          exact ⟨a, s, .done a s, hg ▸ .call h⟩
      | call o' k' =>
          obtain ⟨rfl, hk⟩ := Script.call.inj hq
          obtain ⟨a, s₁, hp, hg⟩ := ih (congrFun (eq_of_heq hk) _)
          exact ⟨a, s₁, .call hp, hg⟩
  | other e h ih =>
      obtain ⟨a, s₁, hp, hg⟩ := ih hq
      exact ⟨a, s₁, .other e hp, hg⟩

theorem amid_run (act : (o : ω) → σ → ρ o × σ) (world : σ → ε → σ) (p : Script ω ρ α) (s : σ) :
    Amid act world p s (p.run act s).1 (p.run act s).2 := by
  induction p generalizing s with
  | done a => exact .done a s
  | call o k ih => exact .call (ih _ _)

namespace Ensures

theorem done {Q : α → σ → Prop} (hI : Stable world I) {a : α} (h : ∀ s, I s → Q a s) :
    Ensures act world I (.done a) Q := by
  intro s b s' hs hrun
  generalize hq : Script.done a = q at hrun
  induction hrun with
  | done b s =>
      obtain rfl := Script.done.inj hq
      exact h s hs
  | call => cases hq
  | other e h ih => exact ih (hI _ e hs) hq

theorem call {o : ω} {k : ρ o → Script ω ρ α} {R : ρ o → σ → Prop} {Q : α → σ → Prop} (hI : Stable world I)
    (ho : ∀ s, I s → R (act o s).1 (act o s).2) (hk : ∀ r, Ensures act world (R r) (k r) Q) :
    Ensures act world I (.call o k) Q := by
  intro s b s' hs hrun
  generalize hq : Script.call o k = q at hrun
  induction hrun with
  | done => cases hq
  | @call o' k' s s' b h ih =>
      obtain ⟨rfl, hk'⟩ := Script.call.inj hq
      obtain rfl := eq_of_heq hk'
      exact hk _ _ _ _ (ho s hs) h
  | other e h ih => exact ih (hI _ e hs) hq

theorem bind {p : Script ω ρ α} {g : α → Script ω ρ β} {R : α → σ → Prop} {Q : β → σ → Prop}
    (hp : Ensures act world I p R) (hg : ∀ a, Ensures act world (R a) (g a) Q) :
    Ensures act world I (p >>= g) Q := by
  intro s b s'' hs hrun
  obtain ⟨a, s', hp', hg'⟩ := hrun.bind
  exact hg a s' b s'' (hp s a s' hs hp') hg'

theorem imp {p : Script ω ρ α} {Q R : α → σ → Prop} (h : Ensures act world I p Q) (hQ : ∀ a s, Q a s → R a s) :
    Ensures act world I p R := fun s a s' hs hrun => hQ a s' (h s a s' hs hrun)

theorem pre {p : Script ω ρ α} {Q : α → σ → Prop} {φ : Prop} (h : φ → Ensures act world I p Q) :
    Ensures act world (fun s => φ ∧ I s) p Q := fun s a s' hs hrun => h hs.1 s a s' hs.2 hrun

end Ensures

def Makes (P : ω → Prop) : Script ω ρ α → Prop
  | done _ => True
  | call o k => P o ∧ ∀ r, Makes P (k r)

section Makes

variable {P : ω → Prop}

theorem makes_call {o : ω} (h : P o) : Makes P (call o done : Script ω ρ (ρ o)) := ⟨h, fun _ => trivial⟩

theorem Makes.bind {p : Script ω ρ α} {g : α → Script ω ρ β} (hp : Makes P p) (hg : ∀ a, Makes P (g a)) :
    Makes P (p >>= g) := by
  induction p with
  | done a => exact hg a
  | call o k ih => exact ⟨hp.1, fun r => ih r (hp.2 r)⟩

theorem Makes.forM {γ : Type} {body : γ → Script ω ρ PUnit} (h : ∀ x, Makes P (body x)) (l : List γ) :
    Makes P (forM l body) := by
  induction l with
  | nil => exact trivial
  | cons x l ih =>
      rw [List.forM_cons]
      exact (h x).bind fun _ => ih

theorem Makes.ensures {p : Script ω ρ α} (hp : Makes P p) (hI : Stable world I)
    (hact : ∀ o s, P o → I s → I (act o s).2) : Ensures act world I p fun _ => I := by
  induction p with
  | done a => exact .done hI fun _ hs => hs
  | call o k ih => exact .call (R := fun _ => I) hI (fun s hs => hact o s hp.1 hs) fun r => ih r (hp.2 r)

end Makes

end RichPresence.Lib.Script
