import Mathlib.Logic.Relation

namespace RichPresence.Lib

variable {σ ρ : Type*}

/-- A loop whose body goes on from a next state or ends with a result. The size
of the state shrinks with every turn that goes on. -/
structure Loop (σ ρ : Type*) where
  body : σ → σ ⊕ ρ
  size : σ → Nat
  shrinks : ∀ {s t}, body s = .inl t → size t < size s

namespace Loop

variable (L : Loop σ ρ)

def run (s : σ) : ρ :=
  match _h : L.body s with
  | .inl t => run t
  | .inr r => r
termination_by L.size s
decreasing_by exact L.shrinks _h

/-- The states the turns of a run start from, in order. -/
def heads (s : σ) : List σ :=
  match _h : L.body s with
  | .inl t => s :: heads t
  | .inr _ => [s]
termination_by L.size s
decreasing_by exact L.shrinks _h

def last (s : σ) : σ :=
  match _h : L.body s with
  | .inl t => last t
  | .inr _ => s
termination_by L.size s
decreasing_by exact L.shrinks _h

def Reaches : σ → σ → Prop := Relation.ReflTransGen fun s t => L.body s = .inl t

variable {L} {s t : σ} {r : ρ}

theorem run_next (h : L.body s = .inl t) : L.run s = L.run t := by
  rw [run]
  split
  next t' ht =>
      rw [h] at ht
      rw [Sum.inl.inj ht]
  next hr =>
      rw [h] at hr
      cases hr

theorem run_last (h : L.body s = .inr r) : L.run s = r := by
  rw [run]
  split
  next ht =>
      rw [h] at ht
      cases ht
  next r' hr =>
      rw [h] at hr
      exact (Sum.inr.inj hr).symm

theorem heads_next (h : L.body s = .inl t) : L.heads s = s :: L.heads t := by
  rw [heads]
  split
  next t' ht =>
      rw [h] at ht
      rw [Sum.inl.inj ht]
  next hr =>
      rw [h] at hr
      cases hr

theorem heads_last (h : L.body s = .inr r) : L.heads s = [s] := by
  rw [heads]
  split
  next ht =>
      rw [h] at ht
      cases ht
  next => rfl

theorem last_next (h : L.body s = .inl t) : L.last s = L.last t := by
  rw [last]
  split
  next t' ht =>
      rw [h] at ht
      rw [Sum.inl.inj ht]
  next hr =>
      rw [h] at hr
      cases hr

theorem last_last (h : L.body s = .inr r) : L.last s = s := by
  rw [last]
  split
  next ht =>
      rw [h] at ht
      cases ht
  next => rfl

theorem Reaches.run_eq (h : L.Reaches s t) : L.run s = L.run t := by
  induction h with
  | refl => rfl
  | tail _ hb ih => rw [ih, run_next hb]

theorem ends (L : Loop σ ρ) (s : σ) : L.Reaches s (L.last s) ∧ L.body (L.last s) = .inr (L.run s) := by
  induction hn : L.size s using Nat.strongRecOn generalizing s with
  | ind n ih =>
      cases hb : L.body s with
      | inl t =>
          obtain ⟨hu, hr⟩ := ih (L.size t) (hn ▸ L.shrinks hb) t rfl
          rw [last_next hb, run_next hb]
          exact ⟨.head hb hu, hr⟩
      | inr r =>
          rw [last_last hb, run_last hb]
          exact ⟨.refl, hb⟩

/-- The invariant rule: what every turn that goes on keeps holds at every head
of the loop. -/
theorem Reaches.invariant (I : σ → Prop) (hstep : ∀ s t, I s → L.body s = .inl t → I t) (hs : I s)
    (h : L.Reaches s t) : I t := by
  induction h with
  | refl => exact hs
  | tail _ hb ih => exact hstep _ _ ih hb

end Loop

end RichPresence.Lib
