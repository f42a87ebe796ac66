import Mathlib.Data.Set.BooleanAlgebra
import Mathlib.Order.CompletePartialOrder
import RichPresence.Lib.Section

namespace RichPresence.Lib

variable {σ ι γ α β δ : Type} {V : ι → Type}

def Agree (P : Set ι) (w w' : (i : ι) → V i) : Prop := ∀ i ∈ P, w i = w' i

theorem Agree.refl (P : Set ι) (w : (i : ι) → V i) : Agree P w w := fun _ _ => rfl

theorem Agree.symm {P : Set ι} {w w' : (i : ι) → V i} (h : Agree P w w') : Agree P w' w :=
  fun i hi => (h i hi).symm

theorem Agree.trans {P : Set ι} {w w' w'' : (i : ι) → V i} (h : Agree P w w') (h' : Agree P w' w'') :
    Agree P w w'' :=
  fun i hi => (h i hi).trans (h' i hi)

theorem Agree.mono {P P' : Set ι} {w w' : (i : ι) → V i} (h : Agree P w w') (hP : P' ⊆ P) : Agree P' w w' :=
  fun i hi => h i (hP hi)

theorem Agree.update [DecidableEq ι] {P : Set ι} {w w' : (i : ι) → V i} (h : Agree P w w') (i : ι) (v : V i) :
    Agree P (Function.update w i v) (Function.update w' i v) := by
  intro j hj
  by_cases hji : j = i
  · subst hji
    rw [Function.update_self, Function.update_self]
  · rw [Function.update_of_ne hji, Function.update_of_ne hji]
    exact h j hj

/-- A state seen as places with contents and one pivot all parties share, the
facts every section keeps, and the places that are watched. -/
structure Layout (σ ι γ : Type) (V : ι → Type) where
  look : σ → (i : ι) → V i
  pivot : σ → γ
  holds : σ → Prop
  watched : Set ι

namespace Layout

open Prog

variable (L : Layout σ ι γ V) (P : Set ι)

structure Keeps (s s' : σ) : Prop where
  holds : L.holds s'
  frame : ∀ i ∈ L.watched, i ∉ P → L.look s' i = L.look s i

/-- Whatever happens outside `P`, the program works on `P` alone, leaves the
pivot as it is and ends with `Q`. -/
def Settles (Q : α → ((i : ι) → V i) → Prop) : Prog σ α → ((i : ι) → V i) → Prop
  | .ret a, w => ∃ w', Agree P w w' ∧ Q a w'
  | .atomic f k, w => ∀ s, L.holds s → Agree P (L.look s) w →
      L.Keeps P s (f s) ∧ L.pivot (f s) = L.pivot s ∧ Settles Q (k s) (L.look (f s))

/-- The program works on `P` alone but for one section, where it meets the pivot
and moves it. What the pivot was there decides what the program takes besides,
as it was in `w₀`, and how all of it ends. -/
def Commits (w₀ : (i : ι) → V i) (R : γ → Set ι) (move : γ → γ) (final : γ → (i : ι) → V i) :
    Prog σ α → ((i : ι) → V i) → Prop
  | .ret _, w => ∀ c, move c = c ∧ R c = ∅ ∧ Agree P w (final c)
  | .atomic f k, w => ∀ s, L.holds s → Agree P (L.look s) w →
      (L.Keeps P s (f s) ∧ L.pivot (f s) = L.pivot s ∧ Commits w₀ R move final (k s) (L.look (f s))) ∨
        (Agree (R (L.pivot s)) (L.look s) w₀ →
          L.Keeps (P ∪ R (L.pivot s)) s (f s) ∧ L.pivot (f s) = move (L.pivot s) ∧
            L.Settles (P ∪ R (L.pivot s)) (fun _ w' => Agree (P ∪ R (L.pivot s)) w' (final (L.pivot s)))
              (k s) (L.look (f s)))

/-- Nothing but the start decides how the program leaves `P`. -/
def Fixes (p : Prog σ α) (w : (i : ι) → V i) : Prop := ∃ v, L.Settles P (fun _ w' => Agree P w' v) p w

variable {L P} {P' : Set ι} {Q : α → ((i : ι) → V i) → Prop} {Q' : β → ((i : ι) → V i) → Prop}
  {w w' w₀ : (i : ι) → V i} {p : Prog σ α} {R : γ → Set ι} {move : γ → γ} {final : γ → (i : ι) → V i} {s t : σ}

theorem Keeps.rfl (h : L.holds s) : L.Keeps P s s := ⟨h, fun _ _ _ => Eq.refl _⟩

theorem Keeps.agree (h : L.Keeps P s t) (hP : P' ⊆ L.watched) (hd : Disjoint P P') :
    Agree P' (L.look s) (L.look t) :=
  fun i hi => (h.frame i (hP hi) (Set.disjoint_right.mp hd hi)).symm

theorem Settles.congr (h : L.Settles P Q p w) (hw : Agree P w w') : L.Settles P Q p w' := by
  cases p with
  | ret a =>
      obtain ⟨v, hv, hq⟩ := h
      exact ⟨v, hw.symm.trans hv, hq⟩
  | atomic f k => exact fun s hs ha => h s hs (ha.trans hw.symm)

theorem Commits.congr (h : L.Commits P w₀ R move final p w) (hw : Agree P w w') :
    L.Commits P w₀ R move final p w' := by
  cases p with
  | ret a => exact fun c => ⟨(h c).1, (h c).2.1, hw.symm.trans (h c).2.2⟩
  | atomic f k => exact fun s hs ha => h s hs (ha.trans hw.symm)

theorem settles_pure {a : α} (h : Q a w) : L.Settles P Q (pure a) w := ⟨w, .refl P w, h⟩

theorem settles_locked {f : σ → α × σ} (h : ∀ s, L.holds s → Agree P (L.look s) w →
      L.Keeps P s (f s).2 ∧ L.pivot (f s).2 = L.pivot s ∧ ∃ w', Agree P (L.look (f s).2) w' ∧ Q (f s).1 w') :
    L.Settles P Q (Prog.locked f) w := h

theorem settles_reads {f : σ → α} (h : ∀ s, L.holds s → Agree P (L.look s) w → Q (f s) w) :
    L.Settles P Q (Prog.reads f) w :=
  fun s hs ha => ⟨.rfl hs, rfl, w, ha, h s hs ha⟩

theorem Settles.bind {g : α → Prog σ β} (hp : L.Settles P Q p w)
    (hg : ∀ a w', Q a w' → L.Settles P Q' (g a) w') : L.Settles P Q' (p >>= g) w := by
  induction p generalizing w with
  | ret a =>
      obtain ⟨w', ha, hq⟩ := hp
      exact (hg a w' hq).congr ha.symm
  | atomic f k ih =>
      intro s hs ha
      obtain ⟨hk, hpivot, hp⟩ := hp s hs ha
      exact ⟨hk, hpivot, ih s hp⟩

theorem Settles.imp {Q' : α → ((i : ι) → V i) → Prop} (hp : L.Settles P Q p w)
    (h : ∀ a w', Q a w' → Q' a w') : L.Settles P Q' p w := by
  induction p generalizing w with
  | ret a =>
      obtain ⟨w', ha, hq⟩ := hp
      exact ⟨w', ha, h a w' hq⟩
  | atomic f k ih =>
      intro s hs ha
      obtain ⟨hk, hpivot, hp⟩ := hp s hs ha
      exact ⟨hk, hpivot, ih s hp⟩

theorem Settles.forM {body : δ → Prog σ PUnit} {l : List δ} {write : δ → ((i : ι) → V i) → (i : ι) → V i}
    (h : ∀ x ∈ l, ∀ w, L.Settles P (fun _ w' => w' = write x w) (body x) w) :
    L.Settles P (fun _ w' => w' = l.foldl (fun w x => write x w) w) (forM l body) w := by
  induction l generalizing w with
  | nil => exact settles_pure rfl
  | cons x l ih =>
      rw [List.forM_cons]
      refine (h x (by simp) w).bind fun _ w' hw => ?_
      rw [List.foldl_cons, ← hw]
      exact ih fun y hy => h y (by simp [hy])

theorem Settles.fixes {v : (i : ι) → V i} (h : L.Settles P (fun _ w' => w' = v) p w) : L.Fixes P p w :=
  ⟨v, h.imp fun _ _ hw => hw ▸ .refl P _⟩

theorem Settles.fixes_bind {g : α → Prog σ β} {x : α} {v : (i : ι) → V i}
    (hp : L.Settles P (fun a w' => a = x ∧ w' = v) p w) (hg : L.Fixes P (g x) v) : L.Fixes P (p >>= g) w := by
  obtain ⟨u, hu⟩ := hg
  refine ⟨u, hp.bind ?_⟩
  rintro _ _ ⟨rfl, rfl⟩
  exact hu

theorem Settles.fixes_seq {p : Prog σ Unit} {g : Unit → Prog σ β} {v : (i : ι) → V i}
    (hp : L.Settles P (fun _ w' => w' = v) p w) (hg : L.Fixes P (g ()) v) : L.Fixes P (p >>= g) w :=
  (hp.imp fun _ _ hw => ⟨rfl, hw⟩).fixes_bind hg

theorem fixes_pure (a : α) : L.Fixes P (pure a : Prog σ α) w :=
  ⟨w, settles_pure (.refl P w)⟩

theorem Settles.commits {v : (i : ι) → V i} (h : L.Settles P (fun _ w' => Agree P w' v) p w)
    (hR : ∀ c, R c = ∅) : L.Commits P w₀ R id (fun _ => v) p w := by
  induction p generalizing w with
  | ret a =>
      obtain ⟨w', ha, hv⟩ := h
      exact fun c => ⟨rfl, hR c, ha.trans hv⟩
  | atomic f k ih =>
      intro s hs ha
      obtain ⟨hk, hpivot, h⟩ := h s hs ha
      exact .inl ⟨hk, hpivot, ih s h⟩

theorem Settles.commits_bind {g : α → Prog σ β} (hp : L.Settles P Q p w)
    (hg : ∀ a w', Q a w' → L.Commits P w₀ R move final (g a) w') : L.Commits P w₀ R move final (p >>= g) w := by
  induction p generalizing w with
  | ret a =>
      obtain ⟨w', ha, hq⟩ := hp
      exact (hg a w' hq).congr ha.symm
  | atomic f k ih =>
      intro s hs ha
      obtain ⟨hk, hpivot, hp⟩ := hp s hs ha
      exact .inl ⟨hk, hpivot, ih s hp⟩

/-- Run to its end at once, a program that settles is one section that does. -/
theorem Settles.exec (h : L.Settles P Q p w) (hs : L.holds s) (ha : Agree P (L.look s) w) :
    L.Keeps P s (p.exec s) ∧ L.pivot (p.exec s) = L.pivot s ∧
      ∃ w', Agree P (L.look (p.exec s)) w' ∧ Q (p.run s).1 w' := by
  induction p generalizing w s with
  | ret a =>
      obtain ⟨w', hw, hq⟩ := h
      exact ⟨.rfl hs, rfl, w', ha.trans hw, hq⟩
  | atomic f k ih =>
      obtain ⟨hk, hpivot, h⟩ := h s hs ha
      obtain ⟨hk', hpivot', hend⟩ := ih s h hk.holds (.refl _ _)
      exact ⟨⟨hk'.holds, fun i hi hn => (hk'.frame i hi hn).trans (hk.frame i hi hn)⟩, hpivot'.trans hpivot, hend⟩

theorem commits_locked {f : σ → α × σ} {g : α → Prog σ β}
    (h : ∀ s, L.holds s → Agree P (L.look s) w → Agree (R (L.pivot s)) (L.look s) w₀ →
      L.Keeps (P ∪ R (L.pivot s)) s (f s).2 ∧ L.pivot (f s).2 = move (L.pivot s) ∧
        L.Settles (P ∪ R (L.pivot s)) (fun _ w' => Agree (P ∪ R (L.pivot s)) w' (final (L.pivot s)))
          (g (f s).1) (L.look (f s).2)) :
    L.Commits P w₀ R move final (Prog.locked f >>= g) w :=
  fun s hs ha => .inr (h s hs ha)

end Layout

end RichPresence.Lib
