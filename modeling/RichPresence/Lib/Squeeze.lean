import Mathlib.Data.List.Chain
import Mathlib.Data.List.Infix

namespace RichPresence.Lib

variable {α β : Type}

def Single (sep : α) (l : List α) : Prop := l.IsChain fun c d => ¬(c = sep ∧ d = sep)

instance [DecidableEq α] (sep : α) (l : List α) : Decidable (Single sep l) :=
  inferInstanceAs (Decidable (l.IsChain fun c d => ¬(c = sep ∧ d = sep)))

def squeeze [DecidableEq α] (sep : α) : List α → List α
  | [] => []
  | c :: l => if c = sep ∧ l.head? = some sep then squeeze sep l else c :: squeeze sep l

section Single

variable {sep : α} {l a b : List α}

theorem Single.of_prefix (h : a <+: b) (hb : Single sep b) : Single sep a := List.IsChain.prefix hb h

theorem single_cons {c : α} : Single sep (c :: l) ↔ (c = sep → l.head? ≠ some sep) ∧ Single sep l := by
  rw [Single, List.isChain_cons, Single]
  refine and_congr_left fun _ => ?_
  cases l with
  | nil => simp
  | cons d l => simp

theorem single_of_not_mem (h : sep ∉ l) : Single sep l := by
  induction l with
  | nil => exact List.isChain_nil
  | cons c l ih =>
      obtain ⟨hc, hl⟩ := not_or.mp (List.mem_cons.not.mp h)
      exact single_cons.mpr ⟨fun heq => absurd heq.symm hc, ih hl⟩

theorem single_append_of_head (hb : b.head? ≠ some sep) : Single sep (a ++ b) ↔ Single sep a ∧ Single sep b := by
  rw [Single, List.isChain_append, Single, Single]
  refine and_congr_right fun _ => and_iff_left ?_
  rintro x - y hy ⟨-, rfl⟩
  exact hb hy

theorem single_concat (ha : sep ∉ a) : Single sep (a ++ [sep]) := by
  rw [Single, List.isChain_append]
  refine ⟨single_of_not_mem ha, List.isChain_singleton _, ?_⟩
  rintro x hx y - ⟨rfl, -⟩
  exact ha (List.mem_of_getLast? hx)

theorem eq_of_concat_prefix {c : List α} (ha : sep ∉ a) (hb : sep ∉ b) (hac : a ++ [sep] <+: c)
    (hbc : b ++ [sep] <+: c) : a = b := by
  induction a generalizing b c with
  | nil =>
      cases b with
      | nil => rfl
      | cons y b =>
          obtain ⟨_, rfl⟩ := hac
          obtain ⟨rfl, -⟩ := List.cons_prefix_cons.mp hbc
          exact absurd List.mem_cons_self hb
  | cons x a ih =>
      obtain ⟨hx, ha'⟩ := not_or.mp (List.mem_cons.not.mp ha)
      cases b with
      | nil =>
          obtain ⟨_, rfl⟩ := hbc
          obtain ⟨rfl, -⟩ := List.cons_prefix_cons.mp hac
          exact absurd rfl hx
      | cons y b =>
          obtain ⟨-, hb'⟩ := not_or.mp (List.mem_cons.not.mp hb)
          cases c with
          | nil => exact absurd (List.prefix_nil.mp hac) nofun
          | cons z c =>
              obtain ⟨rfl, hac'⟩ := List.cons_prefix_cons.mp hac
              obtain ⟨rfl, hbc'⟩ := List.cons_prefix_cons.mp hbc
              rw [ih ha' hb' hac' hbc']

end Single

section Squeeze

variable [DecidableEq α] {sep : α} {a : List α}

theorem head_squeeze (l : List α) : (squeeze sep l).head? = l.head? := by
  induction l with
  | nil => rfl
  | cons c l ih =>
      rw [squeeze]
      split
      next h =>
          rw [ih, h.2, h.1]
          rfl
      next => rfl

theorem single_squeeze (l : List α) : Single sep (squeeze sep l) := by
  induction l with
  | nil => exact List.isChain_nil
  | cons c l ih =>
      rw [squeeze]
      split
      next => exact ih
      next h =>
          refine single_cons.mpr ⟨fun hc hhead => h ⟨hc, ?_⟩, ih⟩
          rwa [head_squeeze] at hhead

theorem prefix_squeeze (h : Single sep a) (b : List α) : a <+: squeeze sep (a ++ b) := by
  induction a with
  | nil => exact List.nil_prefix
  | cons c a ih =>
      obtain ⟨hc, ha⟩ := single_cons.mp h
      rw [List.cons_append, squeeze]
      split
      next hsep =>
          cases a with
          | nil =>
              -- only the last separator can meet another one
              cases b with
              | nil => exact absurd hsep.2 nofun
              | cons d b =>
                  obtain ⟨rfl, hd⟩ := hsep
                  obtain rfl := Option.some.inj hd
                  have hhead : (squeeze d (d :: b)).head? = some d := head_squeeze _
                  obtain ⟨rest, hrest⟩ := List.head?_eq_some_iff.mp hhead
                  rw [List.nil_append, hrest]
                  exact ⟨rest, rfl⟩
          | cons d a => exact absurd hsep.2 (hc hsep.1)
      next => exact List.cons_prefix_cons.mpr ⟨rfl, ih ha⟩

end Squeeze

section Rewriting

variable {sep : α} {sep' : β} {f : α → List β}

/-- Rewriting character by character keeps the separators where they are. -/
structure KeepsSep (sep : α) (sep' : β) (f : α → List β) : Prop where
  sep_eq : f sep = [sep']
  not_mem : ∀ c, c ≠ sep → sep' ∉ f c
  ne_nil : ∀ c, f c ≠ []

theorem KeepsSep.head_iff (h : KeepsSep sep sep' f) (l : List α) :
    (l.flatMap f).head? = some sep' ↔ l.head? = some sep := by
  cases l with
  | nil => simp
  | cons c l =>
      rw [List.flatMap_cons, List.head?_append_of_ne_nil _ (h.ne_nil c), List.head?_cons]
      by_cases hc : c = sep
      · rw [hc, h.sep_eq]
        simp
      · have hne : (f c).head? ≠ some sep' := fun hhead => h.not_mem c hc (List.mem_of_head? hhead)
        simp [hc, hne]

theorem KeepsSep.last_iff (h : KeepsSep sep sep' f) (l : List α) :
    (l.flatMap f).getLast? = some sep' ↔ l.getLast? = some sep := by
  rcases List.eq_nil_or_concat l with rfl | ⟨l, c, rfl⟩
  · simp
  · rw [List.concat_eq_append, List.flatMap_append, List.flatMap_singleton, List.getLast?_append,
      List.getLast?_concat]
    by_cases hc : c = sep
    · rw [hc, h.sep_eq]
      simp
    · obtain ⟨d, hd⟩ := Option.ne_none_iff_exists'.mp (List.getLast?_eq_none_iff.not.mpr (h.ne_nil c))
      have hne : d ≠ sep' := fun heq => h.not_mem c hc (heq ▸ List.mem_of_getLast? hd)
      simp [hd, hc, hne]

theorem KeepsSep.single_iff (h : KeepsSep sep sep' f) (l : List α) :
    Single sep' (l.flatMap f) ↔ Single sep l := by
  induction l with
  | nil => exact ⟨fun _ => List.isChain_nil, fun _ => List.isChain_nil⟩
  | cons c l ih =>
      rw [List.flatMap_cons, single_cons]
      by_cases hc : c = sep
      · subst hc
        rw [h.sep_eq, List.singleton_append, single_cons, ih, ne_eq, ne_eq, h.head_iff]
        simp
      · rw [Single, List.isChain_append]
        have hlast : ∀ x ∈ (f c).getLast?, ∀ y ∈ (l.flatMap f).head?, ¬(x = sep' ∧ y = sep') := by
          rintro x hx y - ⟨rfl, -⟩
          exact h.not_mem c hc (List.mem_of_getLast? hx)
        have hown : (f c).IsChain fun x y => ¬(x = sep' ∧ y = sep') := single_of_not_mem (h.not_mem c hc)
        exact ⟨fun hchain => ⟨fun heq => absurd heq hc, ih.mp hchain.2.1⟩,
          fun hsingle => ⟨hown, ih.mpr hsingle.2, hlast⟩⟩

end Rewriting

end RichPresence.Lib
