import Mathlib.Data.List.Destutter
import Mathlib.Data.List.Sort

namespace RichPresence.Lib

variable {α β : Type} [LinearOrder β]

/-- Stably sorted by a key; of neighbours that are not told apart the first one stays. -/
def sortUniq (key : α → β) (R : α → α → Prop) [DecidableRel R] (l : List α) : List α :=
  (l.insertionSort fun a b => key a ≤ key b).destutter R

variable {key : α → β} {R : α → α → Prop} [DecidableRel R] {l l' : List α} {a : α}

theorem mem_of_mem_sortUniq (h : a ∈ sortUniq key R l) : a ∈ l :=
  (List.mem_insertionSort _).mp ((List.destutter_sublist R _).subset h)

section Told

variable (hR : ∀ a b, R a b ↔ key a ≠ key b)
include hR

omit [DecidableRel R] in
theorem pairwise_lt_of_isChain (hle : l.Pairwise fun a b => key a ≤ key b) (hchain : l.IsChain R) :
    l.Pairwise fun a b => key a < key b := by
  induction l with
  | nil => exact .nil
  | cons a l ih =>
      obtain ⟨hhead, htail⟩ := List.pairwise_cons.mp hle
      refine List.pairwise_cons.mpr ⟨fun b hb => ?_, ih htail hchain.tail⟩
      cases l with
      | nil => cases hb
      | cons c l =>
          have hac : key a < key c :=
            lt_of_le_of_ne (hhead c List.mem_cons_self) ((hR a c).mp (List.isChain_cons_cons.mp hchain).1)
          rcases List.mem_cons.mp hb with rfl | hb
          · exact hac
          · exact lt_of_lt_of_le hac ((List.pairwise_cons.mp htail).1 b hb)

theorem pairwise_sortUniq (l : List α) : (sortUniq key R l).Pairwise fun a b => key a < key b := by
  have : Std.Total fun a b => key a ≤ key b := ⟨fun a b => le_total (key a) (key b)⟩
  have : IsTrans α fun a b => key a ≤ key b := ⟨fun _ _ _ => le_trans⟩
  have hsorted := List.pairwise_insertionSort (fun a b => key a ≤ key b) l
  exact pairwise_lt_of_isChain hR (hsorted.sublist (List.destutter_sublist R _)) (List.isChain_destutter R _)

theorem nodup_sortUniq (l : List α) : (sortUniq key R l).Nodup := by
  refine (pairwise_sortUniq hR l).imp fun {a b} hlt heq => ?_
  exact lt_irrefl (key a) (heq ▸ hlt)

omit [LinearOrder β] in
theorem exists_mem_destutter' (b : α) (h : a ∈ b :: l) : ∃ c ∈ l.destutter' R b, key c = key a := by
  induction l generalizing a b with
  | nil => exact ⟨b, by simp, by rw [List.mem_singleton.mp h]⟩
  | cons d l ih =>
      rw [List.destutter']
      split
      next =>
          rcases List.mem_cons.mp h with rfl | hmem
          · exact ⟨a, List.mem_cons_self, rfl⟩
          · obtain ⟨c, hc, hkey⟩ := ih d hmem
            exact ⟨c, List.mem_cons_of_mem b hc, hkey⟩
      next hbd =>
          have hsame : key b = key d := not_not.mp ((hR b d).not.mp hbd)
          rcases List.mem_cons.mp h with rfl | hmem
          · exact ih a List.mem_cons_self
          rcases List.mem_cons.mp hmem with rfl | hmem
          · obtain ⟨c, hc, hkey⟩ := ih b List.mem_cons_self
            exact ⟨c, hc, hkey.trans hsame⟩
          · exact ih b (List.mem_cons_of_mem b hmem)

theorem exists_mem_sortUniq (h : a ∈ l) : ∃ c ∈ sortUniq key R l, key c = key a := by
  have hmem : a ∈ l.insertionSort fun a b => key a ≤ key b := (List.mem_insertionSort _).mpr h
  rw [sortUniq]
  cases hs : l.insertionSort fun a b => key a ≤ key b with
  | nil =>
      rw [hs] at hmem
      cases hmem
  | cons b sorted =>
      rw [hs] at hmem
      exact exists_mem_destutter' hR b hmem

theorem sortUniq_congr (hperm : l.Perm l')
    (honce : ∀ a ∈ sortUniq key R l, ∀ b ∈ sortUniq key R l', key a = key b → a = b) :
    sortUniq key R l = sortUniq key R l' := by
  have hmem (a : α) : a ∈ sortUniq key R l ↔ a ∈ sortUniq key R l' := by
    constructor
    · intro ha
      obtain ⟨b, hb, hkey⟩ := exists_mem_sortUniq hR (hperm.mem_iff.mp (mem_of_mem_sortUniq ha))
      exact honce a ha b hb hkey.symm ▸ hb
    · intro ha
      obtain ⟨b, hb, hkey⟩ := exists_mem_sortUniq hR (hperm.mem_iff.mpr (mem_of_mem_sortUniq ha))
      exact honce b hb a ha hkey ▸ hb
  have hsame := (List.perm_ext_iff_of_nodup (nodup_sortUniq hR l) (nodup_sortUniq hR l')).mpr hmem
  refine hsame.eq_of_pairwise (fun a b _ _ hab hba => ?_) (pairwise_sortUniq hR l) (pairwise_sortUniq hR l')
  exact absurd hab (lt_asymm hba)

end Told

end RichPresence.Lib
