import RichPresence.Lib.Layout

namespace RichPresence.Lib.Layout

open Prog

variable {σ ι γ α β : Type} {V : ι → Type} (L : Layout σ ι γ V)

/-- How far `t` is determined by `s`: the pivot, and the contents of `P` and `P'`;
nothing else that is watched has changed. -/
structure Reached (P P' : Set ι) (s t : σ) (c : γ) (w w' : (i : ι) → V i) : Prop where
  holds : L.holds t
  pivot : L.pivot t = c
  left : Agree P (L.look t) w
  right : Agree P' (L.look t) w'
  rest : ∀ i ∈ L.watched, i ∉ P → i ∉ P' → L.look t i = L.look s i

def Same (s t : σ) : Prop := L.pivot s = L.pivot t ∧ Agree L.watched (L.look s) (L.look t)

/-- Two programs that keep out of each other's places. What either takes when it
commits is nobody's before, and once one has committed the other takes no more
than it would have and nothing the first one took. -/
structure Apart (P P' : Set ι) (R R' : γ → Set ι) (move move' : γ → γ) (c : γ) : Prop where
  left : P ∪ R c ⊆ L.watched
  right : P' ∪ R' c ⊆ L.watched
  own : Disjoint P P'
  left_taken : Disjoint P (R c ∪ R' c)
  right_taken : Disjoint P' (R c ∪ R' c)
  left_less : R (move' c) ⊆ R c
  right_less : R' (move c) ⊆ R' c
  left_first : Disjoint (R c) (R' (move c))
  right_first : Disjoint (R (move' c)) (R' c)

variable {L} {P P' : Set ι} {R R' : γ → Set ι} {p : Prog σ α} {q : Prog σ β} {w₀ v v' : (i : ι) → V i}
  {move move' : γ → γ} {final final' : γ → (i : ι) → V i} {s t : σ} {c : γ}

theorem Apart.symm (h : L.Apart P P' R R' move move' c) : L.Apart P' P R' R move' move c where
  left := h.right
  right := h.left
  own := h.own.symm
  left_taken := by
    rw [Set.union_comm]
    exact h.right_taken
  right_taken := by
    rw [Set.union_comm]
    exact h.left_taken
  left_less := h.right_less
  right_less := h.left_less
  left_first := h.right_first.symm
  right_first := h.left_first.symm

theorem Apart.disjoint (h : L.Apart P P' R R' move move' c) : Disjoint (P ∪ R c) (P' ∪ R' (move c)) := by
  rw [Set.disjoint_union_left, Set.disjoint_union_right, Set.disjoint_union_right]
  refine ⟨⟨h.own, ?_⟩, ?_, h.left_first⟩
  · exact h.left_taken.mono_right (h.right_less.trans Set.subset_union_right)
  · exact (h.right_taken.mono_right Set.subset_union_left).symm

theorem Apart.watched (h : L.Apart P P' R R' move move' c) : P' ∪ R' (move c) ⊆ L.watched :=
  (Set.union_subset_union_right P' h.right_less).trans h.right

theorem Reached.before {u : σ} {Z : Set ι} (h : L.Reached P P' t u c v v') (hk : L.Keeps Z s t)
    (hZ : Z ⊆ P ∨ Z ⊆ P') : L.Reached P P' s u c v v' := by
  refine ⟨h.holds, h.pivot, h.left, h.right, fun i hi hn hn' => ?_⟩
  refine (h.rest i hi hn hn').trans (hk.frame i hi fun hiZ => ?_)
  exact hZ.elim (fun hs => hn (hs hiZ)) fun hs => hn' (hs hiZ)

theorem Reached.swap (h : L.Reached P P' s t c v v') : L.Reached P' P s t c v' v :=
  ⟨h.holds, h.pivot, h.right, h.left, fun i hi hn hn' => h.rest i hi hn' hn⟩

theorem Reached.same {t' : σ} (h : L.Reached P P' s t c v v') (h' : L.Reached P P' s t' c v v') : L.Same t t' := by
  refine ⟨h.pivot.trans h'.pivot.symm, fun i hi => ?_⟩
  by_cases hP : i ∈ P
  · exact (h.left i hP).trans (h'.left i hP).symm
  · by_cases hP' : i ∈ P'
    · exact (h.right i hP').trans (h'.right i hP').symm
    · exact (h.rest i hi hP hP').trans (h'.rest i hi hP hP').symm

theorem Settles.weave (hw : Weave p q s t) (hP : P ⊆ L.watched) (hP' : P' ⊆ L.watched) (hd : Disjoint P P')
    (hp : L.Settles P (fun _ u => Agree P u v) p (L.look s))
    (hq : L.Settles P' (fun _ u => Agree P' u v') q (L.look s)) (hs : L.holds s) :
    L.Reached P P' s t (L.pivot s) v v' := by
  induction hw with
  | done a b s =>
      obtain ⟨u, hu, hv⟩ := hp
      obtain ⟨u', hu', hv'⟩ := hq
      exact ⟨hs, rfl, hu.trans hv, hu'.trans hv', fun _ _ _ _ => rfl⟩
  | @left f k q s t _ ih =>
      obtain ⟨hk, hpivot, hp⟩ := hp s hs (.refl P _)
      have h := ih hp (hq.congr (hk.agree hP' hd)) hk.holds
      rw [hpivot] at h
      exact h.before hk (.inl fun _ => id)
  | @right p f k s t _ ih =>
      obtain ⟨hk, hpivot, hq⟩ := hq s hs (.refl P' _)
      have h := ih (hp.congr (hk.agree hP hd.symm)) hq hk.holds
      rw [hpivot] at h
      exact h.before hk (.inr fun _ => id)

theorem Commits.weave_settled (hw : Weave p q s t) (hP : P ⊆ L.watched) (hP' : P' ∪ R' (L.pivot s) ⊆ L.watched)
    (hd : Disjoint P (P' ∪ R' (L.pivot s))) (hown : Disjoint P' (R' (L.pivot s)))
    (hp : L.Settles P (fun _ u => Agree P u v) p (L.look s))
    (hq : L.Commits P' w₀ R' move' final' q (L.look s)) (hR : Agree (R' (L.pivot s)) (L.look s) w₀)
    (hs : L.holds s) :
    L.Reached P (P' ∪ R' (L.pivot s)) s t (move' (L.pivot s)) v (final' (L.pivot s)) := by
  induction hw with
  | done a b s =>
      obtain ⟨u, hu, hv⟩ := hp
      obtain ⟨hm, he, hf⟩ := hq (L.pivot s)
      rw [he, Set.union_empty]
      exact ⟨hs, hm.symm, hu.trans hv, hf, fun _ _ _ _ => rfl⟩
  | @left f k q s t _ ih =>
      obtain ⟨hk, hpivot, hp⟩ := hp s hs (.refl P _)
      have ha := hk.agree hP' hd
      rw [hpivot] at ih
      have h := ih hP' hd hown hp (hq.congr (ha.mono Set.subset_union_left))
        ((ha.mono Set.subset_union_right).symm.trans hR) hk.holds
      exact h.before hk (.inl fun _ => id)
  | @right p f k s t hw ih =>
      obtain ⟨hk, hpivot, hq⟩ | hq := hq s hs (.refl P' _)
      · have hp' := hp.congr (hk.agree hP (hd.mono_right Set.subset_union_left).symm)
        have hR' := hk.agree (Set.subset_union_right.trans hP') hown
        rw [hpivot] at ih
        have h := ih hP' hd hown hp' hq (hR'.symm.trans hR) hk.holds
        exact h.before hk (.inr Set.subset_union_left)
      · obtain ⟨hk, hpivot, hq⟩ := hq hR
        have h := Settles.weave hw hP hP' hd (hp.congr (hk.agree hP hd.symm)) hq hk.holds
        rw [hpivot] at h
        exact h.before hk (.inr fun _ => id)

theorem Commits.alone (hp : L.Commits P w₀ R move final p (L.look s)) (hP : P ∪ R (L.pivot s) ⊆ L.watched)
    (hown : Disjoint P (R (L.pivot s))) (hR : Agree (R (L.pivot s)) (L.look s) w₀) (hs : L.holds s) :
    L.Reached ∅ (P ∪ R (L.pivot s)) s (p.exec s) (move (L.pivot s)) (L.look s) (final (L.pivot s)) := by
  have hnone : L.Settles ∅ (fun _ u => Agree ∅ u (L.look s)) (Prog.ret () : Prog σ Unit) (L.look s) :=
    ⟨L.look s, .refl ∅ _, .refl ∅ _⟩
  exact hp.weave_settled (Weave.alone () p s) (Set.empty_subset _) hP (Set.empty_disjoint _) hown hnone hR hs

theorem Commits.committed {s' : σ} (hapart : L.Apart P P' R R' move move' (L.pivot s))
    (hk : L.Keeps (P ∪ R (L.pivot s)) s s') (hpivot : L.pivot s' = move (L.pivot s))
    (hp : L.Settles (P ∪ R (L.pivot s)) (fun _ u => Agree (P ∪ R (L.pivot s)) u v) p (L.look s'))
    (hq : L.Commits P' w₀ R' move' final' q (L.look s)) (hR : Agree (R' (L.pivot s)) (L.look s) w₀)
    (hw : Weave p q s' t) :
    L.Reached (P ∪ R (L.pivot s)) (P' ∪ R' (move (L.pivot s))) s t (move' (move (L.pivot s))) v
      (final' (move (L.pivot s))) := by
  have ha := hk.agree hapart.watched hapart.disjoint
  have hq' := hq.congr (ha.mono Set.subset_union_left)
  have hR' := (ha.mono Set.subset_union_right).symm.trans (hR.mono hapart.right_less)
  have hwatched := hapart.watched
  have hd := hapart.disjoint
  have hown := hapart.right_taken.mono_right (hapart.right_less.trans Set.subset_union_right)
  rw [← hpivot] at hR' hwatched hd hown ⊢
  exact (hq'.weave_settled hw hapart.left hwatched hd hown hp hR' hk.holds).before hk (.inl fun _ => id)

section Weave

variable (hapart : L.Apart P P' R R' move move' (L.pivot s)) (hp : L.Commits P w₀ R move final p (L.look s))
  (hq : L.Commits P' w₀ R' move' final' q (L.look s))
  (hR : Agree (R (L.pivot s)) (L.look s) w₀) (hR' : Agree (R' (L.pivot s)) (L.look s) w₀) (hs : L.holds s)

include hapart hp hq hR hR' hs

theorem Commits.serial : L.Reached (P ∪ R (L.pivot s)) (P' ∪ R' (move (L.pivot s))) s (q.exec (p.exec s))
    (move' (move (L.pivot s))) (final (L.pivot s)) (final' (move (L.pivot s))) := by
  have h := hp.alone hapart.left (hapart.left_taken.mono_right Set.subset_union_left) hR hs
  have hk : L.Keeps (P ∪ R (L.pivot s)) s (p.exec s) :=
    ⟨h.holds, fun i hi hn => h.rest i hi (Set.notMem_empty i) hn⟩
  have hdone : L.Settles (P ∪ R (L.pivot s)) (fun _ u => Agree (P ∪ R (L.pivot s)) u (final (L.pivot s)))
      (Prog.ret () : Prog σ Unit) (L.look (p.exec s)) :=
    ⟨_, .refl _ _, h.right⟩
  exact Commits.committed hapart hk h.pivot hdone hq hR' (Weave.alone () q (p.exec s))

theorem Commits.weave (hw : Weave p q s t) :
    L.Reached (P ∪ R (L.pivot s)) (P' ∪ R' (move (L.pivot s))) s t (move' (move (L.pivot s)))
        (final (L.pivot s)) (final' (move (L.pivot s))) ∨
      L.Reached (P ∪ R (move' (L.pivot s))) (P' ∪ R' (L.pivot s)) s t (move (move' (L.pivot s)))
        (final (move' (L.pivot s))) (final' (L.pivot s)) := by
  have hleft := Set.union_subset_iff.mp hapart.left
  have hright := Set.union_subset_iff.mp hapart.right
  have htaken := Set.disjoint_union_right.mp hapart.left_taken
  have htaken' := Set.disjoint_union_right.mp hapart.right_taken
  induction hw with
  | done a b s =>
      obtain ⟨hm, he, hf⟩ := hp (L.pivot s)
      obtain ⟨hm', he', hf'⟩ := hq (L.pivot s)
      rw [hm, he, he', Set.union_empty, Set.union_empty]
      exact .inl ⟨hs, hm'.symm, hf, hf', fun _ _ _ _ => rfl⟩
  | @left f k q s t hw ih =>
      obtain ⟨hk, hpivot, hp⟩ | hp := hp s hs (.refl P _)
      · rw [hpivot] at ih
        have h := ih hapart hp (hq.congr (hk.agree hright.1 hapart.own))
          ((hk.agree hleft.2 htaken.1).symm.trans hR) ((hk.agree hright.2 htaken.2).symm.trans hR') hk.holds
          hleft hright htaken htaken'
        exact h.imp (·.before hk (.inl Set.subset_union_left)) (·.before hk (.inl Set.subset_union_left))
      · obtain ⟨hk, hpivot, hp⟩ := hp hR
        exact .inl (Commits.committed hapart hk hpivot hp hq hR' hw)
  | @right p f k s t hw ih =>
      obtain ⟨hk, hpivot, hq⟩ | hq := hq s hs (.refl P' _)
      · rw [hpivot] at ih
        have h := ih hapart (hp.congr (hk.agree hleft.1 hapart.own.symm)) hq
          ((hk.agree hleft.2 htaken'.1).symm.trans hR) ((hk.agree hright.2 htaken'.2).symm.trans hR') hk.holds
          hleft hright htaken htaken'
        exact h.imp (·.before hk (.inr Set.subset_union_left)) (·.before hk (.inr Set.subset_union_left))
      · obtain ⟨hk, hpivot, hq⟩ := hq hR'
        exact .inr (Commits.committed hapart.symm hk hpivot hq hp hR hw.symm).swap

/-- Two programs that each commit once end, however they are woven, as if the
one that commits first had run before the other. -/
theorem Commits.serializes (hw : Weave p q s t) : L.Same t (q.exec (p.exec s)) ∨ L.Same t (p.exec (q.exec s)) := by
  have h₁ := hp.serial hapart hq hR hR' hs
  have h₂ := hq.serial hapart.symm hp hR' hR hs
  exact (hp.weave hapart hq hR hR' hs hw).imp (·.same h₁) (·.same h₂.swap)

/-- When neither program can tell whether the other has moved the pivot and the
moves commute, the order does not show. -/
theorem Commits.confluent (hw : Weave p q s t) (hmove : move (move' (L.pivot s)) = move' (move (L.pivot s)))
    (hfinal : final (move' (L.pivot s)) = final (L.pivot s))
    (hfinal' : final' (move (L.pivot s)) = final' (L.pivot s))
    (htake : R (move' (L.pivot s)) = R (L.pivot s)) (htake' : R' (move (L.pivot s)) = R' (L.pivot s)) :
    L.Same t (q.exec (p.exec s)) ∧ L.Same t (p.exec (q.exec s)) := by
  have h₁ := hp.serial hapart hq hR hR' hs
  have h₂ := (hq.serial hapart.symm hp hR' hR hs).swap
  have h := hp.weave hapart hq hR hR' hs hw
  rw [hmove, hfinal, hfinal', htake, htake'] at h
  rw [hfinal', htake'] at h₁
  rw [hmove, hfinal, htake] at h₂
  have ht := h.elim id id
  exact ⟨ht.same h₁, ht.same h₂⟩

end Weave

end RichPresence.Lib.Layout
