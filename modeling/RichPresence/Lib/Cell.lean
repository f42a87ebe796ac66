import RichPresence.Lib.Layout

namespace RichPresence.Lib.Prog

variable {σ κ α β : Type} (I : σ → Prop) (cell : σ → κ)

/-- The program keeps `I` and never touches the cell. -/
def Idle : Prog σ α → Prop
  | ret _ => True
  | atomic f k => ∀ s, I s → I (f s) ∧ cell (f s) = cell s ∧ Idle (k s)

def Puts (c : κ) : Prog σ α → Prop
  | ret _ => False
  | atomic f k => ∀ s, I s → I (f s) ∧ (cell (f s) = cell s ∧ Puts c (k s) ∨ cell (f s) = c ∧ Idle I cell (k s))

/-- The program looks at the cell once and writes `c` later on if what it saw
passes the test. -/
def Tests (test : κ → Bool) (c : κ) : Prog σ α → Prop
  | ret _ => ∀ x, test x = false
  | atomic f k => ∀ s, I s → I (f s) ∧ cell (f s) = cell s ∧
      (Tests test c (k s) ∨ test (cell s) = true ∧ Puts I cell c (k s) ∨
        test (cell s) = false ∧ Idle I cell (k s))

/-- The cell after such a program has run on its own. -/
def settled (test : κ → Bool) (c x : κ) : κ := if test x then c else x

variable {I cell} {p : Prog σ α} {q : Prog σ β} {s t : σ} {c c' : κ} {test test' : κ → Bool}

theorem settled_pass {x : κ} (h : test x = true) : settled test c x = c := if_pos h

theorem settled_fail {x : κ} (h : test x = false) : settled test c x = x := if_neg (by simp [h])

section Rules

theorem idle_pure (a : α) : Idle I cell (pure a : Prog σ α) := trivial

theorem idle_locked {f : σ → α × σ} (h : ∀ s, I s → I (f s).2 ∧ cell (f s).2 = cell s) :
    Idle I cell (locked f) :=
  fun s hs => ⟨(h s hs).1, (h s hs).2, trivial⟩

theorem Idle.bind {g : α → Prog σ β} (hp : Idle I cell p) (hg : ∀ a, Idle I cell (g a)) :
    Idle I cell (p >>= g) := by
  induction p with
  | ret a => exact hg a
  | atomic f k ih =>
      intro s hs
      obtain ⟨hi, hc, hk⟩ := hp s hs
      exact ⟨hi, hc, ih s hk⟩

theorem Idle.forM {δ : Type} {body : δ → Prog σ PUnit} {l : List δ} (h : ∀ x ∈ l, Idle I cell (body x)) :
    Idle I cell (forM l body) := by
  induction l with
  | nil => exact idle_pure _
  | cons x l ih =>
      rw [List.forM_cons]
      exact (h x (by simp)).bind fun _ => ih fun y hy => h y (by simp [hy])

theorem Idle.map {κ' : Type} {cell' : σ → κ'} (hp : Idle I cell p)
    (h : ∀ s s', I s → I s' → cell s' = cell s → cell' s' = cell' s) : Idle I cell' p := by
  induction p with
  | ret a => trivial
  | atomic f k ih =>
      intro s hs
      obtain ⟨hi, hc, hk⟩ := hp s hs
      exact ⟨hi, h s (f s) hs hi hc, ih s hk⟩

theorem Idle.puts_bind {g : α → Prog σ β} (hp : Idle I cell p) (hg : ∀ a, Puts I cell c (g a)) :
    Puts I cell c (p >>= g) := by
  induction p with
  | ret a => exact hg a
  | atomic f k ih =>
      intro s hs
      obtain ⟨hi, hc, hk⟩ := hp s hs
      exact ⟨hi, .inl ⟨hc, ih s hk⟩⟩

theorem Puts.bind {g : α → Prog σ β} (hp : Puts I cell c p) (hg : ∀ a, Idle I cell (g a)) :
    Puts I cell c (p >>= g) := by
  induction p with
  | ret a => exact hp.elim
  | atomic f k ih =>
      intro s hs
      obtain ⟨hi, ⟨hc, hk⟩ | ⟨hc, hk⟩⟩ := hp s hs
      · exact ⟨hi, .inl ⟨hc, ih s hk⟩⟩
      · exact ⟨hi, .inr ⟨hc, hk.bind hg⟩⟩

theorem Puts.forM {δ : Type} {body : δ → Prog σ PUnit} {l : List δ} {x : δ} (hl : l.Nodup) (hx : x ∈ l)
    (hput : Puts I cell c (body x)) (hidle : ∀ y ∈ l, y ≠ x → Idle I cell (body y)) :
    Puts I cell c (forM l body) := by
  induction l with
  | nil => cases hx
  | cons y l ih =>
      obtain ⟨hy, hl⟩ := List.nodup_cons.mp hl
      rw [List.forM_cons]
      by_cases hyx : y = x
      · subst hyx
        exact hput.bind fun _ => .forM fun z hz => hidle z (by simp [hz]) fun h => hy (h ▸ hz)
      · have hxl : x ∈ l := by simpa [Ne.symm hyx] using hx
        exact (hidle y (by simp) hyx).puts_bind fun _ => ih hl hxl fun z hz => hidle z (by simp [hz])

theorem puts_updates_bind {f : σ → σ} {g : Unit → Prog σ β} (hf : ∀ s, I s → I (f s) ∧ cell (f s) = c)
    (hg : Idle I cell (g ())) : Puts I cell c (updates f >>= g) :=
  fun s hs => ⟨(hf s hs).1, .inr ⟨(hf s hs).2, hg⟩⟩

theorem Idle.tests_bind {g : α → Prog σ β} (hp : Idle I cell p) (hg : ∀ a, Tests I cell test c (g a)) :
    Tests I cell test c (p >>= g) := by
  induction p with
  | ret a => exact hg a
  | atomic f k ih =>
      intro s hs
      obtain ⟨hi, hc, hk⟩ := hp s hs
      exact ⟨hi, hc, .inl (ih s hk)⟩

theorem idle_locked_bind {f : σ → α × σ} {g : α → Prog σ β}
    (h : ∀ s, I s → I (f s).2 ∧ cell (f s).2 = cell s ∧ Idle I cell (g (f s).1)) :
    Idle I cell (locked f >>= g) := h

theorem tests_locked_bind {f : σ → α × σ} {g : α → Prog σ β}
    (h : ∀ s, I s → I (f s).2 ∧ cell (f s).2 = cell s ∧ Tests I cell test c (g (f s).1)) :
    Tests I cell test c (locked f >>= g) := by
  intro s hs
  obtain ⟨hi, hc, hg⟩ := h s hs
  exact ⟨hi, hc, .inl hg⟩

theorem tests_reads {f : σ → α} {g : α → Prog σ β}
    (h : ∀ s, I s → test (cell s) = true ∧ Puts I cell c (g (f s)) ∨ test (cell s) = false ∧ Idle I cell (g (f s))) :
    Tests I cell test c (reads f >>= g) :=
  fun s hs => ⟨hs, rfl, .inr (h s hs)⟩

theorem Idle.of_settles {ι γ : Type} {V : ι → Type} {L : Layout σ ι γ V} {i : ι} {w : (i : ι) → V i}
    {Q : α → ((i : ι) → V i) → Prop} (hi : i ∈ L.watched) (h : L.Settles ∅ Q p w) :
    Idle L.holds (fun s => L.look s i) p := by
  induction p generalizing w with
  | ret a => trivial
  | atomic f k ih =>
      intro s hs
      obtain ⟨hk, _, h⟩ := h s hs fun j hj => hj.elim
      exact ⟨hk.holds, hk.frame i hi (Set.notMem_empty i), ih s h⟩

end Rules

section Weave

theorem settled_cases {x y : κ} (htest : test x = true) (hx : test' x = true → c = c' ∨ test' c = test c')
    (h : y = settled test' c' c ∨ y = c ∨ test' x = true ∧ y = c') :
    y = settled test' c' (settled test c x) ∨ y = settled test c (settled test' c' x) := by
  rw [settled_pass htest]
  cases hx' : test' x with
  | false =>
      rw [settled_fail hx', settled_pass htest]
      rcases h with h | h | ⟨ht, _⟩
      · exact .inl h
      · exact .inr h
      · rw [hx'] at ht
        cases ht
  | true =>
      rw [settled_pass hx']
      obtain rfl | heq := hx hx'
      · have hy : y = c := by
          rcases h with h | h | ⟨_, h⟩
          · rwa [settled, ite_self] at h
          · exact h
          · exact h
        left
        rw [hy, settled, ite_self]
      · rcases h with h | h
        · exact .inl h
        · cases hc : test' c with
          | true =>
              rw [settled_pass hc, settled_pass (heq.symm.trans hc)]
              exact (h.imp_right And.right).symm
          | false =>
              rw [settled_fail hc, settled_fail (heq.symm.trans hc)]
              exact h.imp_right And.right

theorem Idle.weave (hw : Weave p q s t) (hp : Idle I cell p) (hq : Idle I cell q) (hs : I s) :
    cell t = cell s := by
  induction hw with
  | done a b s => rfl
  | @left f k q s t _ ih =>
      obtain ⟨hi, hc, hp⟩ := hp s hs
      exact (ih hp hq hi).trans hc
  | @right p f k s t _ ih =>
      obtain ⟨hi, hc, hq⟩ := hq s hs
      exact (ih hp hq hi).trans hc

theorem Puts.weave_idle (hw : Weave p q s t) (hp : Puts I cell c p) (hq : Idle I cell q) (hs : I s) :
    cell t = c := by
  induction hw with
  | done a b s => exact hp.elim
  | @left f k q s t hw ih =>
      obtain ⟨hi, ⟨_, hp⟩ | ⟨hc, hp⟩⟩ := hp s hs
      · exact ih hp hq hi
      · exact (Idle.weave hw hp hq hi).trans hc
  | @right p f k s t _ ih =>
      obtain ⟨hi, _, hq⟩ := hq s hs
      exact ih hp hq hi

theorem Puts.weave (hw : Weave p q s t) (hp : Puts I cell c p) (hq : Puts I cell c' q) (hs : I s) :
    cell t = c ∨ cell t = c' := by
  induction hw with
  | done a b s => exact hp.elim
  | @left f k q s t hw ih =>
      obtain ⟨hi, ⟨_, hp⟩ | ⟨_, hp⟩⟩ := hp s hs
      · exact ih hp hq hi
      · exact .inr (Puts.weave_idle hw.symm hq hp hi)
  | @right p f k s t hw ih =>
      obtain ⟨hi, ⟨_, hq⟩ | ⟨_, hq⟩⟩ := hq s hs
      · exact ih hp hq hi
      · exact .inl (Puts.weave_idle hw hp hq hi)

theorem Tests.weave_idle (hw : Weave p q s t) (hp : Tests I cell test c p) (hq : Idle I cell q) (hs : I s) :
    cell t = settled test c (cell s) := by
  induction hw with
  | done a b s => exact (settled_fail (hp (cell s))).symm
  | @left f k q s t hw ih =>
      obtain ⟨hi, hc, hp | ⟨htest, hp⟩ | ⟨htest, hp⟩⟩ := hp s hs
      · rw [ih hp hq hi, hc]
      · rw [Puts.weave_idle hw hp hq hi, settled_pass htest]
      · rw [Idle.weave hw hp hq hi, hc, settled_fail htest]
  | @right p f k s t _ ih =>
      obtain ⟨hi, hc, hq⟩ := hq s hs
      rw [ih hp hq hi, hc]

theorem Tests.weave_puts (hw : Weave p q s t) (hp : Tests I cell test c p) (hq : Puts I cell c' q) (hs : I s) :
    cell t = settled test c c' ∨ cell t = c' ∨ test (cell s) = true ∧ cell t = c := by
  induction hw with
  | done a b s => exact hq.elim
  | @left f k q s t hw ih =>
      obtain ⟨hi, hc, hp | ⟨htest, hp⟩ | ⟨htest, hp⟩⟩ := hp s hs
      · rw [← hc]
        exact ih hp hq hi
      · exact .inr ((Puts.weave hw hp hq hi).symm.imp_right fun h => ⟨htest, h⟩)
      · exact .inr (.inl (Puts.weave_idle hw.symm hq hp hi))
  | @right p f k s t hw ih =>
      obtain ⟨hi, ⟨hc, hq⟩ | ⟨hc, hq⟩⟩ := hq s hs
      · rw [← hc]
        exact ih hp hq hi
      · refine .inl ?_
        rw [Tests.weave_idle hw hp hq hi, hc]

theorem Idle.exec (hp : Idle I cell p) (hs : I s) : I (p.exec s) ∧ cell (p.exec s) = cell s := by
  induction p generalizing s with
  | ret a => exact ⟨hs, rfl⟩
  | atomic f k ih =>
      obtain ⟨hi, hc, hk⟩ := hp s hs
      obtain ⟨hi', hc'⟩ := ih s hk hi
      exact ⟨hi', hc'.trans hc⟩

theorem Puts.exec (hp : Puts I cell c p) (hs : I s) : I (p.exec s) ∧ cell (p.exec s) = c := by
  induction p generalizing s with
  | ret a => exact hp.elim
  | atomic f k ih =>
      obtain ⟨hi, ⟨_, hk⟩ | ⟨hc, hk⟩⟩ := hp s hs
      · exact ih s hk hi
      · obtain ⟨hi', hc'⟩ := hk.exec hi
        exact ⟨hi', hc'.trans hc⟩

theorem Tests.exec (hp : Tests I cell test c p) (hs : I s) :
    I (p.exec s) ∧ cell (p.exec s) = settled test c (cell s) := by
  induction p generalizing s with
  | ret a => exact ⟨hs, (settled_fail (hp (cell s))).symm⟩
  | atomic f k ih =>
      obtain ⟨hi, hc, hk | ⟨htest, hk⟩ | ⟨htest, hk⟩⟩ := hp s hs
      · rw [← hc]
        exact ih s hk hi
      · rw [settled_pass htest]
        exact hk.exec hi
      · rw [settled_fail htest, ← hc]
        exact hk.exec hi

/-- Two tests of one cell end as in one of the two orders, when both write the
same or the write of each is seen by the other alike. -/
theorem Tests.weave (hw : Weave p q s t) (hp : Tests I cell test c p) (hq : Tests I cell test' c' q) (hs : I s)
    (hx : test (cell s) = true → test' (cell s) = true → c = c' ∨ test' c = test c') :
    cell t = settled test' c' (settled test c (cell s)) ∨ cell t = settled test c (settled test' c' (cell s)) := by
  induction hw with
  | done a b s =>
      left
      rw [settled_fail (hp (cell s)), settled_fail (hq (cell s))]
  | @left f k q s t hw ih =>
      obtain ⟨hi, hc, hp | ⟨htest, hp⟩ | ⟨htest, hp⟩⟩ := hp s hs
      · rw [← hc] at hx ⊢
        exact ih hp hq hi hx
      · have h := Tests.weave_puts hw.symm hq hp hi
        rw [hc] at h
        exact settled_cases htest (hx htest) h
      · left
        rw [Tests.weave_idle hw.symm hq hp hi, hc, settled_fail htest]
  | @right p f k s t hw ih =>
      obtain ⟨hi, hc, hq | ⟨htest, hq⟩ | ⟨htest, hq⟩⟩ := hq s hs
      · rw [← hc] at hx ⊢
        exact ih hp hq hi hx
      · have h := Tests.weave_puts hw hp hq hi
        rw [hc] at h
        refine (settled_cases htest (fun ht => ?_) h).symm
        exact (hx ht htest).imp Eq.symm Eq.symm
      · right
        rw [Tests.weave_idle hw hp hq hi, hc, settled_fail htest]

theorem Tests.serializes (hw : Weave p q s t) (hp : Tests I cell test c p) (hq : Tests I cell test' c' q) (hs : I s)
    (hx : test (cell s) = true → test' (cell s) = true → c = c' ∨ test' c = test c') :
    cell t = cell (q.exec (p.exec s)) ∨ cell t = cell (p.exec (q.exec s)) := by
  obtain ⟨hi, hc⟩ := hp.exec hs
  obtain ⟨hi', hc'⟩ := hq.exec hs
  rw [(hq.exec hi).2, (hp.exec hi').2, hc, hc']
  exact hp.weave hw hq hs hx

end Weave

section Guard

variable {δ δ' : Type} {f : σ → δ × σ} {g : δ → Prog σ α} {f' : σ → δ' × σ} {g' : δ' → Prog σ β} {d : δ}

theorem Weave.first_guard (hw : Weave (locked f >>= g) (locked f' >>= g') s t) :
    Weave (g (f s).1) (locked f' >>= g') (f s).2 t ∨ Weave (locked f >>= g) (g' (f' s).1) (f' s).2 t := by
  generalize hp : locked f >>= g = p at hw
  generalize hq : locked f' >>= g' = q at hw
  cases hw with
  | done a b s => cases hp
  | left hw =>
      cases hp
      exact .inl (hq ▸ hw)
  | right hw =>
      cases hq
      exact .inr (hp ▸ hw)

theorem Weave.force (hw : Weave (locked f >>= g) q s t) (hq : Idle I (fun s => (f s).1) q) (hs : I s)
    (hd : (f s).1 = d) : Weave (locked (fun s => (d, (f s).2)) >>= g) q s t := by
  generalize hp : locked f >>= g = p at hw
  induction hw with
  | done a b s => cases hp
  | @left f' k q s t hw _ =>
      cases hp
      rw [← hd]
      exact .left hw
  | @right p f' k s t _ ih =>
      obtain ⟨hi, hc, hk⟩ := hq s hs
      exact .right (ih hk hi (hc.trans hd) hp)

theorem exec_force (hd : (f s).1 = d) : (locked (fun s => (d, (f s).2)) >>= g).exec s = (locked f >>= g).exec s := by
  rw [exec_bind, exec_bind]
  simp [hd]

theorem Weave.refused (hw : Weave (locked f >>= g) q s t) (hq : Idle I (fun s => (f s).1) q) (hs : I s)
    (hd : (f s).1 = d) (hf : ∀ s, (f s).1 = d → (f s).2 = s) {a : α} (hg : g d = pure a) : t = q.exec s := by
  generalize hp : locked f >>= g = p at hw
  induction hw with
  | done a b s => cases hp
  | @left f' k q s t hw _ =>
      cases hp
      change Weave (g (f s).1) q (f s).2 t at hw
      rw [hd, hg, hf s hd] at hw
      exact hw.ended
  | @right p f' k s t _ ih =>
      obtain ⟨hi, hc, hk⟩ := hq s hs
      exact ih hk hi (hc.trans hd) hp

end Guard

end RichPresence.Lib.Prog
