import RichPresence.Lib.Table

namespace RichPresence.Lib

/-- A table of what the marked parts hold, each at its mark. -/
def IsUnion {P F K V : Type} [DecidableEq P] [DecidableEq K] (holds : P → F → K → Option V) (marks : Table P F)
    (table : Table K V) : Prop :=
  ∀ k v, table.lookup k = some v ↔ ∃ p f, marks.lookup p = some f ∧ holds p f k = some v

/-- Keys that tell, among some parts, the one that holds them. -/
structure Tells {P F K V : Type} (owns : P → K → Bool) (holds : P → F → K → Option V) (known : P → Prop) : Prop where
  owns_self : ∀ {p f k v}, known p → holds p f k = some v → owns p k = true
  eq_of_owns : ∀ {p q f k v}, known p → known q → holds p f k = some v → owns q k = true → q = p

section Union

variable {P F K V : Type} [DecidableEq P] [DecidableEq K] {owns : P → K → Bool} {holds : P → F → K → Option V}
  {known : P → Prop} {marks done : Table P F} {table other : Table K V} {p : P} {f : F}

theorem isUnion_empty : IsUnion holds ∅ ∅ := by
  intro k v
  simp

theorem IsUnion.unique (h : IsUnion holds marks table) (h' : IsUnion holds marks other) (k : K) :
    table.lookup k = other.lookup k := by
  apply Option.ext
  intro v
  exact (h k v).trans (h' k v).symm

theorem IsUnion.congr_marks (h : IsUnion holds marks table) (heq : ∀ p, marks.lookup p = done.lookup p) :
    IsUnion holds done table := by
  intro k v
  simp only [h k v, heq]

theorem IsUnion.congr (h : IsUnion holds marks table) (heq : ∀ k, table.lookup k = other.lookup k) :
    IsUnion holds marks other := by
  intro k v
  rw [← heq, h k v]

theorem IsUnion.mono (h : IsUnion holds done table) (h' : IsUnion holds marks other)
    (hsub : ∀ p f, done.lookup p = some f → marks.lookup p = some f) {k : K} {v : V} (hk : table.lookup k = some v) :
    other.lookup k = some v := by
  obtain ⟨p, f, hp, hv⟩ := (h k v).mp hk
  exact (h' k v).mpr ⟨p, f, hsub p f hp, hv⟩

theorem IsUnion.filter_owns (h : IsUnion holds marks table) (htells : Tells owns holds known)
    (hknown : ∀ q ∈ marks, known q) (hp : marks.lookup p = some f) (k : K) :
    (table.lookup k).filter (fun _ => owns p k) = holds p f k := by
  have hkp : known p := hknown p (Table.mem_iff_lookup.mpr ⟨f, hp⟩)
  apply Option.ext
  intro v
  rw [Option.filter_eq_some_iff, h k v]
  constructor
  · rintro ⟨⟨q, g, hq, hv⟩, howns⟩
    have hkq : known q := hknown q (Table.mem_iff_lookup.mpr ⟨g, hq⟩)
    obtain rfl : p = q := htells.eq_of_owns hkq hkp hv howns
    obtain rfl : g = f := Option.some.inj (hq.symm.trans hp)
    exact hv
  · intro hv
    exact ⟨⟨p, f, hp, hv⟩, htells.owns_self hkp hv⟩

theorem IsUnion.insert (h : IsUnion holds done table) (htells : Tells owns holds known)
    (hknown : ∀ q ∈ done, known q) (hp : known p) (hnew : p ∉ done)
    (hadd : (∀ k, other.lookup k = (table.lookup k).or (holds p f k)) ∨
      ∀ k, other.lookup k = (holds p f k).or (table.lookup k)) :
    IsUnion holds (done.insert p f) other := by
  have hapart {k : K} {v v' : V} (hv : table.lookup k = some v) : holds p f k ≠ some v' := by
    intro hv'
    obtain ⟨q, g, hq, hkey⟩ := (h k v).mp hv
    have hmem : q ∈ done := Table.mem_iff_lookup.mpr ⟨g, hq⟩
    exact hnew (htells.eq_of_owns hp (hknown q hmem) hv' (htells.owns_self (hknown q hmem) hkey) ▸ hmem)
  intro k v
  have hor : other.lookup k = some v ↔ table.lookup k = some v ∨ holds p f k = some v := by
    rcases hadd with hadd | hadd
    all_goals
      rw [hadd k]
      cases htable : table.lookup k with
      | none => simp
      | some u =>
          have hnone : holds p f k = none := Option.eq_none_iff_forall_not_mem.mpr fun v' => hapart htable
          simp [hnone]
  rw [hor, h k v]
  constructor
  · rintro (⟨q, g, hq, hv⟩ | hv)
    · have hne : q ≠ p := fun heq => hnew (heq ▸ Table.mem_iff_lookup.mpr ⟨g, hq⟩)
      exact ⟨q, g, by rw [Table.lookup_insert_eq, if_neg hne, hq], hv⟩
    · exact ⟨p, f, by rw [Table.lookup_insert_eq, if_pos rfl], hv⟩
  · rintro ⟨q, g, hq, hv⟩
    rw [Table.lookup_insert_eq] at hq
    split at hq
    next heq =>
        obtain rfl : f = g := Option.some.inj hq
        exact .inr (heq ▸ hv)
    next => exact .inl ⟨q, g, hq, hv⟩

end Union

section Marked

variable {W P F K V : Type} {seen : W → Prop} {mark : W → P → Option F} {scan : W → P → K → Option V} {w : W} {p : P}
  {f : F}

/-- Among the states that are seen, equal marks of a part mean equal scans of it. -/
def Marked (seen : W → Prop) (mark : W → P → Option F) (scan : W → P → K → Option V) : Prop :=
  ∀ w w' p f, seen w → seen w' → mark w p = some f → mark w' p = some f → scan w p = scan w' p

open Classical in
/-- What a part holds whenever it has a mark. -/
noncomputable def contents (seen : W → Prop) (mark : W → P → Option F) (scan : W → P → K → Option V) (p : P) (f : F) :
    K → Option V :=
  if h : ∃ w, seen w ∧ mark w p = some f then scan h.choose p else fun _ => none

theorem Marked.contents_eq (h : Marked seen mark scan) (hw : seen w) (hmark : mark w p = some f) :
    contents seen mark scan p f = scan w p := by
  have hex : ∃ w, seen w ∧ mark w p = some f := ⟨w, hw, hmark⟩
  rw [contents, dif_pos hex]
  exact h _ _ p f hex.choose_spec.1 hw hex.choose_spec.2 hmark

theorem scan_of_contents {k : K} {v : V} (h : contents seen mark scan p f k = some v) :
    ∃ w, seen w ∧ scan w p k = some v := by
  rw [contents] at h
  split at h
  next hex => exact ⟨_, hex.choose_spec.1, h⟩
  next => cases h

end Marked

end RichPresence.Lib
