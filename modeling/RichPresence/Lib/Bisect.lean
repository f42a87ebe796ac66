import Mathlib.Data.List.Basic
import RichPresence.Lib.Loop

namespace RichPresence.Lib

variable {α : Type} (cmp : α → Ordering)

/-- The turns of a binary search. Of the `size` elements from `base` on the upper half is kept
unless its first element is too large; no turn stops early. -/
def bisect (l : List α) : Nat → Nat → Nat → Nat
  | 0, base, _ => base
  | fuel + 1, base, size =>
      if 1 < size then
        let half := size / 2
        let mid := base + half
        bisect l fuel (if (l[mid]?).any fun x => cmp x = .gt then base else mid) (size - half)
      else base

/-- The place of an element that compares equal, or else the place where one could be put in. -/
def binarySearchBy (l : List α) : Except Nat Nat :=
  let base := bisect cmp l l.length 0 l.length
  match (l[base]?).map cmp with
  | none => .error 0
  | some .eq => .ok base
  | some .lt => .error (base + 1)
  | some .gt => .error base

/-- Before an element that is not too large all are too small. -/
def Ascending (l : List α) : Prop := l.Pairwise fun a b => cmp b ≠ .gt → cmp a = .lt

variable {cmp} {l : List α}

theorem bisect_eq (hl : Ascending cmp l) {i : Nat} {x : α} (hi : l[i]? = some x) (hx : cmp x = .eq)
    {fuel base size : Nat} (hfuel : size ≤ fuel + 1) (hbase : base ≤ i) (hsize : i < base + size)
    (hend : base + size ≤ l.length) : bisect cmp l fuel base size = i := by
  induction fuel generalizing base size with
  | zero =>
      rw [bisect]
      omega
  | succ fuel ih =>
      rw [bisect]
      split
      next hmore =>
          obtain ⟨hlt, rfl⟩ := List.getElem?_eq_some_iff.mp hi
          have hmid : base + size / 2 < l.length := by omega
          have hsome : l[base + size / 2]? = some l[base + size / 2] := List.getElem?_eq_getElem hmid
          dsimp only
          rw [hsome, Option.any_some]
          by_cases hgt : cmp l[base + size / 2] = .gt
          · have hleft : i < base + size / 2 := by
              by_contra hright
              rcases Nat.lt_or_eq_of_le (Nat.le_of_not_lt hright) with hlt' | rfl
              · have := List.pairwise_iff_getElem.mp hl _ _ hmid hlt hlt' (by rw [hx]; nofun)
                rw [this] at hgt
                cases hgt
              · rw [hx] at hgt
                cases hgt
            rw [if_pos (decide_eq_true hgt)]
            exact ih (by omega) hbase (by omega) (by omega)
          · have hright : base + size / 2 ≤ i := by
              by_contra hleft
              have := List.pairwise_iff_getElem.mp hl _ _ hlt hmid (Nat.lt_of_not_le hleft) hgt
              rw [this] at hx
              cases hx
            rw [if_neg (by simpa using hgt)]
            exact ih (by omega) hright (by omega) (by omega)
      next hone => omega

theorem binarySearchBy_of_eq (hl : Ascending cmp l) {i : Nat} {x : α} (hi : l[i]? = some x) (hx : cmp x = .eq) :
    binarySearchBy cmp l = .ok i := by
  obtain ⟨hlt, -⟩ := List.getElem?_eq_some_iff.mp hi
  have hbase : bisect cmp l l.length 0 l.length = i :=
    bisect_eq hl hi hx (Nat.le_succ _) (Nat.zero_le _) (by omega) (by omega)
  rw [binarySearchBy, hbase, hi, Option.map_some, hx]

theorem eq_of_binarySearchBy {i : Nat} (h : binarySearchBy cmp l = .ok i) : ∃ x, l[i]? = some x ∧ cmp x = .eq := by
  rw [binarySearchBy] at h
  split at h
  · cases h
  next heq =>
    obtain ⟨x, hx, hcmp⟩ := Option.map_eq_some_iff.mp heq
    cases h
    exact ⟨x, hx, hcmp⟩
  · cases h
  · cases h

/-- What a search for the last place that fits still has to look at. -/
structure Bounds where
  lo : Nat
  hi : Nat

/-- The place in the middle is rounded up, so that one above the lower bound is asked for. -/
def lastFitTurn (fits : Nat → Bool) (b : Bounds) : Bounds ⊕ Nat :=
  if b.lo < b.hi then
    let mid := (b.lo + b.hi + 1) / 2
    if fits mid then .inl { b with lo := mid } else .inl { b with hi := mid - 1 }
  else .inr b.lo

section LastFit

variable {fits : Nat → Bool} {b t : Bounds}

theorem lastFitTurn_next (h : lastFitTurn fits b = .inl t) : b.lo < b.hi ∧
    ((fits ((b.lo + b.hi + 1) / 2) = true ∧ t = { b with lo := (b.lo + b.hi + 1) / 2 }) ∨
      (fits ((b.lo + b.hi + 1) / 2) = false ∧ t = { b with hi := (b.lo + b.hi + 1) / 2 - 1 })) := by
  rw [lastFitTurn] at h
  split at h
  next hlt =>
    refine ⟨hlt, ?_⟩
    dsimp only at h
    split at h
    next hfits => exact .inl ⟨hfits, (Sum.inl.inj h).symm⟩
    next hfits => exact .inr ⟨Bool.eq_false_iff.mpr hfits, (Sum.inl.inj h).symm⟩
  next => cases h

theorem lastFitTurn_last {n : Nat} (h : lastFitTurn fits b = .inr n) : n = b.lo ∧ b.hi ≤ b.lo := by
  rw [lastFitTurn] at h
  split at h
  next =>
    dsimp only at h
    split at h <;> cases h
  next hlt => exact ⟨(Sum.inr.inj h).symm, Nat.le_of_not_lt hlt⟩

variable (fits) in
def lastFit : Loop Bounds Nat where
  body := lastFitTurn fits
  size b := b.hi - b.lo
  shrinks h := by
    obtain ⟨hlt, ⟨-, rfl⟩ | ⟨-, rfl⟩⟩ := lastFitTurn_next h
    · dsimp only
      omega
    · dsimp only
      omega

theorem lastFit_spec {top : Nat} (hmono : ∀ m n, m ≤ n → fits n = true → fits m = true) :
    (lastFit fits).run ⟨0, top⟩ ≤ top ∧
      ((lastFit fits).run ⟨0, top⟩ = 0 ∨ fits ((lastFit fits).run ⟨0, top⟩) = true) ∧
      ∀ m ≤ top, fits m = true → m ≤ (lastFit fits).run ⟨0, top⟩ := by
  obtain ⟨hreach, hlast⟩ := (lastFit fits).ends ⟨0, top⟩
  have hinv := hreach.invariant
    (fun b => b.lo ≤ b.hi ∧ b.hi ≤ top ∧ (b.lo = 0 ∨ fits b.lo = true) ∧ ∀ m ≤ top, fits m = true → m ≤ b.hi)
    (fun b t hb ht => ?_) ⟨Nat.zero_le _, Nat.le_refl _, .inl rfl, fun m hm _ => hm⟩
  · obtain ⟨hle, htop, hfits, hmax⟩ := hinv
    obtain ⟨heq, hge⟩ := lastFitTurn_last hlast
    rw [heq]
    exact ⟨Nat.le_trans hle htop, hfits, fun m hm hm' => Nat.le_trans (hmax m hm hm') hge⟩
  · obtain ⟨hle, htop, hfits, hmax⟩ := hb
    obtain ⟨hlt, ⟨hmid, rfl⟩ | ⟨hmid, rfl⟩⟩ := lastFitTurn_next ht
    · refine ⟨?_, htop, .inr hmid, hmax⟩
      dsimp only
      omega
    · refine ⟨?_, ?_, hfits, fun m hm hm' => ?_⟩
      · dsimp only
        omega
      · dsimp only
        omega
      · -- a place from the middle on that fits would make the middle fit
        by_contra hgt
        have := hmono ((b.lo + b.hi + 1) / 2) m (by dsimp only at hgt; omega) hm'
        rw [hmid] at this
        cases this

end LastFit

end RichPresence.Lib
