import Mathlib.Data.List.Infix

namespace RichPresence.Lib

variable {α : Type} {pat : List α}

/-- What is left of a text without the occurrences of a pattern that are met from its start on. -/
inductive Deleted (pat : List α) : List α → List α → Prop
  | rest {l : List α} (h : ¬pat <:+: l) : Deleted pat l l
  | cut {before after out : List α} (hfirst : ∀ j < before.length, ¬pat <+: (before ++ (pat ++ after)).drop j)
      (hrest : Deleted pat after out) : Deleted pat (before ++ (pat ++ after)) (before ++ out)

namespace Deleted

theorem cons {a : α} {l out : List α} (ha : ¬pat <+: a :: l) (h : Deleted pat l out) :
    Deleted pat (a :: l) (a :: out) := by
  cases h with
  | rest h =>
      refine .rest fun hinfix => ?_
      rcases List.infix_cons_iff.mp hinfix with hpre | hinfix
      · exact ha hpre
      · exact h hinfix
  | @cut before after out hfirst hrest =>
      refine @cut α pat (a :: before) after out (fun j hj => ?_) hrest
      cases j with
      | zero => exact ha
      | succ j => exact hfirst j (Nat.lt_of_succ_lt_succ hj)

theorem drop {after out : List α} (h : Deleted pat after out) : Deleted pat (pat ++ after) out :=
  @cut α pat [] after out (fun j hj => absurd hj (Nat.not_lt_zero j)) h

theorem unique {l x y : List α} (hx : Deleted pat l x) (hy : Deleted pat l y) : x = y := by
  induction hx generalizing y with
  | rest h =>
      cases hy with
      | rest => rfl
      | @cut before after =>
          exact absurd ⟨before, after, List.append_assoc before pat after⟩ h
  | @cut before after out hfirst hrest ih =>
      generalize hl : before ++ (pat ++ after) = l at hy hfirst
      cases hy with
      | rest h =>
          rw [← hl] at h
          exact absurd ⟨before, after, List.append_assoc before pat after⟩ h
      | @cut before' after' out' hfirst' hrest' =>
          have hstarts (front back : List α) : pat <+: (front ++ (pat ++ back)).drop front.length := by
            rw [List.drop_left]
            exact List.prefix_append pat back
          -- neither of the two leftmost occurrences lies before the other
          have hlen : before.length = before'.length := by
            rcases Nat.lt_trichotomy before.length before'.length with hlt | heq | hgt
            · exact absurd (hl ▸ hstarts before after) (hfirst' _ hlt)
            · exact heq
            · exact absurd (hstarts before' after') (hfirst _ hgt)
          obtain ⟨rfl, hrest''⟩ := List.append_inj hl hlen
          obtain rfl := List.append_cancel_left hrest''
          rw [ih hrest']

end Deleted

section Loop

variable [DecidableEq α]

def findSub (pat : List α) : List α → Option Nat
  | [] => if pat = [] then some 0 else none
  | a :: l => if pat <+: a :: l then some 0 else (findSub pat l).map (· + 1)

/-- The occurrences are looked for one after the other, each behind the last, and what lies between
them is put together. -/
def deleteLoop (pat : List α) : Nat → List α → List α → List α
  | 0, rest, out => out ++ rest
  | fuel + 1, rest, out =>
      match findSub pat rest with
      | some i => deleteLoop pat fuel (rest.drop (i + pat.length)) (out ++ rest.take i)
      | none => out ++ rest

theorem findSub_some {l : List α} {i : Nat} (h : findSub pat l = some i) :
    l = l.take i ++ (pat ++ l.drop (i + pat.length)) ∧ ∀ j < i, ¬pat <+: l.drop j := by
  induction l generalizing i with
  | nil =>
      rw [findSub] at h
      split at h
      next hpat =>
          obtain rfl := Option.some.inj h
          simp [hpat]
      next => cases h
  | cons a l ih =>
      rw [findSub] at h
      split at h
      next hpre =>
          obtain rfl := Option.some.inj h
          refine ⟨?_, fun j hj => absurd hj (Nat.not_lt_zero j)⟩
          rw [List.take_zero, List.nil_append, Nat.zero_add]
          exact (List.prefix_iff_eq_append.mp hpre).symm
      next hpre =>
          obtain ⟨k, hk, rfl⟩ := Option.map_eq_some_iff.mp h
          obtain ⟨hsplit, hfirst⟩ := ih hk
          refine ⟨?_, fun j hj => ?_⟩
          · rw [List.take_succ_cons, Nat.add_right_comm, List.drop_succ_cons, List.cons_append]
            exact congrArg (List.cons a) hsplit
          · cases j with
            | zero => exact hpre
            | succ j => exact hfirst j (Nat.lt_of_succ_lt_succ hj)

theorem findSub_none {l : List α} (h : findSub pat l = none) : ¬pat <:+: l := by
  induction l with
  | nil =>
      rw [findSub] at h
      split at h
      next => cases h
      next hpat => rwa [List.infix_nil]
  | cons a l ih =>
      rw [findSub] at h
      split at h
      next => cases h
      next hpre =>
          rw [List.infix_cons_iff, not_or]
          exact ⟨hpre, ih (Option.map_eq_none_iff.mp h)⟩

omit [DecidableEq α] in
theorem eq_or_behind {front back before after : List α} (hpat : ∀ a ∈ pat.head?, a ∉ pat.tail)
    (h : front ++ (pat ++ back) = before ++ (pat ++ after)) (hle : front.length ≤ before.length) :
    (before = front ∧ after = back) ∨ ∃ mid, before = front ++ (pat ++ mid) ∧ back = mid ++ (pat ++ after) := by
  obtain ⟨between, rfl⟩ : front <+: before := List.prefix_of_prefix_length_le ⟨_, h⟩ ⟨_, rfl⟩ hle
  rw [List.append_assoc] at h
  have h := List.append_cancel_left h
  rcases List.append_eq_append_iff.mp h with ⟨mid, rfl, hback⟩ | ⟨overlap, rfl, hrest⟩
  · exact .inr ⟨mid, rfl, hback⟩
  · match between, overlap with
    | [], overlap =>
        rw [List.append_nil]
        exact .inl ⟨rfl, List.append_cancel_left hrest⟩
    | between, [] => exact .inr ⟨[], by simp, by simpa using hrest.symm⟩
    | a :: between, b :: overlap =>
        obtain ⟨rfl, -⟩ := List.cons.inj hrest
        exact absurd (List.mem_append_right between List.mem_cons_self) (hpat a rfl)

theorem deleted_deleteLoop (hpat : pat ≠ []) {fuel : Nat} {rest : List α} (hfuel : rest.length ≤ fuel)
    (out : List α) : ∃ left, deleteLoop pat fuel rest out = out ++ left ∧ Deleted pat rest left := by
  induction fuel generalizing rest out with
  | zero =>
      obtain rfl := List.length_eq_zero_iff.mp (Nat.le_zero.mp hfuel)
      exact ⟨[], rfl, .rest fun h => hpat (List.infix_nil.mp h)⟩
  | succ fuel ih =>
      rw [deleteLoop]
      split
      next i hi =>
          obtain ⟨hsplit, hfirst⟩ := findSub_some hi
          have hpos : 0 < pat.length := List.length_pos_iff.mpr hpat
          have hlen := congrArg List.length hsplit
          rw [List.length_append, List.length_append] at hlen
          have hshort : (rest.drop (i + pat.length)).length ≤ fuel := by omega
          obtain ⟨left, hloop, hleft⟩ := ih hshort (out ++ rest.take i)
          have hcut : Deleted pat (rest.take i ++ (pat ++ rest.drop (i + pat.length))) (rest.take i ++ left) := by
            refine .cut (fun j hj => ?_) hleft
            rw [← hsplit]
            exact hfirst j (Nat.lt_of_lt_of_le hj (List.length_take_le i rest))
          rw [← hsplit] at hcut
          exact ⟨rest.take i ++ left, by rw [hloop, List.append_assoc], hcut⟩
      next hnone => exact ⟨rest, rfl, .rest (findSub_none hnone)⟩

end Loop

end RichPresence.Lib
