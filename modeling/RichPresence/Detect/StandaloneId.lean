import Mathlib.Data.List.TakeWhile
import RichPresence.Detect.Classify

namespace RichPresence.Detect

open Lib

/-- A token at a word boundary with a digit behind it: the text before it, all of the digits, and
what comes after them. -/
structure Standalone (args before digits after : Path) : Prop where
  split : args = before ++ (appIdToken ++ (digits ++ after))
  boundary : ∀ c ∈ before.getLast?, c.isAlphanum = false
  nonempty : digits ≠ []
  digit : ∀ c ∈ digits, c.isDigit = true
  maximal : ∀ c ∈ after.head?, c.isDigit = false

/-- No other token of this kind starts further to the left. -/
def Leftmost (args before : Path) : Prop :=
  ∀ before' digits' after', Standalone args before' digits' after' → before.length ≤ before'.length

variable {args front back before digits after : Path}

theorem Standalone.takeWhile_eq (h : Standalone args before digits after) :
    (digits ++ after).takeWhile Char.isDigit = digits := by
  have hafter : after.takeWhile Char.isDigit = [] := by
    cases hc : after with
    | nil => rfl
    | cons c rest => rw [List.takeWhile_cons_of_neg (by simp [h.maximal c (by rw [hc]; rfl)])]
  rw [List.takeWhile_append_of_pos h.digit, hafter, List.append_nil]

theorem standalone_takeWhile (hboundary : ∀ c ∈ front.getLast?, c.isAlphanum = false)
    (hdigit : 0 < (back.takeWhile Char.isDigit).length) :
    Standalone (front ++ (appIdToken ++ back)) front (back.takeWhile Char.isDigit) (back.dropWhile Char.isDigit) where
  split := by rw [List.takeWhile_append_dropWhile]
  boundary := hboundary
  nonempty := List.length_pos_iff.mp hdigit
  digit := fun c hc => List.mem_takeWhile_imp hc
  maximal := fun c hc => by
    have hhead := List.head?_dropWhile_not Char.isDigit back
    rw [Option.mem_def.mp hc] at hhead
    simpa using hhead

theorem boundary_behind (front mid : Path) :
    (∀ c ∈ (front ++ (appIdToken ++ mid)).getLast?, c.isAlphanum = false) ↔
      ∀ c ∈ mid.getLast?, c.isAlphanum = false := by
  have htoken : appIdToken.getLast? = some '=' := rfl
  rw [List.getLast?_append, List.getLast?_append, htoken]
  cases mid.getLast? with
  | none => simp
  | some c => simp

theorem standalone_behind {mid : Path} :
    Standalone (front ++ (appIdToken ++ back)) (front ++ (appIdToken ++ mid)) digits after ↔
      Standalone back mid digits after := by
  constructor
  · intro h
    refine ⟨?_, (boundary_behind front mid).mp h.boundary, h.nonempty, h.digit, h.maximal⟩
    have hsplit := h.split
    rw [List.append_assoc, List.append_assoc] at hsplit
    exact List.append_cancel_left (List.append_cancel_left hsplit)
  · intro h
    refine ⟨?_, (boundary_behind front mid).mpr h.boundary, h.nonempty, h.digit, h.maximal⟩
    rw [List.append_assoc, List.append_assoc, ← h.split]

theorem head_notMem_tail : ∀ a ∈ appIdToken.head?, a ∉ appIdToken.tail := by
  intro a ha
  obtain rfl : 'A' = a := Option.some.inj ha
  decide

section Turn

variable {rest : Path} {pos : Nat} (hpos : findSub appIdToken rest = some pos)

include hpos

theorem Standalone.cases (h : Standalone rest before digits after) :
    before = rest.take pos ∨ ∃ mid, before = rest.take pos ++ (appIdToken ++ mid) ∧
      Standalone (rest.drop (pos + appIdToken.length)) mid digits after := by
  obtain ⟨hsplit, hfirst⟩ := findSub_some hpos
  have hle : (rest.take pos).length ≤ before.length := by
    by_contra hlt
    have hbefore : before.length < pos := by
      have := List.length_take_le pos rest
      omega
    apply hfirst before.length hbefore
    rw [h.split, List.drop_left]
    exact List.prefix_append _ _
  generalize rest.take pos = front at hsplit hle ⊢
  generalize rest.drop (pos + appIdToken.length) = back at hsplit ⊢
  rw [hsplit] at h
  rcases eq_or_behind head_notMem_tail h.split hle with ⟨rfl, -⟩ | ⟨mid, rfl, -⟩
  · exact .inl rfl
  · exact .inr ⟨mid, rfl, standalone_behind.mp h⟩

theorem appIdLoop_turn (fuel : Nat) :
    (∃ digits after, Standalone rest (rest.take pos) digits after ∧ appIdLoop (fuel + 1) rest = some digits) ∨
      (∀ digits after, ¬Standalone rest (rest.take pos) digits after) ∧
        appIdLoop (fuel + 1) rest = appIdLoop fuel (rest.drop (pos + appIdToken.length)) := by
  obtain ⟨hsplit, -⟩ := findSub_some hpos
  generalize hfront : rest.take pos = front at hsplit ⊢
  generalize hback : rest.drop (pos + appIdToken.length) = back at hsplit ⊢
  have hboundary : (pos == 0 || front.getLast?.all fun c => !c.isAlphanum) = true ↔
      ∀ c ∈ front.getLast?, c.isAlphanum = false := by
    cases pos with
    | zero =>
        obtain rfl := hfront
        simp
    | succ pos =>
        rw [show (pos + 1 == 0) = false from rfl, Bool.false_or]
        cases front.getLast? with
        | none => simp
        | some c => simp
  rw [appIdLoop, hpos]
  simp only [hfront, hback]
  by_cases hb : ∀ c ∈ front.getLast?, c.isAlphanum = false
  · rw [hboundary.mpr hb]
    simp only [Bool.not_true, Bool.false_eq_true, if_false]
    split
    next hdigit =>
      rw [hsplit]
      exact .inl ⟨_, _, standalone_takeWhile hb hdigit, rfl⟩
    next hdigit =>
      refine .inr ⟨fun digits after h => hdigit ?_, rfl⟩
      have hrest : digits ++ after = back :=
        List.append_cancel_left (List.append_cancel_left (h.split.symm.trans hsplit))
      rw [← hrest, h.takeWhile_eq]
      exact List.length_pos_iff.mpr h.nonempty
  · rw [Bool.eq_false_iff.mpr fun h => hb (hboundary.mp h)]
    exact .inr ⟨fun digits after h => hb h.boundary, rfl⟩

theorem Standalone.ahead {mid : Path} (h : Standalone (rest.drop (pos + appIdToken.length)) mid digits after) :
    Standalone rest (rest.take pos ++ (appIdToken ++ mid)) digits after := by
  obtain ⟨hsplit, -⟩ := findSub_some hpos
  generalize rest.take pos = front at hsplit ⊢
  generalize rest.drop (pos + appIdToken.length) = back at hsplit h
  rw [hsplit]
  exact standalone_behind.mpr h

end Turn

theorem Standalone.digits_unique {digits' after' : Path} (h : Standalone args before digits after)
    (h' : Standalone args before digits' after') : digits = digits' := by
  have hrest : digits ++ after = digits' ++ after' :=
    List.append_cancel_left (List.append_cancel_left (h.split.symm.trans h'.split))
  rw [← h.takeWhile_eq, hrest, h'.takeWhile_eq]

theorem appIdLoop_of_leftmost {fuel : Nat} (hfuel : args.length ≤ fuel) (h : Standalone args before digits after)
    (hleft : Leftmost args before) : appIdLoop fuel args = some digits := by
  have htoken : 0 < appIdToken.length := by decide
  induction fuel generalizing args before with
  | zero =>
      have hlen := congrArg List.length h.split
      simp only [List.length_append] at hlen
      omega
  | succ fuel ih =>
      cases hpos : findSub appIdToken args with
      | none => exact absurd ⟨before, digits ++ after, by rw [h.split, List.append_assoc]⟩ (findSub_none hpos)
      | some pos =>
          rcases appIdLoop_turn hpos fuel with ⟨digits', after', hfound, hloop⟩ | ⟨hnone, hloop⟩
          · rcases h.cases hpos with rfl | ⟨mid, rfl, -⟩
            · rw [hloop, h.digits_unique hfound]
            · have hle := hleft _ _ _ hfound
              simp only [List.length_append] at hle
              omega
          · rcases h.cases hpos with rfl | ⟨mid, rfl, hmid⟩
            · exact absurd h (hnone digits after)
            · rw [hloop]
              refine ih ?_ hmid fun before' digits' after' h' => ?_
              · rw [List.length_drop]
                omega
              · have hle := hleft _ _ _ (h'.ahead hpos)
                simp only [List.length_append] at hle
                omega

theorem appIdLoop_of_none (fuel : Nat) (h : ∀ before digits after, ¬Standalone args before digits after) :
    appIdLoop fuel args = none := by
  induction fuel generalizing args with
  | zero => rfl
  | succ fuel ih =>
      cases hpos : findSub appIdToken args with
      | none => rw [appIdLoop, hpos]
      | some pos =>
          rcases appIdLoop_turn hpos fuel with ⟨digits, after, hfound, -⟩ | ⟨-, hloop⟩
          · exact absurd hfound (h _ _ _)
          · rw [hloop]
            exact ih fun mid digits after hmid => h _ _ _ (hmid.ahead hpos)

/-- The id on a command line is the number behind the leftmost token that stands by itself. -/
theorem appIdFromArgs_leftmost (args : String) :
    (∀ before digits after, Standalone args.toList before digits after → Leftmost args.toList before →
      appIdFromArgs (some args) = some ⟨String.ofList digits⟩) ∧
    ((∀ before digits after, ¬Standalone args.toList before digits after) → appIdFromArgs (some args) = none) := by
  constructor
  · intro before digits after h hleft
    have hloop := appIdLoop_of_leftmost (Nat.le_refl _) h hleft
    rw [appIdFromArgs, Option.bind_eq_bind, Option.bind_some, hloop]
    rfl
  · intro h
    rw [appIdFromArgs, Option.bind_eq_bind, Option.bind_some, appIdLoop_of_none _ h]
    rfl

example : appIdFromArgs (some "reaper MyAppId=1 AppId=x AppId=4508340z") = some ⟨"4508340"⟩ := by decide +kernel

end RichPresence.Detect
