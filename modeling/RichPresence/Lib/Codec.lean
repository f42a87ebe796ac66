import Mathlib.Algebra.Group.Nat.Defs
import Mathlib.Data.List.Basic

namespace RichPresence.Lib

variable {α β : Type}

/-- A code that is read off the front of a text in one way only, whatever stands
behind it. -/
def Separable (D : α → Prop) (code : α → List β) : Prop :=
  ∀ ⦃a b r s⦄, D a → D b → code a ++ r = code b ++ s → a = b ∧ r = s

namespace Separable

variable {D : α → Prop} {code : α → List β}

theorem of_length {n : Nat} (hlen : ∀ a, (code a).length = n)
    (hinj : ∀ a b, D a → D b → code a = code b → a = b) : Separable D code := by
  intro a b r s ha hb h
  obtain ⟨hcode, hrest⟩ := List.append_inj h ((hlen a).trans (hlen b).symm)
  exact ⟨hinj a b ha hb hcode, hrest⟩

theorem inj (h : Separable D code) {a b : α} (ha : D a) (hb : D b) (heq : code a = code b) : a = b :=
  (h ha hb (congrArg (· ++ []) heq)).1

theorem cons {head : β} (h : Separable D code) : Separable D fun a => head :: code a := by
  intro a b r s ha hb heq
  exact h ha hb (List.cons.inj heq).2

theorem items (h : Separable D code) {xs ys : List α} {r s : List β} (hlen : xs.length = ys.length)
    (hxs : ∀ x ∈ xs, D x) (hys : ∀ y ∈ ys, D y) (heq : xs.flatMap code ++ r = ys.flatMap code ++ s) :
    xs = ys ∧ r = s := by
  induction xs generalizing ys with
  | nil =>
      obtain rfl := List.length_eq_zero_iff.mp hlen.symm
      exact ⟨rfl, heq⟩
  | cons x xs ih =>
      cases ys with
      | nil => cases hlen
      | cons y ys =>
          rw [List.forall_mem_cons] at hxs hys
          rw [List.flatMap_cons, List.flatMap_cons, List.append_assoc, List.append_assoc] at heq
          obtain ⟨rfl, hrest⟩ := h hxs.1 hys.1 heq
          obtain ⟨rfl, hrs⟩ := ih (Nat.succ.inj hlen) hxs.2 hys.2 hrest
          exact ⟨rfl, hrs⟩

theorem counted {N : Nat → Prop} {count : Nat → List β} (hcount : Separable N count) (h : Separable D code) :
    Separable (fun xs : List α => N xs.length ∧ ∀ x ∈ xs, D x) fun xs => count xs.length ++ xs.flatMap code := by
  intro xs ys r s hxs hys heq
  rw [List.append_assoc, List.append_assoc] at heq
  obtain ⟨hlen, hrest⟩ := hcount hxs.1 hys.1 heq
  exact h.items hlen hxs.2 hys.2 hrest

end Separable

def Clash (xs ys : List β) : Prop := ¬xs <+: ys ∧ ¬ys <+: xs

instance [DecidableEq β] (xs ys : List β) : Decidable (Clash xs ys) :=
  inferInstanceAs (Decidable (¬xs <+: ys ∧ ¬ys <+: xs))

theorem Clash.append_ne {xs ys : List β} (h : Clash xs ys) (r s : List β) : xs ++ r ≠ ys ++ s := by
  intro heq
  rcases List.prefix_or_prefix_of_prefix (List.prefix_append xs r) (heq ▸ List.prefix_append ys s) with hp | hp
  · exact h.1 hp
  · exact h.2 hp

section After

variable (count : Nat → List β) (code : α → List β)

/-- No item of the list can be taken for the number of those before it, where the
first stands behind `n` others. -/
def Unmistakable (n : Nat) : List α → Prop
  | [] => True
  | x :: xs => Clash (count n) (code x) ∧ Unmistakable (n + 1) xs

instance Unmistakable.decidable [DecidableEq β] : (n : Nat) → (xs : List α) → Decidable (Unmistakable count code n xs)
  | _, [] => isTrue trivial
  | n, x :: xs =>
      have := Unmistakable.decidable (n + 1) xs
      inferInstanceAs (Decidable (Clash (count n) (code x) ∧ Unmistakable count code (n + 1) xs))

variable {count code} {D : α → Prop} {N : Nat → Prop}

theorem Separable.countedAfter (hcount : Separable N count) (h : Separable D code) {n : Nat} {xs ys : List α}
    {r s : List β} (hxs : N (n + xs.length) ∧ ∀ x ∈ xs, D x) (hys : N (n + ys.length) ∧ ∀ y ∈ ys, D y)
    (hx : Unmistakable count code n xs) (hy : Unmistakable count code n ys)
    (heq : xs.flatMap code ++ (count (n + xs.length) ++ r) = ys.flatMap code ++ (count (n + ys.length) ++ s)) :
    xs = ys ∧ r = s := by
  induction xs generalizing n ys with
  | nil =>
      cases ys with
      | nil => exact ⟨rfl, (hcount hxs.1 hys.1 heq).2⟩
      | cons y ys =>
          rw [List.flatMap_cons, List.append_assoc] at heq
          exact absurd heq (hy.1.append_ne _ _)
  | cons x xs ih =>
      cases ys with
      | nil =>
          rw [List.flatMap_cons, List.append_assoc] at heq
          exact absurd heq.symm (hx.1.append_ne _ _)
      | cons y ys =>
          have hshift (zs : List α) : n + (zs.length + 1) = n + 1 + zs.length := by omega
          simp only [List.length_cons, hshift, List.forall_mem_cons] at hxs hys
          simp only [List.flatMap_cons, List.append_assoc, List.length_cons, hshift] at heq
          obtain ⟨rfl, hrest⟩ := h hxs.2.1 hys.2.1 heq
          obtain ⟨rfl, hrs⟩ := ih ⟨hxs.1, hxs.2.2⟩ ⟨hys.1, hys.2.2⟩ hx.2 hy.2 hrest
          exact ⟨rfl, hrs⟩

end After

theorem Separable.terminated {code : α → List β} {mark : β} (hmark : ∀ a, mark ∉ code a)
    (hinj : Function.Injective code) : Separable (fun _ => True) fun a => code a ++ [mark] := by
  have hcut (xs ys r s : List β) (hxs : mark ∉ xs) (hys : mark ∉ ys)
      (heq : xs ++ mark :: r = ys ++ mark :: s) : xs = ys ∧ r = s := by
    induction xs generalizing ys with
    | nil =>
        cases ys with
        | nil => exact ⟨rfl, (List.cons.inj heq).2⟩
        | cons y ys => exact absurd (List.mem_cons.mpr (.inl (List.cons.inj heq).1)) hys
    | cons x xs ih =>
        cases ys with
        | nil => exact absurd (List.mem_cons.mpr (.inl (List.cons.inj heq).1.symm)) hxs
        | cons y ys =>
            obtain ⟨rfl, htail⟩ := List.cons.inj heq
            obtain ⟨rfl, hrs⟩ := ih ys (fun h => hxs (List.mem_cons_of_mem _ h))
              (fun h => hys (List.mem_cons_of_mem _ h)) htail
            exact ⟨rfl, hrs⟩
  intro a b r s _ _ heq
  simp only [List.append_assoc, List.singleton_append] at heq
  obtain ⟨hcode, hrs⟩ := hcut _ _ _ _ (hmark a) (hmark b) heq
  exact ⟨hinj hcode, hrs⟩

def leBytes : Nat → Nat → List UInt8
  | 0, _ => []
  | width + 1, n => UInt8.ofNat n :: leBytes width (n / 256)

theorem length_leBytes (width n : Nat) : (leBytes width n).length = width := by
  induction width generalizing n with
  | zero => rfl
  | succ width ih => rw [leBytes, List.length_cons, ih]

theorem leBytes_inj {width m n : Nat} (hm : m < 256 ^ width) (hn : n < 256 ^ width)
    (h : leBytes width m = leBytes width n) : m = n := by
  induction width generalizing m n with
  | zero => omega
  | succ width ih =>
      rw [leBytes, leBytes, List.cons.injEq] at h
      have hlow := congrArg UInt8.toNat h.1
      have hhigh : m / 256 = n / 256 := by
        refine ih ?_ ?_ h.2
        · exact Nat.div_lt_of_lt_mul (by rwa [Nat.pow_succ, Nat.mul_comm] at hm)
        · exact Nat.div_lt_of_lt_mul (by rwa [Nat.pow_succ, Nat.mul_comm] at hn)
      simp only [UInt8.toNat_ofNat'] at hlow
      omega

/-- The number a row of bytes stands for, the lowest first. -/
def leValue : List UInt8 → Nat
  | [] => 0
  | b :: rest => b.toNat + 256 * leValue rest

theorem leValue_leBytes {width n : Nat} (hn : n < 256 ^ width) : leValue (leBytes width n) = n := by
  induction width generalizing n with
  | zero =>
      rw [Nat.pow_zero] at hn
      rw [leBytes, leValue]
      omega
  | succ width ih =>
      have hrest : n / 256 < 256 ^ width := by
        rw [Nat.pow_succ] at hn
        omega
      rw [leBytes, leValue, ih hrest, UInt8.toNat_ofNat']
      omega

theorem separable_leBytes (width : Nat) : Separable (· < 256 ^ width) (leBytes width) :=
  .of_length (length_leBytes width) fun _ _ => leBytes_inj

end RichPresence.Lib
