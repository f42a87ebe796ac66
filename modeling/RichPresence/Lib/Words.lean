import Mathlib.Data.List.Basic
import Mathlib.Data.List.Induction

namespace RichPresence.Lib

variable {α : Type} {p q s : α → Bool} {x : List α}

/-- The pieces between separators, without the empty ones. -/
def words (p : α → Bool) (x : List α) : List (List α) := (x.splitOnP p).filter (!·.isEmpty)

theorem splitOnP_map {f : α → α} (hf : ∀ a, p (f a) = false → f a = a) (x : List α) :
    (x.map f).splitOnP p = x.splitOnP fun a => p (f a) := by
  induction x with
  | nil => rw [List.map_nil, List.splitOnP_nil, List.splitOnP_nil]
  | cons a x ih =>
      rw [List.map_cons, List.splitOnP_cons_eq_if_modifyHead, List.splitOnP_cons_eq_if_modifyHead, ih]
      split
      · rfl
      next h => rw [hf a (eq_false_of_ne_true h)]

theorem splitOnP_congr (h : ∀ a ∈ x, p a = q a) : x.splitOnP p = x.splitOnP q := by
  induction x with
  | nil => rw [List.splitOnP_nil, List.splitOnP_nil]
  | cons a x ih =>
      rw [List.splitOnP_cons_eq_if_modifyHead, List.splitOnP_cons_eq_if_modifyHead, h a (List.mem_cons_self ..),
        ih fun b hb => h b (List.mem_cons_of_mem _ hb)]

theorem of_mem_splitOnP {w : List α} (hw : w ∈ x.splitOnP p) {a : α} (ha : a ∈ w) : a ∈ x ∧ p a = false := by
  induction x generalizing w with
  | nil =>
      rw [List.splitOnP_nil, List.mem_singleton] at hw
      rw [hw] at ha
      cases ha
  | cons b x ih =>
      rw [List.splitOnP_cons_eq_if_modifyHead] at hw
      split at hw
      · rcases List.mem_cons.mp hw with rfl | hw
        · cases ha
        · exact (ih hw ha).imp_left (List.mem_cons_of_mem b)
      next hb =>
        cases hx : x.splitOnP p with
        | nil => exact absurd hx (List.splitOnP_ne_nil p x)
        | cons head rest =>
            rw [hx, List.modifyHead_cons] at hw
            rcases List.mem_cons.mp hw with rfl | hw
            · rcases List.mem_cons.mp ha with rfl | ha
              · exact ⟨List.mem_cons_self, eq_false_of_ne_true hb⟩
              · exact (ih (by rw [hx]; exact List.mem_cons_self ..) ha).imp_left (List.mem_cons_of_mem b)
            · exact (ih (by rw [hx]; exact List.mem_cons_of_mem _ hw) ha).imp_left (List.mem_cons_of_mem b)

theorem splitOnP_refine (h : ∀ a, p a = true → q a = true) (x : List α) :
    x.splitOnP q = (x.splitOnP p).flatMap fun w => w.splitOnP q := by
  induction x with
  | nil => simp [List.splitOnP_nil]
  | cons a x ih =>
      rw [List.splitOnP_cons_eq_if_modifyHead, List.splitOnP_cons_eq_if_modifyHead, ih]
      by_cases hp : p a = true
      · rw [if_pos (h a hp), if_pos hp, List.flatMap_cons, List.splitOnP_nil, List.singleton_append]
      · rw [if_neg hp]
        cases hx : x.splitOnP p with
        | nil => exact absurd hx (List.splitOnP_ne_nil p x)
        | cons head rest =>
            rw [List.modifyHead_cons, List.flatMap_cons, List.flatMap_cons, List.splitOnP_cons_eq_if_modifyHead]
            split
            · rfl
            · cases hh : head.splitOnP q with
              | nil => exact absurd hh (List.splitOnP_ne_nil q head)
              | cons first more => rfl

theorem words_nil (p : α → Bool) : words p [] = [] := by
  rw [words, List.splitOnP_nil]
  rfl

theorem words_cons_sep {a : α} (ha : p a = true) (x : List α) : words p (a :: x) = words p x := by
  rw [words, List.splitOnP_cons_eq_if_modifyHead, if_pos ha, List.filter_cons_of_neg (by simp)]
  rfl

theorem words_concat_sep {a : α} (ha : p a = true) (x : List α) : words p (x ++ [a]) = words p x := by
  rw [words, List.splitOnP_append_cons _ _ ha, List.splitOnP_nil, List.filter_append,
    List.filter_cons_of_neg (by simp), List.filter_nil, List.append_nil]
  rfl

theorem words_dropWhile (h : ∀ a, q a = true → p a = true) (x : List α) : words p (x.dropWhile q) = words p x := by
  induction x with
  | nil => rfl
  | cons a x ih =>
      rw [List.dropWhile_cons]
      split
      next ha => rw [ih, words_cons_sep (h a ha)]
      next => rfl

theorem words_reverse_dropWhile (h : ∀ a, q a = true → p a = true) (x : List α) :
    words p (x.reverse.dropWhile q).reverse = words p x := by
  induction x using List.reverseRecOn with
  | nil => rfl
  | append_singleton x a ih =>
      rw [List.reverse_concat, List.dropWhile_cons]
      split
      next ha => rw [ih, words_concat_sep (h a ha)]
      next => rw [List.reverse_cons, List.reverse_reverse]

theorem words_refine (h : ∀ a, p a = true → q a = true) (x : List α) : words q x = (words p x).flatMap (words q) := by
  rw [words, splitOnP_refine h, List.filter_flatMap, words]
  induction x.splitOnP p with
  | nil => rfl
  | cons w ws ih =>
      rw [List.flatMap_cons, ih]
      cases w with
      | nil =>
          rw [List.filter_cons_of_neg (by simp)]
          exact congrArg (· ++ _) (words_nil q)
      | cons a w => rw [List.filter_cons_of_pos (by simp), List.flatMap_cons]; rfl

theorem words_intercalate {sep : α} (hsep : q sep = true) (ws : List (List α)) :
    words q ([sep].intercalate ws) = ws.flatMap (words q) := by
  induction ws with
  | nil => exact words_nil q
  | cons w ws ih =>
      cases ws with
      | nil => simp [List.intercalate]
      | cons v ws =>
          have hcons : [sep].intercalate (w :: v :: ws) = w ++ sep :: [sep].intercalate (v :: ws) := by
            simp [List.intercalate]
          rw [hcons, words, List.splitOnP_append_cons _ _ hsep, List.filter_append, List.flatMap_cons]
          exact congrArg (words q w ++ ·) ih

theorem words_of_words {sep : α} (hsep : q sep = true) (hs : ∀ a, s a = (p a || q a)) (x : List α) :
    words q ([sep].intercalate (words p x)) = words s x := by
  rw [words_intercalate hsep, words_refine (p := p) (q := s) (fun a ha => by rw [hs, ha, Bool.true_or]) x]
  refine List.flatMap_congr fun w hw => ?_
  rw [words, words, splitOnP_congr]
  intro a ha
  rw [hs, (of_mem_splitOnP (List.mem_filter.mp hw).1 ha).2, Bool.false_or]

theorem intercalate_words_again {sep : α} (hsep : p sep = true) (x : List α) :
    [sep].intercalate (words p ([sep].intercalate (words p x))) = [sep].intercalate (words p x) := by
  rw [words_of_words hsep (s := p) (fun a => (Bool.or_self _).symm) x]

end RichPresence.Lib
