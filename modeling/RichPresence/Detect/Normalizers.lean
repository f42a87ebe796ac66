import RichPresence.Detect.Bundle
import RichPresence.Lib.Words

namespace RichPresence.Detect

open Lib

def cleared {α : Type} (_ : List α) : List α := []

/-- Words are appended one by one with a blank between them. -/
def pushWords (out : Path) (pieces : List Path) : Path :=
  pieces.zipIdx.foldl (fun out word => (if word.2 > 0 then out ++ [' '] else out) ++ word.1) out

def normalizeInto (separator : Char → Bool) (name out : Path) : Path :=
  pushWords (cleared out) (words separator name)

def normalizeLoweredInto : Path → Path → Path :=
  normalizeInto fun c => isWhiteSpace c || forbiddenNameChars.contains c

def normalizeLoweredDedottedInto : Path → Path → Path :=
  normalizeInto fun c => isWhiteSpace c || c = '.' || forbiddenNameChars.contains c

/-- The name is trimmed and lowered into one buffer and normalized from there into the other. -/
def normalizeNameInto (name lowered out : Path) : Path × Path :=
  let lowered := cleared lowered ++ lower (trim name)
  (lowered, normalizeLoweredInto lowered out)

theorem pushWords_later (pieces : List Path) (out : Path) {n : Nat} (hn : 0 < n) :
    (pieces.zipIdx n).foldl (fun out word => (if word.2 > 0 then out ++ [' '] else out) ++ word.1) out =
      out ++ pieces.flatMap (' ' :: ·) := by
  induction pieces generalizing out n with
  | nil => exact (List.append_nil out).symm
  | cons word pieces ih =>
      rw [List.zipIdx_cons, List.foldl_cons, ih _ (Nat.succ_pos n), if_pos hn]
      simp

theorem append_flatMap_eq_intercalate (word : Path) (pieces : List Path) :
    word ++ pieces.flatMap (' ' :: ·) = [' '].intercalate (word :: pieces) := by
  induction pieces generalizing word with
  | nil => simp [List.intercalate]
  | cons next pieces ih =>
      rw [List.flatMap_cons, List.intercalate_cons_cons, ← ih next, List.append_assoc]
      rfl

theorem pushWords_nil (pieces : List Path) : pushWords [] pieces = [' '].intercalate pieces := by
  cases pieces with
  | nil => rfl
  | cons word pieces =>
      rw [pushWords, List.zipIdx_cons, List.foldl_cons, if_neg (Nat.lt_irrefl 0),
        pushWords_later pieces _ (Nat.succ_pos 0), List.nil_append, append_flatMap_eq_intercalate]

theorem normalizeLoweredInto_eq (name out : Path) : normalizeLoweredInto name out = normalizeLowered name :=
  pushWords_nil _

theorem normalizeLoweredDedottedInto_eq (name out : Path) :
    normalizeLoweredDedottedInto name out = normalizeLoweredDedotted name :=
  pushWords_nil _

theorem joinWords_splitOnP (p : Char → Bool) (x : Path) : joinWords (x.splitOnP p) = [' '].intercalate (words p x) :=
  rfl

theorem isWhiteSpace_space : isWhiteSpace ' ' = true := by decide

theorem splitOnP_blanked (f : Char → Bool) (x : Path) :
    (x.map fun c => if f c then ' ' else c).splitOnP isWhiteSpace = x.splitOnP fun c => isWhiteSpace c || f c := by
  rw [splitOnP_map]
  · refine splitOnP_congr fun c _ => ?_
    by_cases hc : f c = true
    · rw [if_pos hc, isWhiteSpace_space, hc, Bool.or_true]
    · rw [if_neg hc, eq_false_of_ne_true hc, Bool.or_false]
  · intro c hc
    by_cases hf : f c = true
    · rw [if_pos hf, isWhiteSpace_space] at hc
      cases hc
    · rw [if_neg hf]

theorem toLower_cases (c : Char) :
    c.toLower = c ∨ 65 ≤ c.toNat ∧ c.toNat ≤ 90 ∧ c.toLower.toNat = c.toNat + 32 := by
  by_cases hc : c.val ≥ 'A'.val ∧ c.val ≤ 'Z'.val
  · right
    have hlower : c.toLower.toNat = (c.val + 32).toNat := congrArg UInt32.toNat (val_toLower hc)
    obtain ⟨hlow, hhigh⟩ := hc
    rw [ge_iff_le, UInt32.le_iff_toNat_le] at hlow
    rw [UInt32.le_iff_toNat_le] at hhigh
    have hA : ('A' : Char).val.toNat = 65 := rfl
    have hZ : ('Z' : Char).val.toNat = 90 := rfl
    have hval : c.toNat = c.val.toNat := rfl
    rw [UInt32.toNat_add] at hlower
    have h32 : (32 : UInt32).toNat = 32 := rfl
    omega
  · exact .inl (toLower_of_not_upper hc)

theorem isWhiteSpace_toLower (c : Char) : isWhiteSpace c.toLower = isWhiteSpace c := by
  rcases toLower_cases c with h | ⟨hlow, hhigh, hlower⟩
  · rw [h]
  · have hfalse (d : Char) (h : 65 ≤ d.toNat ∧ d.toNat ≤ 122) : isWhiteSpace d = false := by
      simp only [isWhiteSpace, List.contains_cons, List.contains_nil, Bool.or_eq_false_iff, Bool.and_eq_false_iff,
        decide_eq_false_iff_not, beq_eq_false_iff_ne, and_true]
      omega
    rw [hfalse c ⟨hlow, by omega⟩, hfalse c.toLower (by omega)]

theorem lower_trim (x : Path) : lower (trim x) = trim (lower x) := by
  have hfold : isWhiteSpace ∘ Char.toLower = isWhiteSpace := funext isWhiteSpace_toLower
  rw [lower, lower, trim, trim, List.map_reverse, ← hfold, ← List.dropWhile_map, List.map_reverse,
    ← List.dropWhile_map, hfold]

theorem words_trim {p : Char → Bool} (hp : ∀ c, isWhiteSpace c = true → p c = true) (x : Path) :
    words p (trim x) = words p x := by
  rw [trim, words_reverse_dropWhile hp, words_dropWhile hp]

theorem toList_normalizeName (name : String) :
    (normalizeName name).toList =
      [' '].intercalate (words (fun c => isWhiteSpace c || forbiddenNameChars.contains c) (lower name.toList)) := by
  rw [normalizeName, String.toList_ofList, splitOnP_blanked forbiddenNameChars.contains, joinWords_splitOnP,
    lower_trim, words_trim]
  intro c hc
  rw [hc, Bool.true_or]

theorem toList_dedot (name : String) :
    (dedot name).toList = [' '].intercalate (words (fun c => isWhiteSpace c || decide (c = '.')) name.toList) := by
  rw [dedot, String.toList_ofList, ← joinWords_splitOnP, ← splitOnP_blanked]
  simp only [decide_eq_true_eq]

theorem toList_dedot_normalizeName (name : String) :
    (dedot (normalizeName name)).toList = normalizeLoweredDedotted (lower name.toList) := by
  rw [toList_dedot, toList_normalizeName,
    words_of_words (s := fun c => isWhiteSpace c || decide (c = '.') || forbiddenNameChars.contains c),
    normalizeLoweredDedotted, joinWords_splitOnP]
  · rw [isWhiteSpace_space, Bool.true_or]
  · intro c
    cases isWhiteSpace c <;> cases decide (c = '.') <;> cases forbiddenNameChars.contains c <;> rfl

theorem normalizeNameInto_eq (name : String) (lowered out : Path) :
    (normalizeNameInto name.toList lowered out).2 = (normalizeName name).toList := by
  rw [normalizeNameInto, normalizeLoweredInto_eq, toList_normalizeName, normalizeLowered, joinWords_splitOnP, cleared,
    List.nil_append, lower_trim, words_trim]
  intro c hc
  rw [hc, Bool.true_or]

theorem normalizeLowered_lower (name : String) :
    normalizeLowered (lower name.toList) = (normalizeName name).toList := by
  rw [toList_normalizeName, normalizeLowered, joinWords_splitOnP]

theorem lower_eq_self {x : Path} (h : ∀ c ∈ x, c.toLower = c) : lower x = x :=
  (List.map_congr_left h).trans (List.map_id x)

theorem lower_intercalate_words (p : Char → Bool) (x : Path) :
    lower ([' '].intercalate (words p (lower x))) = [' '].intercalate (words p (lower x)) := by
  have hchar (w : Path) (hw : w ∈ words p (lower x)) (c : Char) (hc : c ∈ w) : c.toLower = c := by
    obtain ⟨hmem, -⟩ := of_mem_splitOnP (List.mem_filter.mp hw).1 hc
    obtain ⟨d, -, rfl⟩ := List.mem_map.mp hmem
    exact toLower_toLower d
  cases hwords : words p (lower x) with
  | nil => rfl
  | cons w ws =>
      rw [hwords] at hchar
      rw [← append_flatMap_eq_intercalate]
      refine lower_eq_self fun c hc => ?_
      rcases List.mem_append.mp hc with hc | hc
      · exact hchar w List.mem_cons_self c hc
      · obtain ⟨v, hv, hc⟩ := List.mem_flatMap.mp hc
        rcases List.mem_cons.mp hc with rfl | hc
        · decide
        · exact hchar v (List.mem_cons_of_mem _ hv) c hc

theorem normalizeName_again (name : String) : normalizeName (normalizeName name) = normalizeName name := by
  apply String.toList_inj.mp
  rw [toList_normalizeName (normalizeName name), toList_normalizeName, lower_intercalate_words,
    intercalate_words_again]
  rw [isWhiteSpace_space, Bool.true_or]

theorem normalizeLowered_again (name : Path) : normalizeLowered (normalizeLowered name) = normalizeLowered name := by
  rw [normalizeLowered, normalizeLowered, joinWords_splitOnP, joinWords_splitOnP, intercalate_words_again]
  rw [isWhiteSpace_space, Bool.true_or]

theorem normalizeLoweredDedotted_again (name : Path) :
    normalizeLoweredDedotted (normalizeLoweredDedotted name) = normalizeLoweredDedotted name := by
  rw [normalizeLoweredDedotted, normalizeLoweredDedotted, joinWords_splitOnP, joinWords_splitOnP,
    intercalate_words_again]
  rw [isWhiteSpace_space, Bool.true_or, Bool.true_or]

/-- Whatever the buffers hold, the normalizers that refill them give what their specifications give, and a
second pass changes nothing. -/
theorem normalizers_agree (name : String) (lowered out : Path) :
    ((normalizeNameInto name.toList lowered out).2 = (normalizeName name).toList ∧
      normalizeLoweredInto (lower name.toList) out = (normalizeName name).toList ∧
      normalizeLoweredDedottedInto (lower name.toList) out = (dedot (normalizeName name)).toList) ∧
    ∀ lowered' out',
      (normalizeNameInto (normalizeNameInto name.toList lowered out).2 lowered' out').2 =
          (normalizeNameInto name.toList lowered out).2 ∧
        normalizeLoweredInto (normalizeLoweredInto name.toList out) out' = normalizeLoweredInto name.toList out ∧
        normalizeLoweredDedottedInto (normalizeLoweredDedottedInto name.toList out) out' =
          normalizeLoweredDedottedInto name.toList out := by
  refine ⟨⟨normalizeNameInto_eq name lowered out, ?_, ?_⟩, fun lowered' out' => ⟨?_, ?_, ?_⟩⟩
  · rw [normalizeLoweredInto_eq, normalizeLowered_lower]
  · rw [normalizeLoweredDedottedInto_eq, toList_dedot_normalizeName]
  · rw [normalizeNameInto_eq, normalizeNameInto_eq, normalizeName_again]
  · rw [normalizeLoweredInto_eq, normalizeLoweredInto_eq, normalizeLowered_again]
  · rw [normalizeLoweredDedottedInto_eq, normalizeLoweredDedottedInto_eq, normalizeLoweredDedotted_again]

end RichPresence.Detect
