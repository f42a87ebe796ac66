import Mathlib.Data.List.Infix
import Mathlib.Data.List.Sort

namespace RichPresence.Lib

variable {α : Type}

/-- A text that agrees with a pattern up to `fold`, somewhere in the haystack. -/
def Occurs (fold : α → α) (pattern haystack : List α) : Prop :=
  ∃ window, window <:+: haystack ∧ window.map fold = pattern.map fold

theorem Occurs.reverse {fold : α → α} {pattern haystack : List α} (h : Occurs fold pattern haystack) :
    Occurs fold pattern.reverse haystack.reverse := by
  obtain ⟨window, hinfix, hfold⟩ := h
  refine ⟨window.reverse, List.reverse_infix.mpr hinfix, ?_⟩
  rw [List.map_reverse, List.map_reverse, hfold]

structure Match where
  pattern : Nat
  stop : Nat
  deriving DecidableEq, Repr

/-- The pattern of a match stands in the haystack and ends where the match says. -/
def Match.IsIn (fold : α → α) (patterns : List (List α)) (haystack : List α) (m : Match) : Prop :=
  ∃ pattern, patterns[m.pattern]? = some pattern ∧
    ∃ before window after, haystack = before ++ window ++ after ∧ window.map fold = pattern.map fold ∧
      m.stop = (before ++ window).length

/-- A search for many patterns at once, overlapping ones included: what it
reports are the matches there are, in the order in which they end. -/
structure Matcher (fold : α → α) where
  find : List (List α) → List α → List Match
  mem_find : ∀ patterns haystack m, m ∈ find patterns haystack ↔ m.IsIn fold patterns haystack
  ordered : ∀ patterns haystack, (find patterns haystack).Pairwise fun m m' => m.stop ≤ m'.stop

namespace Matcher

variable {fold : α → α} (M : Matcher fold) {patterns : List (List α)} {haystack : List α}

theorem exists_of_occurs {i : Nat} {pattern : List α} (h : patterns[i]? = some pattern)
    (hocc : Occurs fold pattern haystack) : ∃ m ∈ M.find patterns haystack, m.pattern = i := by
  obtain ⟨window, ⟨before, after, hhay⟩, hfold⟩ := hocc
  refine ⟨⟨i, (before ++ window).length⟩, (M.mem_find _ _ _).mpr ?_, rfl⟩
  exact ⟨pattern, h, before, window, after, hhay.symm, hfold, rfl⟩

theorem occurs_of_mem {m : Match} (h : m ∈ M.find patterns haystack) :
    ∃ pattern, patterns[m.pattern]? = some pattern ∧ Occurs fold pattern haystack := by
  obtain ⟨pattern, hp, before, window, after, rfl, hfold, -⟩ := (M.mem_find _ _ _).mp h
  exact ⟨pattern, hp, window, ⟨before, after, rfl⟩, hfold⟩

section Naive

variable [DecidableEq α] (fold)

def endsAt (haystack pattern : List α) (stop : Nat) : Bool :=
  pattern.length ≤ stop && ((haystack.take stop).drop (stop - pattern.length)).map fold == pattern.map fold

/-- Where several matches end, the longest comes first and then the earliest
pattern. -/
def naiveFind (patterns : List (List α)) (haystack : List α) : List Match :=
  (List.range (haystack.length + 1)).flatMap fun stop =>
    ((patterns.zipIdx.insertionSort fun p q => q.1.length ≤ p.1.length).filter fun p =>
      endsAt fold haystack p.1 stop).map fun p => ⟨p.2, stop⟩

theorem endsAt_iff {pattern : List α} {stop : Nat} (hstop : stop ≤ haystack.length) :
    endsAt fold haystack pattern stop = true ↔
      ∃ before window after, haystack = before ++ window ++ after ∧ window.map fold = pattern.map fold ∧
        stop = (before ++ window).length := by
  rw [endsAt, Bool.and_eq_true, decide_eq_true_eq, beq_iff_eq]
  constructor
  · rintro ⟨-, hfold⟩
    have hparts := List.take_append_drop (stop - pattern.length) (haystack.take stop)
    refine ⟨(haystack.take stop).take (stop - pattern.length), _, haystack.drop stop, ?_, hfold, ?_⟩
    · rw [hparts, List.take_append_drop]
    · rw [hparts, List.length_take_of_le hstop]
  · rintro ⟨before, window, after, rfl, hfold, rfl⟩
    have hlen : window.length = pattern.length := by simpa using congrArg List.length hfold
    rw [List.take_left, List.length_append, hlen, Nat.add_sub_cancel, List.drop_left]
    exact ⟨Nat.le_add_left _ _, hfold⟩

def naive : Matcher fold where
  find := naiveFind fold
  mem_find := by
    intro patterns haystack m
    simp only [naiveFind, List.mem_flatMap, List.mem_range, List.mem_map, List.mem_filter, List.mem_insertionSort,
      Prod.exists, List.mem_zipIdx_iff_getElem?, Match.IsIn]
    constructor
    · rintro ⟨stop, hstop, pattern, i, ⟨hp, hends⟩, rfl⟩
      exact ⟨pattern, hp, (endsAt_iff fold (Nat.le_of_lt_succ hstop)).mp hends⟩
    · rintro ⟨pattern, hp, before, window, after, hhay, hfold, hstop⟩
      have hle : m.stop ≤ haystack.length := by
        rw [hstop, hhay]
        exact (List.prefix_append _ _).length_le
      refine ⟨m.stop, Nat.lt_succ_of_le hle, pattern, m.pattern, ⟨hp, ?_⟩, rfl⟩
      exact (endsAt_iff fold hle).mpr ⟨before, window, after, hhay, hfold, hstop⟩
  ordered := by
    intro patterns haystack
    rw [naiveFind, List.pairwise_flatMap]
    refine ⟨fun stop _ => ?_, ?_⟩
    · rw [List.pairwise_map]
      exact List.pairwise_of_forall fun _ _ => Nat.le_refl _
    · refine (List.pairwise_lt_range).imp fun hlt m hm m' hm' => ?_
      obtain ⟨-, -, rfl⟩ := List.mem_map.mp hm
      obtain ⟨-, -, rfl⟩ := List.mem_map.mp hm'
      exact Nat.le_of_lt hlt

end Naive

end Matcher

end RichPresence.Lib
