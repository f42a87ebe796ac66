import RichPresence.Detect.Classify

namespace RichPresence.Detect

open Lib

def maxExclusionNames : Nat := 1024
def maxExclusionPatterns : Nat := 128
def maxPatternLen : Nat := 256
def maxPatternBytes : Nat := 1 <<< 20

/-- The engine for regular expressions that ignore case: whether one, or a set of them, is built
within a size limit, and what one matches. -/
structure Regexes where
  build : (sizeLimit : Nat) → String → Bool
  buildSet : (sizeLimit : Nat) → List String → Bool
  isMatch : String → String → Bool

/-- A parsed list. A set of regular expressions is given by its patterns. -/
structure ExclusionList where
  executables : List String := []
  patterns : List String := []
  deriving DecidableEq, Repr

namespace Regexes

variable (regexes : Regexes)

/-- The patterns of a list are checked one by one. -/
def validPatterns (patterns : List Value) : List String :=
  (((patterns.filterMap Value.asStr).map fun p => String.ofList (trim p.toList)).filter fun p =>
    p ≠ "" && p.utf8ByteSize ≤ maxPatternLen).take maxExclusionPatterns |>.filter (regexes.build (64 * 1024))

/-- All patterns, or as many from the front as are built together. -/
def keepFit (valid : List String) : Nat :=
  if regexes.buildSet maxPatternBytes valid then valid.length
  else (lastFit fun n => regexes.buildSet maxPatternBytes (valid.take n)).run ⟨0, valid.length⟩

def installPatterns (valid : List String) : List String :=
  if valid.isEmpty then []
  else
    let kept := valid.take (regexes.keepFit valid)
    if regexes.buildSet maxPatternBytes kept then kept else []

def parseExclusions (fromStr : String → Option Value) (body : String) : ExclusionList :=
  match fromStr body with
  | none => {}
  | some value =>
      { executables :=
          match (value.get "executables").bind Value.asArray with
          | none => []
          | some executables =>
              (((executables.filterMap Value.asStr).map fun e => String.ofList (lower (trim e.toList))).filter
                fun e => e ≠ "").take maxExclusionNames
        patterns :=
          match (value.get "patterns").bind Value.asArray with
          | none => []
          | some patterns => regexes.installPatterns (regexes.validPatterns patterns) }

/-- The patterns of a body that pass their own check. -/
def accepted (fromStr : String → Option Value) (body : String) : List String :=
  match (fromStr body).bind fun value => (value.get "patterns").bind Value.asArray with
  | none => []
  | some patterns => regexes.validPatterns patterns

/-- A set of patterns from the front that is too large stays so with more of them. -/
def Grows (valid : List String) : Prop :=
  ∀ m n, m ≤ n → regexes.buildSet maxPatternBytes (valid.take n) = true →
    regexes.buildSet maxPatternBytes (valid.take m) = true

variable {regexes} {valid : List String}

theorem patterns_parseExclusions (fromStr : String → Option Value) (body : String) :
    (regexes.parseExclusions fromStr body).patterns = regexes.installPatterns (regexes.accepted fromStr body) := by
  rw [parseExclusions, accepted]
  cases fromStr body with
  | none => rfl
  | some value =>
      rw [Option.bind_some]
      dsimp only
      cases (value.get "patterns").bind Value.asArray with
      | none => rfl
      | some patterns => rfl

theorem keepFit_spec (h : regexes.Grows valid) : regexes.keepFit valid ≤ valid.length ∧
    (regexes.keepFit valid = 0 ∨ regexes.buildSet maxPatternBytes (valid.take (regexes.keepFit valid)) = true) ∧
      ∀ m ≤ valid.length, regexes.buildSet maxPatternBytes (valid.take m) = true → m ≤ regexes.keepFit valid := by
  rw [keepFit]
  split
  next hall => exact ⟨Nat.le_refl _, .inr (by rwa [List.take_length]), fun m hm _ => hm⟩
  next => exact lastFit_spec h

theorem installPatterns_eq (h : regexes.Grows valid) :
    regexes.installPatterns valid = valid.take (regexes.keepFit valid) := by
  obtain ⟨-, hfits, -⟩ := keepFit_spec h
  rw [installPatterns]
  split
  next hempty => rw [List.isEmpty_iff.mp hempty, List.take_nil]
  next =>
    dsimp only
    split
    next => rfl
    next hno =>
      rw [hfits.resolve_right hno]
      rfl

/-- The patterns that are installed are the longest part from the front that is built together, and
none where no part is. -/
theorem parseExclusions_longest (regexes : Regexes) (fromStr : String → Option Value) (body : String)
    (h : regexes.Grows (regexes.accepted fromStr body)) :
    let installed := (regexes.parseExclusions fromStr body).patterns
    installed <+: regexes.accepted fromStr body ∧
      (regexes.buildSet maxPatternBytes installed = true ∨ installed = []) ∧
      ∀ p, p <+: regexes.accepted fromStr body → regexes.buildSet maxPatternBytes p = true → p <+: installed := by
  obtain ⟨-, hfits, hmax⟩ := keepFit_spec h
  intro installed
  have hinstalled : installed = _ := (patterns_parseExclusions fromStr body).trans (installPatterns_eq h)
  rw [hinstalled]
  refine ⟨List.take_prefix _ _, ?_, fun p hp hbuilt => ?_⟩
  · rcases hfits with hzero | hbuilt
    · rw [hzero]
      exact .inr rfl
    · exact .inl hbuilt
  · have htake := List.prefix_iff_eq_take.mp hp
    rw [htake] at hbuilt ⊢
    exact List.take_prefix_take_left (hmax _ hp.length_le hbuilt)

/-- Every pattern takes as much of the size limit as the others. -/
def bulky : Regexes where
  build _ _ := true
  buildSet sizeLimit patterns := patterns.length * 400000 ≤ sizeLimit
  isMatch pattern basename := pattern = basename

def threePatterns (_ : String) : Option Value :=
  some (.object [("patterns", .array [.string "setup", .null, .string " crash ", .string "vcredist"])])

theorem buildSet_bulky {patterns : List String} :
    bulky.buildSet maxPatternBytes patterns = true ↔ patterns.length * 400000 ≤ 1048576 := decide_eq_true_iff

theorem parseExclusions_longest_two :
    bulky.Grows (bulky.accepted threePatterns "") ∧
      (bulky.parseExclusions threePatterns "").patterns = ["setup", "crash"] := by
  have haccepted : bulky.accepted threePatterns "" = ["setup", "crash", "vcredist"] := by decide +kernel
  have hgrows : bulky.Grows (bulky.accepted threePatterns "") := by
    intro m n hmn hbuilt
    rw [buildSet_bulky, List.length_take] at hbuilt ⊢
    exact Nat.le_trans (Nat.mul_le_mul_right _ (min_le_min_right _ hmn)) hbuilt
  obtain ⟨-, hbuilt, hmax⟩ := parseExclusions_longest bulky threePatterns "" hgrows
  have htwo := hmax ["setup", "crash"] (by rw [haccepted]; decide) (by decide)
  generalize (bulky.parseExclusions threePatterns "").patterns = installed at hbuilt htwo ⊢
  refine ⟨hgrows, (htwo.eq_of_length_le ?_).symm⟩
  change _ ≤ 2
  rcases hbuilt with hbuilt | hempty
  · rw [buildSet_bulky] at hbuilt
    omega
  · rw [hempty]
    exact Nat.zero_le 2

end Regexes

end RichPresence.Detect
