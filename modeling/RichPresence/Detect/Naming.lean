import RichPresence.Types.Text
import Mathlib.Data.List.Infix

namespace RichPresence.Detect

abbrev Path := List Char

/-- A declared Windows separator is the `/` that a path carries. -/
def foldSeparator (c : Char) : Char := if c = '\\' then '/' else c

def lower (s : Path) : Path := s.map Char.toLower

def stripMarker : Path → Path
  | '>' :: name => name
  | name => name

def leadsWithSeparator : Path → Bool
  | c :: _ => c = '/' || c = '\\'
  | [] => false

/-- The walk over two byte strings of one length, folding case as it goes. -/
def agrees (part name : Path) : Bool := lower part == lower (name.map foldSeparator)

/-- What precedes a name is a separator, unless the name brings its own. -/
def fronted (rest name : Path) : Bool := rest.isEmpty || rest.getLast? = some '/' || leadsWithSeparator name

def bundleInterior : Path := "/contents/".toList

def startsWithBundleInterior (rest : Path) : Bool :=
  bundleInterior.length ≤ rest.length && lower (rest.take bundleInterior.length) == bundleInterior

def endsInApp (name : Path) : Bool := 4 ≤ name.length && lower (name.drop (name.length - 4)) == ".app".toList

def namesABundle (path name : Path) : Bool :=
  endsInApp name && (List.range (path.length + 1 - name.length)).any fun at_ =>
    agrees ((path.drop at_).take name.length) name && fronted (path.take at_) name &&
      startsWithBundleInterior (path.drop (at_ + name.length))

def exeNamesPath (path name : Path) : Bool :=
  let name := stripMarker name
  if name.isEmpty then false
  else
    (name.length ≤ path.length &&
      let rest := path.take (path.length - name.length)
      agrees (path.drop (path.length - name.length)) name && fronted rest name) ||
    namesABundle path name

def components (s : Path) : List Path := s.splitOn '/'

def dropSeparator (name : Path) : Path := if leadsWithSeparator name then name.tail else name

def declared (name : Path) : Path := (dropSeparator (stripMarker name)).map foldSeparator

/-- A name names a string whose last components it has, or in which it stands
as a bundle whose contents follow. Case is ignored. -/
def Names (name s : Path) : Prop :=
  let wanted := (components (declared name)).map lower
  let held := (components s).map lower
  wanted <:+ held ∨
    ".app".toList <:+ lower name ∧
      ∃ before after, held = before ++ wanted ++ "contents".toList :: after ∧ after ≠ []

theorem val_toLower {c : Char} (h : c.val ≥ 'A'.val ∧ c.val ≤ 'Z'.val) : c.toLower.val = c.val + 32 :=
  congrArg Char.val (dif_pos h)

theorem toLower_of_not_upper {c : Char} (h : ¬(c.val ≥ 'A'.val ∧ c.val ≤ 'Z'.val)) : c.toLower = c := dif_neg h

theorem toLower_eq_slash_iff {c : Char} : c.toLower = '/' ↔ c = '/' := by
  constructor
  · intro h
    by_cases hc : c.val ≥ 'A'.val ∧ c.val ≤ 'Z'.val
    · have hval := congrArg UInt32.toNat ((val_toLower hc).symm.trans (congrArg Char.val h))
      simp [UInt32.le_iff_toNat_le] at hval hc
      omega
    · rwa [toLower_of_not_upper hc] at h
  · rintro rfl
    decide

theorem components_lower (s : Path) : components (lower s) = (components s).map lower := by
  induction s with
  | nil => rfl
  | cons c s ih =>
      simp only [components, lower, List.map_cons, List.splitOn_cons_eq_if_modifyHead] at ih ⊢
      have hsep : (c.toLower == '/') = (c == '/') := by
        rw [Bool.eq_iff_iff, beq_iff_eq, beq_iff_eq, toLower_eq_slash_iff]
      rw [hsep, ih]
      split
      · simp [lower]
      · cases h : s.splitOn '/' with
        | nil => exact absurd h (List.splitOn_ne_nil _ _)
        | cons t ts => simp [lower]

theorem agrees_iff {part name : Path} : agrees part name = true ↔ lower part = lower (name.map foldSeparator) := by
  rw [agrees, beq_iff_eq]

theorem length_of_agrees {part name : Path} (h : agrees part name = true) : part.length = name.length := by
  have hlen := congrArg List.length (agrees_iff.mp h)
  simpa [lower] using hlen

theorem namesABundle_iff {path name : Path} :
    namesABundle path name = true ↔ endsInApp name = true ∧ ∃ rest part after, path = rest ++ part ++ after ∧
      agrees part name = true ∧ fronted rest name = true ∧ startsWithBundleInterior after = true := by
  rw [namesABundle, Bool.and_eq_true, List.any_eq_true]
  refine and_congr_right fun _ => ?_
  constructor
  · rintro ⟨at_, -, h⟩
    simp only [Bool.and_eq_true] at h
    refine ⟨path.take at_, _, _, ?_, h.1.1, h.1.2, h.2⟩
    rw [List.append_assoc, ← List.drop_drop, List.take_append_drop, List.take_append_drop]
  · rintro ⟨rest, part, after, rfl, hpart, hrest, hafter⟩
    have hlen := length_of_agrees hpart
    refine ⟨rest.length, ?_, ?_⟩
    · simp only [List.mem_range, List.length_append]
      omega
    · simp only [Bool.and_eq_true]
      rw [List.append_assoc, List.drop_left, ← hlen, List.take_left, List.take_left, ← List.drop_drop,
        List.drop_left, List.drop_left]
      exact ⟨⟨hpart, hrest⟩, hafter⟩

theorem exeNamesPath_iff {path name : Path} :
    exeNamesPath path name = true ↔ stripMarker name ≠ [] ∧
      ((∃ rest part, path = rest ++ part ∧ agrees part (stripMarker name) = true ∧
        fronted rest (stripMarker name) = true) ∨ namesABundle path (stripMarker name) = true) := by
  rw [exeNamesPath]
  generalize stripMarker name = name
  by_cases hn : name = []
  · simp [hn]
  · simp only [List.isEmpty_iff, hn, if_false, ne_eq, not_false_eq_true, true_and, Bool.or_eq_true,
      Bool.and_eq_true, decide_eq_true_eq]
    refine or_congr_left ?_
    constructor
    · rintro ⟨-, hpart, hrest⟩
      exact ⟨_, _, (List.take_append_drop _ _).symm, hpart, hrest⟩
    · rintro ⟨rest, part, rfl, hpart, hrest⟩
      have hlen := length_of_agrees hpart
      rw [List.length_append, hlen, Nat.add_sub_cancel, List.drop_left, List.take_left]
      exact ⟨Nat.le_add_left _ _, hpart, hrest⟩

theorem exists_boundary {rest part name : Path} (hpart : agrees part name = true) (hrest : fronted rest name = true) :
    ∃ before body, rest ++ part = before ++ body ∧ lower body = lower ((dropSeparator name).map foldSeparator) ∧
      (before = [] ∨ ∃ front, before = front ++ ['/']) := by
  rw [agrees_iff] at hpart
  by_cases hlead : leadsWithSeparator name = true
  · rw [dropSeparator, if_pos hlead]
    cases name with
    | nil => cases hlead
    | cons c name =>
        cases part with
        | nil => cases hpart
        | cons d part =>
            have hc : foldSeparator c = '/' := by
              simp only [leadsWithSeparator, Bool.or_eq_true, decide_eq_true_eq] at hlead
              rcases hlead with rfl | rfl <;> rfl
            simp only [lower, List.map_cons, List.cons.injEq, hc] at hpart
            obtain rfl : d = '/' := toLower_eq_slash_iff.mp hpart.1
            exact ⟨rest ++ ['/'], part, by simp, hpart.2, .inr ⟨rest, rfl⟩⟩
  · rw [dropSeparator, if_neg hlead]
    refine ⟨rest, part, rfl, hpart, ?_⟩
    simp only [fronted, Bool.or_eq_true, List.isEmpty_iff, decide_eq_true_eq] at hrest
    refine (hrest.resolve_right hlead).imp id fun h => ?_
    exact ⟨rest.dropLast, (List.dropLast_append_getLast? _ h).symm⟩

theorem components_append {before : Path} (h : before = [] ∨ ∃ front, before = front ++ ['/']) :
    ∃ held, ∀ s, components (before ++ s) = held ++ components s := by
  rcases h with rfl | ⟨front, rfl⟩
  · exact ⟨[], fun _ => rfl⟩
  · refine ⟨components front, fun s => ?_⟩
    rw [List.append_assoc]
    exact List.splitOn_append_cons_self _ _

theorem components_of_lower {s : Path} (h : lower s = "contents".toList) : components s = [s] := by
  have hmap := components_lower s
  rw [h] at hmap
  have hlen : (components s).length = 1 := by
    rw [← List.length_map, ← hmap]
    rfl
  obtain ⟨c, hc⟩ := List.length_eq_one_iff.mp hlen
  have hjoin : [('/' : Char)].intercalate (components s) = s := List.intercalate_splitOn _
  rw [hc] at hjoin ⊢
  rw [← hjoin]
  simp

theorem interior_split {after : Path} (h : startsWithBundleInterior after = true) :
    ∃ name rest, after = '/' :: name ++ '/' :: rest ∧ lower name = "contents".toList := by
  rw [startsWithBundleInterior, Bool.and_eq_true, beq_iff_eq] at h
  have hparts : bundleInterior = '/' :: ("contents".toList ++ ['/']) := rfl
  rw [hparts, lower, List.map_eq_cons_iff] at h
  obtain ⟨c, tail, htake, hc, htail⟩ := h.2
  obtain ⟨name, last, rfl, hname, hlast⟩ := List.map_eq_append_iff.mp htail
  obtain ⟨d, nothing, rfl, hd, hnothing⟩ := List.map_eq_cons_iff.mp hlast
  obtain rfl := List.map_eq_nil_iff.mp hnothing
  obtain rfl := toLower_eq_slash_iff.mp hc
  obtain rfl := toLower_eq_slash_iff.mp hd
  obtain ⟨rest, hrest⟩ := List.take_prefix ('/' :: ("contents".toList ++ ['/'])).length after
  refine ⟨name, rest, ?_, hname⟩
  rw [← hrest, htake]
  simp

theorem app_suffix {name : Path} (h : endsInApp (stripMarker name) = true) : ".app".toList <:+ lower name := by
  rw [endsInApp, Bool.and_eq_true, beq_iff_eq] at h
  have hstrip : stripMarker name <:+ name := by
    simp only [stripMarker]
    split
    · exact List.suffix_cons _ _
    · exact List.suffix_rfl
  rw [← h.2]
  exact ((List.drop_suffix _ _).trans hstrip).map _

theorem names_of_exeNamesPath {path name : Path} (h : exeNamesPath path name = true) : Names name path := by
  obtain ⟨-, ⟨rest, part, rfl, hpart, hrest⟩ | hbundle⟩ := exeNamesPath_iff.mp h
  · left
    obtain ⟨before, body, heq, hbody, hbefore⟩ := exists_boundary hpart hrest
    obtain ⟨held, hheld⟩ := components_append hbefore
    rw [heq, hheld, List.map_append, ← components_lower body, hbody, components_lower]
    exact List.suffix_append _ _
  · right
    obtain ⟨happ, rest, part, after, rfl, hpart, hrest, hafter⟩ := namesABundle_iff.mp hbundle
    obtain ⟨before, body, heq, hbody, hbefore⟩ := exists_boundary hpart hrest
    obtain ⟨held, hheld⟩ := components_append hbefore
    obtain ⟨contents, inner, rfl, hcontents⟩ := interior_split hafter
    refine ⟨app_suffix happ, held.map lower, (components inner).map lower, ?_, ?_⟩
    · have hsplit (s t : Path) : components (s ++ '/' :: t) = components s ++ components t :=
        List.splitOn_append_cons_self _ _
      have hbodyLower : (components body).map lower = (components (declared name)).map lower := by
        rw [← components_lower, hbody, components_lower, declared]
      rw [heq, List.append_assoc, hheld, List.cons_append, hsplit, hsplit, components_of_lower hcontents,
        List.map_append, List.map_append, hbodyLower, List.map_append, List.append_assoc, List.map_singleton,
        hcontents]
      rfl
    · exact fun hnil => List.splitOn_ne_nil _ _ (List.map_eq_nil_iff.mp hnil)

theorem toLower_toLower (c : Char) : c.toLower.toLower = c.toLower := by
  by_cases hc : c.val ≥ 'A'.val ∧ c.val ≤ 'Z'.val
  · have hlow : ¬(c.toLower.val ≥ 'A'.val ∧ c.toLower.val ≤ 'Z'.val) := by
      rw [val_toLower hc]
      simp [UInt32.le_iff_toNat_le] at hc ⊢
      omega
    exact toLower_of_not_upper hlow
  · rw [toLower_of_not_upper hc, toLower_of_not_upper hc]

theorem lower_lower (s : Path) : lower (lower s) = lower s := by
  simp only [lower, List.map_map, Function.comp_def, toLower_toLower]

theorem Names.of_lower {name s : Path} (h : Names name (lower s)) : Names name s := by
  have hheld : (components (lower s)).map lower = (components s).map lower := by
    rw [components_lower, List.map_map]
    refine List.map_congr_left fun part _ => ?_
    exact lower_lower part
  rwa [Names, hheld] at h

end RichPresence.Detect
