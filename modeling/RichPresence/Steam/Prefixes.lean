import RichPresence.Detect.Tiers
import RichPresence.Lib.Squeeze
import RichPresence.Steam.Paths

namespace RichPresence.Steam

open Lib

/-- The lower case of a character may take several characters, but none of them is a
separator. -/
structure CaseFold where
  toLowercase : Char → List Char
  ascii : ∀ c : Char, c.toNat < 128 → toLowercase c = [c.toLower]
  ne_nil : ∀ c, toLowercase c ≠ []
  not_mem : ∀ c, c ≠ '/' → '/' ∉ toLowercase c

theorem toLower_eq_slash {c : Char} (h : c.toLower = '/') : c = '/' := by
  rcases Detect.toLower_cases c with hsame | ⟨hlow, -, hlower⟩
  · exact hsame ▸ h
  · have hslash : c.toLower.toNat = 47 := congrArg Char.toNat h
    omega

def asciiFold : CaseFold where
  toLowercase c := [c.toLower]
  ascii _ _ := rfl
  ne_nil _ := nofun
  not_mem _ hc hmem := hc (toLower_eq_slash (List.mem_singleton.mp hmem).symm)

/-- Install directories, in canonical form, with the ids of their games. -/
abbrev Dirs := Table Path String

section Model

variable (fold : CaseFold)

def canonicalSteamPathInto (raw dst : Path) : Path :=
  let dst := Detect.cleared dst
  let dst := raw.foldl (fun dst ch => dst ++ if ch = '\\' then ['/'] else fold.toLowercase ch) dst
  if dst.head? = some '/' then dst else '/' :: dst

def canonicalSteamPath (raw : Path) : Path := canonicalSteamPathInto fold raw []

def endSlash (path : Path) : Path := if path.getLast? = some '/' then path else path ++ ['/']

def commonPrefix (library installdir : Path) : Path :=
  endSlash (canonicalSteamPath fold (library ++ "/steamapps/common/".toList ++ installdir))

def libraryPrefix (library : Path) : Path :=
  endSlash (canonicalSteamPath fold library) ++ "steamapps/".toList

def libraryOwnsPrefix (library prefix_ : Path) : Bool := (libraryPrefix fold library).isPrefixOf prefix_

/-- The directories are met in any order; a longer one takes the place of the best so far. -/
def matchPrefixInto (w : Walk) (dirs : Dirs) (path scratch : Path) : Option String × Path :=
  let scratch := canonicalSteamPathInto fold path scratch
  let best := (w.order dirs.entries).foldl (fun (best : Option String × Nat) dir =>
    if best.2 < (String.ofList dir.1).utf8ByteSize ∧ dir.1.isPrefixOf scratch then
      (some dir.2, (String.ofList dir.1).utf8ByteSize)
    else best) (none, 0)
  (best.1, scratch)

def matchPrefix (w : Walk) (dirs : Dirs) (path : Path) : Option String := (matchPrefixInto fold w dirs path []).1

end Model

variable {fold : CaseFold}

def slash (c : Char) : Char := if c = '\\' then '/' else c

/-- The characters in lower case, with one kind of separator. -/
def folded (fold : CaseFold) (raw : Path) : Path := (raw.map slash).flatMap fold.toLowercase

def rooted (path : Path) : Path := if path.head? = some '/' then path else '/' :: path

theorem CaseFold.slash_eq (fold : CaseFold) : fold.toLowercase '/' = ['/'] := fold.ascii '/' (by decide)

theorem CaseFold.keepsSep (fold : CaseFold) : KeepsSep '/' '/' fold.toLowercase :=
  ⟨fold.slash_eq, fold.not_mem, fold.ne_nil⟩

theorem canonicalSteamPathInto_eq (raw dst : Path) :
    canonicalSteamPathInto fold raw dst = rooted (folded fold raw) := by
  have hloop (raw out : Path) :
      raw.foldl (fun dst ch => dst ++ if ch = '\\' then ['/'] else fold.toLowercase ch) out =
        out ++ folded fold raw := by
    induction raw generalizing out with
    | nil => exact (List.append_nil out).symm
    | cons c raw ih =>
        have hc : (if c = '\\' then ['/'] else fold.toLowercase c) = fold.toLowercase (slash c) := by
          rw [slash]
          split
          · exact fold.slash_eq.symm
          · rfl
        rw [List.foldl_cons, ih, hc, List.append_assoc]
        rfl
  rw [canonicalSteamPathInto, hloop]
  rfl

theorem canonicalSteamPath_eq (raw : Path) : canonicalSteamPath fold raw = rooted (folded fold raw) :=
  canonicalSteamPathInto_eq raw []

theorem folded_append (fold : CaseFold) (a b : Path) : folded fold (a ++ b) = folded fold a ++ folded fold b := by
  rw [folded, List.map_append, List.flatMap_append]
  rfl

theorem folded_of_small (fold : CaseFold) (text : Path)
    (h : text.all fun c => c.toNat < 128 && slash c = c && c.toLower = c) : folded fold text = text := by
  induction text with
  | nil => rfl
  | cons c text ih =>
      rw [List.all_cons, Bool.and_eq_true, Bool.and_eq_true, Bool.and_eq_true] at h
      obtain ⟨⟨⟨hascii, hslash⟩, hlower⟩, htext⟩ := h
      have hc : fold.toLowercase (slash c) = [c] := by
        rw [of_decide_eq_true hslash, fold.ascii c (of_decide_eq_true hascii), of_decide_eq_true hlower]
      rw [← List.singleton_append, folded_append, ih htext, folded, List.map_singleton, List.flatMap_singleton, hc]

theorem folded_ne_nil {text : Path} (h : text ≠ []) : folded fold text ≠ [] := by
  obtain ⟨c, rest, rfl⟩ := List.exists_cons_of_ne_nil h
  rw [folded, List.map_cons, List.flatMap_cons]
  exact List.append_ne_nil_of_left_ne_nil (fold.ne_nil _) _

end RichPresence.Steam
