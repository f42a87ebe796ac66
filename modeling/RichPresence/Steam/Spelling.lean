import RichPresence.Steam.Prefixes

namespace RichPresence.Steam

open Lib

variable {fold : CaseFold} {a b text library installdir rest path : Path}

def closed (text : Path) : Path := if (text.map slash).getLast? = some '/' then text else text ++ ['/']

theorem closed_ne_nil (text : Path) : closed text ≠ [] := by
  rw [closed]
  split
  next h =>
      rintro rfl
      cases h
  next => simp

theorem rooted_append (ha : a ≠ []) (b : Path) : rooted (a ++ b) = rooted a ++ b := by
  rw [rooted, rooted, List.head?_append_of_ne_nil _ ha]
  split <;> rfl

theorem endSlash_folded (text : Path) :
    endSlash (rooted (folded fold text)) = rooted (folded fold (closed text)) := by
  have hlast := fold.keepsSep.last_iff (text.map slash)
  rw [closed]
  split
  next h =>
      have hend : (rooted (folded fold text)).getLast? = some '/' := by
        rw [rooted]
        split
        · exact hlast.mpr h
        · rw [List.getLast?_cons, folded, hlast.mpr h]
          rfl
      rw [endSlash, if_pos hend]
  next h =>
      rw [folded_append, folded_of_small fold ['/'] (by decide)]
      cases hf : folded fold text with
      | nil => rfl
      | cons c cs =>
          have hend : (rooted (c :: cs)).getLast? ≠ some '/' := by
            have hne := hlast.not.mpr h
            rw [← folded, hf] at hne
            rw [rooted]
            split
            · exact hne
            · rwa [List.getLast?_cons_cons]
          rw [endSlash, if_neg hend, rooted_append (List.cons_ne_nil c cs)]

theorem commonPrefix_eq (library installdir : Path) : commonPrefix fold library installdir =
    rooted (folded fold (closed (library ++ "/steamapps/common/".toList ++ installdir))) := by
  rw [commonPrefix, canonicalSteamPath_eq, endSlash_folded]

theorem libraryPrefix_eq (library : Path) :
    libraryPrefix fold library = rooted (folded fold (closed library ++ "steamapps/".toList)) := by
  have hne : folded fold (closed library) ≠ [] := folded_ne_nil (closed_ne_nil library)
  rw [libraryPrefix, canonicalSteamPath_eq, endSlash_folded, folded_append,
    folded_of_small fold "steamapps/".toList (by decide), rooted_append hne]

theorem rooted_prefix (hhead : a.head? = some '/' ↔ b.head? = some '/') :
    rooted a <+: rooted b ↔ a <+: b := by
  rw [rooted, rooted]
  by_cases h : a.head? = some '/'
  · rw [if_pos h, if_pos (hhead.mp h)]
  · rw [if_neg h, if_neg (hhead.not.mp h), List.cons_prefix_cons]
    simp

/-- A path below an install directory, as it is written with single separators. -/
def Below (library installdir path : Path) : Prop :=
  ∃ rest : Path, path.map slash =
    squeeze '/' ((library ++ "/steamapps/common/".toList ++ installdir ++ '/' :: rest).map slash)

theorem closed_starts (text rest : Path) : closed text <+: text ++ '/' :: rest := by
  rw [closed]
  split
  · exact List.prefix_append text _
  · rw [List.append_cons text '/' rest]
    exact List.prefix_append _ rest

theorem prefix_canonical_iff (fold : CaseFold) (hne : a ≠ []) (hpre : a <+: text)
    (hpath : path.map slash = squeeze '/' (text.map slash)) :
    rooted (folded fold a) <+: canonicalSteamPath fold path ↔ Single '/' (a.map slash) := by
  have hfolded : folded fold path = (squeeze '/' (text.map slash)).flatMap fold.toLowercase := by rw [folded, hpath]
  obtain ⟨rest, rfl⟩ := hpre
  have hhead : (folded fold a).head? = some '/' ↔ (folded fold path).head? = some '/' := by
    have hane : a.map slash ≠ [] := by simpa using hne
    rw [hfolded, folded, fold.keepsSep.head_iff, fold.keepsSep.head_iff, head_squeeze, List.map_append,
      List.head?_append_of_ne_nil _ hane]
  rw [canonicalSteamPath_eq, rooted_prefix hhead, hfolded]
  constructor
  · intro h
    have hsqueezed : Single '/' (squeeze '/' ((a ++ rest).map slash)) := single_squeeze _
    have hsingle := (fold.keepsSep.single_iff _).mpr hsqueezed
    exact (fold.keepsSep.single_iff _).mp (hsingle.of_prefix h)
  · intro h
    rw [List.map_append]
    obtain ⟨more, hmore⟩ := prefix_squeeze h (rest.map slash)
    rw [← hmore, List.flatMap_append]
    exact List.prefix_append _ _

theorem single_closed_iff (hdir : ∀ c ∈ installdir, slash c ≠ '/') :
    Single '/' ((closed (library ++ "/steamapps/common/".toList ++ installdir)).map slash) ↔
      Single '/' ((library ++ ['/']).map slash) := by
  have hsplit : library ++ "/steamapps/common/".toList = library ++ ['/'] ++ "steamapps/common/".toList := by
    rw [List.append_assoc]
    rfl
  have hsep : '/' ∉ installdir.map slash := by
    rintro hmem
    obtain ⟨c, hc, heq⟩ := List.mem_map.mp hmem
    exact hdir c hc heq
  have hclosed : ∃ tail : Path, tail.head? ≠ some '/' ∧ Single '/' tail ∧
      (closed (library ++ "/steamapps/common/".toList ++ installdir)).map slash =
        (library ++ ['/']).map slash ++ tail := by
    by_cases hempty : installdir = []
    · refine ⟨"steamapps/common/".toList, by decide, by decide, ?_⟩
      have hlast : ((library ++ "/steamapps/common/".toList).map slash).getLast? = some '/' := by
        rw [hsplit, List.map_append, List.getLast?_append]
        rfl
      rw [hempty, List.append_nil, closed, if_pos hlast, hsplit, List.map_append]
      rfl
    · have hlast : ((library ++ "/steamapps/common/".toList ++ installdir).map slash).getLast? ≠ some '/' := by
        obtain ⟨d, hd⟩ := Option.ne_none_iff_exists'.mp
          (List.getLast?_eq_none_iff.not.mpr (List.map_eq_nil_iff (f := slash).not.mpr hempty))
        rw [List.map_append, List.getLast?_append, hd]
        exact fun heq => hsep (Option.some.inj heq ▸ List.mem_of_getLast? hd)
      refine ⟨"steamapps/common/".toList ++ (installdir.map slash ++ ['/']), by simp, ?_, ?_⟩
      · refine (single_append_of_head fun hhead => ?_).mpr ⟨by decide, single_concat hsep⟩
        rw [List.head?_append_of_ne_nil _ (by simpa using hempty)] at hhead
        exact hsep (List.mem_of_head? hhead)
      · rw [closed, if_neg hlast, hsplit, List.map_append, List.map_append, List.map_append, List.append_assoc,
          List.append_assoc]
        rfl
  obtain ⟨tail, hhead, htail, heq⟩ := hclosed
  rw [heq, single_append_of_head hhead]
  exact and_iff_left htail

end RichPresence.Steam
