import RichPresence.Detect.Bundle
import RichPresence.Lib.Index

namespace RichPresence.Detect

open Lib

namespace SortedIndex

theorem lookup_dedupKeys (entries : List (String × Nat)) (key : String) :
    (dedupKeys entries).lookup key = entries.lookup key := by
  induction entries with
  | nil => rfl
  | cons e entries ih =>
      rw [dedupKeys, lookup_cons_eq, lookup_cons_eq, ← ih]
      by_cases hkey : key = e.1
      · rw [if_pos hkey, if_pos hkey]
      · rw [if_neg hkey, if_neg hkey, lookup_dropWhile hkey]

theorem mem_of_mem_dedupKeys {entries : List (String × Nat)} {e : String × Nat} (h : e ∈ dedupKeys entries) :
    e ∈ entries := by
  induction entries with
  | nil => exact h
  | cons f entries ih =>
      rw [dedupKeys] at h
      rcases List.mem_cons.mp h with rfl | h
      · exact List.mem_cons_self ..
      · exact List.mem_cons_of_mem _ (ih ((List.dropWhile_sublist _).mem h))

theorem increasing_dedupKeys {entries : List (String × Nat)} (h : entries.Pairwise fun a b => a.1 ≤ b.1) :
    (dedupKeys entries).Pairwise fun a b => a.1 < b.1 := by
  induction entries with
  | nil => exact List.Pairwise.nil
  | cons e entries ih =>
      obtain ⟨hle, hrest⟩ := List.pairwise_cons.mp h
      have hkept := ih hrest
      have hmem (f : String × Nat) (hf : f ∈ dedupKeys entries) : e.1 ≤ f.1 := hle f (mem_of_mem_dedupKeys hf)
      rw [dedupKeys]
      refine List.pairwise_cons.mpr ⟨fun f hf => ?_, hkept.sublist (List.dropWhile_sublist _)⟩
      cases hdedup : dedupKeys entries with
      | nil =>
          rw [hdedup] at hf
          cases hf
      | cons g rest =>
          rw [hdedup] at hf hkept hmem
          obtain ⟨hg, -⟩ := List.pairwise_cons.mp hkept
          rw [List.dropWhile_cons] at hf
          split at hf
          next hsame =>
              rw [decide_eq_true_eq] at hsame
              rw [← hsame]
              exact hg f ((List.dropWhile_sublist _).mem hf)
          next hother =>
              have hlt : e.1 < g.1 := String.not_le.mp fun hge =>
                hother (decide_eq_true (String.le_antisymm hge (hmem g List.mem_cons_self)))
              rcases List.mem_cons.mp hf with rfl | hf
              · exact hlt
              · exact String.lt_trans hlt (hg f hf)

theorem increasing_build (entries : List (String × Nat)) : (build entries).entries.Pairwise fun a b => a.1 < b.1 :=
  increasing_dedupKeys (List.pairwise_insertionSort (fun a b : String × Nat => a.1 ≤ b.1) entries)

theorem ascending_of_increasing {entries : List (String × Nat)} (h : entries.Pairwise fun a b => a.1 < b.1)
    (key : String) : Ascending (fun e : String × Nat => compareOfLessAndEq e.1 key) entries := by
  refine h.imp fun {a b} hab hb => ?_
  dsimp only at hb ⊢
  have hle : b.1 ≤ key := by
    rw [compareOfLessAndEq] at hb
    split at hb
    next hlt => exact String.not_lt.mp (String.lt_asymm hlt)
    next =>
      split at hb
      next heq => exact heq ▸ String.le_refl _
      next => exact absurd rfl hb
  rw [compareOfLessAndEq, if_pos]
  exact String.not_le.mp fun hkey => String.not_lt.mpr (String.le_trans hle hkey) hab

theorem get_eq_lookup {index : SortedIndex} (h : index.entries.Pairwise fun a b => a.1 < b.1) (key : String) :
    index.get key = index.entries.lookup key := by
  have hascending := ascending_of_increasing h key
  have hself (e : String × Nat) : compareOfLessAndEq e.1 key = .eq ↔ e.1 = key := by
    rw [compareOfLessAndEq]
    split
    next hlt => exact iff_of_false nofun fun heq => String.lt_irrefl key (heq ▸ hlt)
    next =>
      split
      next heq => exact iff_of_true rfl heq
      next hne => exact iff_of_false nofun hne
  rw [get]
  cases hlookup : index.entries.lookup key with
  | some value =>
      obtain ⟨idx, hidx⟩ := List.mem_iff_getElem?.mp (mem_of_lookup hlookup)
      rw [binarySearchBy_of_eq hascending hidx ((hself _).mpr rfl)]
      dsimp only
      rw [hidx]
      rfl
  | none =>
      split
      next idx hidx =>
        obtain ⟨⟨k, value⟩, he, hcmp⟩ := eq_of_binarySearchBy hidx
        obtain rfl : k = key := (hself _).mp hcmp
        obtain ⟨w, hw⟩ := exists_lookup_of_mem (List.mem_of_getElem? he)
        rw [hlookup] at hw
        cases hw
      next => rfl

theorem get_build (entries : List (String × Nat)) (key : String) : (build entries).get key = entries.lookup key := by
  rw [get_eq_lookup (increasing_build entries), build, lookup_dedupKeys]
  exact lookup_insertionSort (r := fun a b : String => a ≤ b) String.le_refl entries key

/-- The index is an association list: a key has the value of its first pair, and none without one. -/
theorem get_build_first (entries : List (String × Nat)) (key : String) :
    (∀ value, (build entries).get key = some value ↔
      ∃ before after, entries = before ++ (key, value) :: after ∧ ∀ e ∈ before, e.1 ≠ key) ∧
    ((build entries).get key = none ↔ ∀ e ∈ entries, e.1 ≠ key) := by
  rw [get_build]
  constructor
  · intro value
    rw [List.lookup_eq_some_iff]
    simp only [bne_iff_ne, ne_comm]
  · rw [List.lookup_eq_none_iff]
    simp only [bne_iff_ne, ne_comm]

example : (build [("b", 0), ("a", 1), ("b", 2)]).get "b" = some 0 := by decide

theorem mem_of_mem_build {entries : List (String × Nat)} {e : String × Nat} (h : e ∈ (build entries).entries) :
    e ∈ entries := (List.mem_insertionSort _).mp (mem_of_mem_dedupKeys h)

theorem exists_mem_build {entries : List (String × Nat)} {key : String} {index : Nat} (h : (key, index) ∈ entries) :
    ∃ first, (key, first) ∈ (build entries).entries := by
  obtain ⟨first, hfirst⟩ := exists_lookup_of_mem h
  rw [← get_build, get_eq_lookup (increasing_build entries)] at hfirst
  exact ⟨first, mem_of_lookup hfirst⟩

end SortedIndex

/-- The store ids and the names of a list as indexes over it. -/
def buildAuxMaps (detectables : List ScannedEntry) : SortedIndex × SortedIndex :=
  (.build (collectSteamIds detectables), .build (collectNames detectables))

def ScannedEntry.titles (entry : ScannedEntry) : List String := entry.name :: entry.aliases

theorem collectSteamIds_eq (detectables : List ScannedEntry) :
    collectSteamIds detectables = indexed (fun entry => entry.steamIds.filter (· ≠ "")) detectables := rfl

theorem collectNames_eq (detectables : List ScannedEntry) :
    collectNames detectables =
      indexed (fun entry => (entry.titles.map normalizeName).filter fun key => nameMatchable key.toList)
        detectables := by
  rw [collectNames, indexed]
  refine congrArg (List.flatMap · detectables.zipIdx) (funext fun activity => ?_)
  rw [← List.filterMap_eq_filter, List.map_filterMap]
  apply List.filterMap_congr
  intro key _
  by_cases h : nameMatchable key.toList = true
  · simp [h]
  · simp [h]

theorem nameMap_get (detectables : List ScannedEntry) {key : String} (hkey : nameMatchable key.toList = true) :
    (buildAuxMaps detectables).2.get key =
      detectables.findIdx? fun entry => key ∈ entry.titles.map normalizeName := by
  rw [buildAuxMaps, SortedIndex.get_build, collectNames_eq, lookup_indexed]
  refine congrArg (List.findIdx? · detectables) (funext fun entry => ?_)
  simp only [List.mem_filter, hkey, and_true]

theorem mem_nameMap {detectables : List ScannedEntry} {key : String} {index : Nat}
    (h : (key, index) ∈ (buildAuxMaps detectables).2.entries) :
    nameMatchable key.toList = true ∧
      ∃ entry, detectables[index]? = some entry ∧ ∃ title ∈ entry.titles, normalizeName title = key := by
  have hmem := SortedIndex.mem_of_mem_build h
  rw [collectNames_eq] at hmem
  obtain ⟨entry, hentry, hkey⟩ := mem_indexed.mp hmem
  obtain ⟨hkey, hmatchable⟩ := List.mem_filter.mp hkey
  exact ⟨hmatchable, entry, hentry, List.mem_map.mp hkey⟩

theorem exists_mem_nameMap {detectables : List ScannedEntry} {entry : ScannedEntry} (hentry : entry ∈ detectables)
    {title : String} (htitle : title ∈ entry.titles) (hkey : nameMatchable (normalizeName title).toList = true) :
    ∃ index, (normalizeName title, index) ∈ (buildAuxMaps detectables).2.entries := by
  obtain ⟨index, hindex⟩ := List.mem_iff_getElem?.mp hentry
  have hmem : (normalizeName title, index) ∈ collectNames detectables := by
    rw [collectNames_eq]
    exact mem_indexed.mpr ⟨entry, hindex, List.mem_filter.mpr ⟨List.mem_map.mpr ⟨title, htitle, rfl⟩, hkey⟩⟩
  exact SortedIndex.exists_mem_build hmem

theorem steamMap_get (detectables : List ScannedEntry) (id : String) :
    (buildAuxMaps detectables).1.get id =
      detectables.findIdx? fun entry => id ≠ "" ∧ id ∈ entry.steamIds := by
  rw [buildAuxMaps, SortedIndex.get_build, collectSteamIds_eq, lookup_indexed]
  refine congrArg (List.findIdx? · detectables) (funext fun entry => ?_)
  simp [List.mem_filter, and_comm]

/-- The title of an entry stands before a title that is only an alternative of another exactly when no
earlier entry has it as an alternative. -/
theorem canonical_wins_iff {detectables : List ScannedEntry} {key : String} {index : Nat}
    (hkey : nameMatchable key.toList = true)
    (hindex : (detectables.findIdx? fun entry => normalizeName entry.name = key) = some index) :
    (buildAuxMaps detectables).2.get key = some index ↔
      ∀ entry ∈ detectables.take index, ∀ title ∈ entry.aliases, normalizeName title ≠ key := by
  obtain ⟨hlt, hname, hbefore⟩ := List.findIdx?_eq_some_iff_getElem.mp hindex
  rw [decide_eq_true_eq] at hname
  rw [nameMap_get detectables hkey, List.findIdx?_eq_some_iff_getElem]
  constructor
  · rintro ⟨_, -, hfirst⟩ entry hentry title htitle heq
    obtain ⟨j, hj, rfl⟩ := List.mem_take_iff_getElem.mp hentry
    refine hfirst j (by omega) (decide_eq_true (List.mem_map.mpr ⟨title, ?_, heq⟩))
    exact List.mem_cons_of_mem _ htitle
  · intro hnone
    refine ⟨hlt, decide_eq_true (List.mem_map.mpr ⟨_, List.mem_cons_self .., hname⟩), fun j hj hmem => ?_⟩
    obtain ⟨title, htitle, heq⟩ := List.mem_map.mp (of_decide_eq_true hmem)
    rcases List.mem_cons.mp htitle with rfl | htitle
    · exact hbefore j hj (decide_eq_true heq)
    · exact hnone _ (List.mem_take_iff_getElem.mpr ⟨j, by omega, rfl⟩) title htitle heq

def chameleon : ScannedEntry := { id := ⟨"1"⟩, name := "Meccha Chameleon" }

/-- Another game that has the title of the first among its alternatives. -/
def namesake : ScannedEntry := { id := ⟨"2"⟩, name := "Penguin Hotel", aliases := ["MECCHA: Chameleon"] }

theorem canonical_wins_iff_chameleon : (buildAuxMaps [chameleon, namesake]).2.get "meccha chameleon" = some 0 :=
  (canonical_wins_iff (by decide) (by decide +kernel)).mpr fun _ hentry => absurd hentry List.not_mem_nil

theorem alias_wins :
    ([namesake, chameleon].findIdx? fun entry => normalizeName entry.name = "meccha chameleon") = some 1 ∧
      nameMatchable "meccha chameleon".toList = true ∧
      (buildAuxMaps [namesake, chameleon]).2.get "meccha chameleon" = some 0 := by
  refine ⟨?_, ?_, ?_⟩
  · decide +kernel
  · decide
  · decide +kernel

end RichPresence.Detect
