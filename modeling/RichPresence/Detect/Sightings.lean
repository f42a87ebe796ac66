import Mathlib.Data.Finset.Card
import RichPresence.Detect.SnapshotLane
import RichPresence.Lib.Run

namespace RichPresence.Detect

open Lib

def maxSeenIds : Nat := 1024

def ScannedHit.idText (hit : ScannedHit) : String := hit.entry.id.text

def sight (state : Finset String × List ScannedHit) (game : ScannedHit) : Finset String × List ScannedHit :=
  if game.idText ∈ state.1 then state else (insert game.idText state.1, state.2 ++ [game])

/-- What a call starts from: a table that has reached its size is dropped. -/
def keptIds (seen : Finset String) : Finset String := if maxSeenIds ≤ seen.card then ∅ else seen

/-- The table of seen ids after a batch, and the games of the batch that are new. -/
def firstSightings (seen : Finset String) (detected : List ScannedHit) : Finset String × List ScannedHit :=
  detected.foldl sight (keptIds seen, [])

def seenStep (seen : Finset String) (batch : List ScannedHit) : Finset String := (firstSightings seen batch).1

def seenAfter (batches : List (List ScannedHit)) : Finset String := batches.foldl seenStep ∅

def reported (seen : Finset String) : List (List ScannedHit) → List ScannedHit
  | [] => []
  | batch :: batches => (firstSightings seen batch).2 ++ reported (seenStep seen batch) batches

def idsOf (hits : List ScannedHit) : Finset String := (hits.map ScannedHit.idText).toFinset

variable {seen : Finset String} {batch : List ScannedHit} {batches : List (List ScannedHit)}

theorem idsOf_append (hits hits' : List ScannedHit) : idsOf (hits ++ hits') = idsOf hits ∪ idsOf hits' := by
  rw [idsOf, List.map_append, List.toFinset_append]
  rfl

theorem card_keptIds_lt (seen : Finset String) : (keptIds seen).card < maxSeenIds := by
  rw [keptIds]
  split
  next => decide
  next h => exact Nat.lt_of_not_le h

theorem keptIds_of_lt (h : seen.card < maxSeenIds) : keptIds seen = seen := if_neg (Nat.not_le_of_lt h)

theorem foldl_sight (detected : List ScannedHit) (seen : Finset String) (first : List ScannedHit) :
    ∃ fresh, detected.foldl sight (seen, first) = (seen ∪ idsOf detected, first ++ fresh) ∧
      (fresh.map ScannedHit.idText).Nodup ∧ ∀ id ∈ fresh.map ScannedHit.idText, id ∈ idsOf detected \ seen := by
  induction detected generalizing seen first with
  | nil => exact ⟨[], by simp [idsOf], List.nodup_nil, nofun⟩
  | cons game detected ih =>
      have hids : idsOf (game :: detected) = insert game.idText (idsOf detected) := List.toFinset_cons
      rw [List.foldl_cons, sight, hids]
      by_cases hseen : game.idText ∈ seen
      · obtain ⟨fresh, hfold, hnodup, hfresh⟩ := ih seen first
        rw [if_pos hseen, hfold, Finset.union_insert, Finset.insert_eq_of_mem (Finset.mem_union_left _ hseen)]
        refine ⟨fresh, rfl, hnodup, fun id hid => ?_⟩
        obtain ⟨hmem, hnew⟩ := Finset.mem_sdiff.mp (hfresh id hid)
        exact Finset.mem_sdiff.mpr ⟨Finset.mem_insert_of_mem hmem, hnew⟩
      · obtain ⟨fresh, hfold, hnodup, hfresh⟩ := ih (insert game.idText seen) (first ++ [game])
        rw [if_neg hseen, hfold, Finset.union_insert, Finset.insert_union, List.append_assoc]
        refine ⟨game :: fresh, rfl, List.nodup_cons.mpr ⟨fun hid => ?_, hnodup⟩, fun id hid => ?_⟩
        · exact (Finset.mem_sdiff.mp (hfresh _ hid)).2 (Finset.mem_insert_self _ _)
        · rcases List.mem_cons.mp hid with rfl | hid
          · exact Finset.mem_sdiff.mpr ⟨Finset.mem_insert_self _ _, hseen⟩
          · obtain ⟨hmem, hnew⟩ := Finset.mem_sdiff.mp (hfresh id hid)
            exact Finset.mem_sdiff.mpr
              ⟨Finset.mem_insert_of_mem hmem, fun h => hnew (Finset.mem_insert_of_mem h)⟩

theorem seenStep_eq (seen : Finset String) (batch : List ScannedHit) :
    seenStep seen batch = keptIds seen ∪ idsOf batch := by
  obtain ⟨fresh, hfold, -, -⟩ := foldl_sight batch (keptIds seen) []
  rw [seenStep, firstSightings, hfold]

theorem card_seenStep (seen : Finset String) (batch : List ScannedHit) :
    (seenStep seen batch).card = (idsOf batch \ keptIds seen).card + (keptIds seen).card := by
  rw [seenStep_eq, Finset.union_comm, Finset.card_sdiff_add_card]

theorem seenAfter_concat (called : List (List ScannedHit)) (batch : List ScannedHit) :
    seenAfter (called ++ [batch]) = seenStep (seenAfter called) batch := List.foldl_concat ..

theorem firstSightings_keptIds (seen : Finset String) (batch : List ScannedHit) :
    firstSightings (keptIds seen) batch = firstSightings seen batch := by
  rw [firstSightings, keptIds_of_lt (card_keptIds_lt seen)]
  rfl

theorem nodup_reported (h : Along seenStep (fun seen _ => seen.card < maxSeenIds) seen batches) :
    ((reported seen batches).map ScannedHit.idText).Nodup ∧
      ∀ id ∈ (reported seen batches).map ScannedHit.idText, id ∉ seen := by
  induction batches generalizing seen with
  | nil => exact ⟨List.nodup_nil, nofun⟩
  | cons batch batches ih =>
      obtain ⟨hlt, hrest⟩ := h
      obtain ⟨hnodup, hnew⟩ := ih hrest
      obtain ⟨fresh, hfold, hfresh, hids⟩ := foldl_sight batch seen []
      have hfirst : (firstSightings seen batch).2 = fresh := by
        rw [firstSightings, keptIds_of_lt hlt, hfold]
        rfl
      have hseen {id : String} (hid : id ∈ seen ∪ idsOf batch) : id ∈ seenStep seen batch := by
        rwa [seenStep_eq, keptIds_of_lt hlt]
      rw [reported, hfirst, List.map_append]
      constructor
      · refine List.nodup_append.mpr ⟨hfresh, hnodup, ?_⟩
        rintro id hid _ hid' rfl
        exact hnew id hid' (hseen (Finset.mem_union_right _ (Finset.mem_sdiff.mp (hids id hid)).1))
      · intro id hid
        rcases List.mem_append.mp hid with hid | hid
        · exact (Finset.mem_sdiff.mp (hids id hid)).2
        · exact fun hmem => hnew id hid (hseen (Finset.mem_union_left _ hmem))

/-- The table keeps its bound exactly if every batch finds room for the ids that are new to it: it is
dropped before a batch and never within one. Between two drops no id is reported twice. -/
theorem seen_bounded_iff (batches : List (List ScannedHit)) :
    ((∀ called, called <+: batches → (seenAfter called).card ≤ maxSeenIds) ↔
      ∀ called batch, called ++ [batch] <+: batches →
        (idsOf batch \ keptIds (seenAfter called)).card ≤ maxSeenIds - (keptIds (seenAfter called)).card) ∧
    ∀ called batch rest, called ++ batch :: rest <+: batches →
      Along seenStep (fun seen _ => seen.card < maxSeenIds) (seenAfter (called ++ [batch])) rest →
      ((reported (seenAfter called) (batch :: rest)).map ScannedHit.idText).Nodup := by
  refine ⟨⟨fun h called batch hpart => ?_, fun h called hpart => ?_⟩, fun called batch rest _ hkept => ?_⟩
  · have hcard := h _ hpart
    rw [seenAfter_concat, card_seenStep] at hcard
    omega
  · induction called using List.reverseRecOn with
    | nil => exact Nat.zero_le _
    | append_singleton called batch _ =>
        have hroom := h called batch hpart
        have hlt := card_keptIds_lt (seenAfter called)
        rw [seenAfter_concat, card_seenStep]
        omega
  · -- the first call may drop the table, so the run is taken from what it starts with
    have hstart : reported (seenAfter called) (batch :: rest) =
        reported (keptIds (seenAfter called)) (batch :: rest) := by
      rw [reported, reported, seenStep, seenStep, firstSightings_keptIds]
    have hrun : Along seenStep (fun seen _ => seen.card < maxSeenIds) (keptIds (seenAfter called))
        (batch :: rest) := by
      refine ⟨card_keptIds_lt _, ?_⟩
      rwa [seenStep, firstSightings_keptIds, ← seenStep, ← seenAfter_concat]
    rw [hstart]
    exact (nodup_reported hrun).1

theorem seenAfter_of_few {called : List (List ScannedHit)} (h : called.flatten.length < maxSeenIds) :
    seenAfter called = idsOf called.flatten := by
  induction called using List.reverseRecOn with
  | nil => rfl
  | append_singleton called batch ih =>
      rw [List.flatten_append, List.length_append] at h
      have hcalled := ih (by omega)
      have hcard : (idsOf called.flatten).card ≤ called.flatten.length := by
        have := List.toFinset_card_le (called.flatten.map ScannedHit.idText)
        rwa [List.length_map] at this
      rw [seenAfter_concat, seenStep_eq, hcalled, keptIds_of_lt (by omega), List.flatten_append,
        List.flatten_singleton, idsOf_append]

def numbered (i : Nat) : ScannedHit :=
  ⟨{ id := ⟨String.ofList (List.replicate i 'g')⟩, name := "", executables := [] }, 1, 0, .automaton⟩

theorem idText_numbered_injective : Function.Injective fun i => (numbered i).idText := by
  intro i j h
  have hlist := String.ofList_injective h
  simpa using congrArg List.length hlist

def oneByOne : List (List ScannedHit) := (List.range 1023).map fun i => [numbered i]

theorem flatten_oneByOne : oneByOne.flatten = (List.range 1023).map numbered := by
  rw [oneByOne, ← List.flatMap_def]
  exact List.flatMap_pure_eq_map numbered (List.range 1023)

/-- Two new games in the next batch: the table is not dropped and takes both. -/
theorem batch_passes_bound :
    (seenAfter oneByOne).card = 1023 ∧
      (seenAfter (oneByOne ++ [[numbered 1023, numbered 1024]])).card = maxSeenIds + 1 := by
  have hcard (n : Nat) : (idsOf ((List.range n).map numbered)).card = n := by
    rw [idsOf, List.map_map, List.toFinset_card_of_nodup, List.length_map, List.length_range]
    exact List.nodup_range.map idText_numbered_injective
  have hfew : oneByOne.flatten.length < maxSeenIds := by
    rw [flatten_oneByOne, List.length_map, List.length_range]
    decide
  have hseen := seenAfter_of_few hfew
  rw [flatten_oneByOne] at hseen
  have hbefore : (seenAfter oneByOne).card = 1023 := by rw [hseen, hcard]
  have hall : (List.range 1025).map numbered = (List.range 1023).map numbered ++ [numbered 1023, numbered 1024] := by
    rw [List.range_succ, List.range_succ, List.map_append, List.map_append, List.append_assoc]
    rfl
  refine ⟨hbefore, ?_⟩
  rw [seenAfter_concat, seenStep_eq, keptIds_of_lt (by rw [hbefore]; decide), hseen, ← idsOf_append, ← hall, hcard]
  rfl

end RichPresence.Detect
