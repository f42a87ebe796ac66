import RichPresence.Types.Decode

namespace RichPresence.Value

variable {key : String} {v : Value} {map members : List (String × Value)}

/-- Members by increasing key, so that no key stands twice. -/
def Sorted (members : List (String × Value)) : Prop := members.Pairwise fun m n => m.1 < n.1

mutual

/-- Every object in a value lists its members by increasing key. -/
def Ordered : Value → Prop
  | array items => OrderedItems items
  | object members => Sorted members ∧ OrderedMembers members
  | _ => True

def OrderedItems : List Value → Prop
  | [] => True
  | v :: rest => Ordered v ∧ OrderedItems rest

def OrderedMembers : List (String × Value) → Prop
  | [] => True
  | (_, v) :: rest => Ordered v ∧ OrderedMembers rest

end

theorem lt_of_not_lt {a b : String} (hlt : ¬a < b) (hne : a ≠ b) : b < a :=
  String.not_le.mp fun hle => hne (String.le_antisymm hle (String.not_lt.mp hlt))

theorem mem_insertMember {m : String × Value} (h : m ∈ insertMember key v map) : m = (key, v) ∨ m ∈ map := by
  induction map with
  | nil => exact .inl (List.mem_singleton.mp h)
  | cons n rest ih =>
      rw [insertMember] at h
      split at h
      · exact List.mem_cons.mp h
      split at h
      · exact (List.mem_cons.mp h).imp_right (List.mem_cons_of_mem n)
      rcases List.mem_cons.mp h with rfl | hrest
      · exact .inr List.mem_cons_self
      · exact (ih hrest).imp_right (List.mem_cons_of_mem n)

theorem sorted_insertMember (h : Sorted map) : Sorted (insertMember key v map) := by
  induction map with
  | nil => exact List.pairwise_singleton _ _
  | cons n rest ih =>
      obtain ⟨hn, hrest⟩ := List.pairwise_cons.mp h
      rw [insertMember]
      split
      next hlt =>
        refine List.pairwise_cons.mpr ⟨fun m hm => ?_, h⟩
        rcases List.mem_cons.mp hm with rfl | hm
        · exact hlt
        · exact String.lt_trans hlt (hn m hm)
      next hlt =>
        split
        next heq => exact List.pairwise_cons.mpr ⟨fun m hm => heq ▸ hn m hm, hrest⟩
        next hne =>
          refine List.pairwise_cons.mpr ⟨fun m hm => ?_, ih hrest⟩
          rcases mem_insertMember hm with rfl | hm
          · exact lt_of_not_lt hlt hne
          · exact hn m hm

theorem orderedMembers_iff : OrderedMembers members ↔ ∀ m ∈ members, m.2.Ordered := by
  induction members with
  | nil => simp [OrderedMembers]
  | cons m rest ih =>
      obtain ⟨k, w⟩ := m
      rw [OrderedMembers, ih, List.forall_mem_cons]

theorem orderedMembers_insertMember (hv : v.Ordered) (h : OrderedMembers map) :
    OrderedMembers (insertMember key v map) := by
  rw [orderedMembers_iff] at h ⊢
  intro m hm
  rcases mem_insertMember hm with rfl | hm
  · exact hv
  · exact h m hm

mutual

theorem ordered_loaded : ∀ v : Value, v.loaded.Ordered
  | null | bool _ | number _ | string _ => by simp only [loaded, Ordered]
  | array items => by
      rw [loaded, Ordered]
      exact orderedItems_loaded items
  | object members => by
      rw [loaded, Ordered]
      exact ordered_loadedMembers members [] List.Pairwise.nil trivial

theorem orderedItems_loaded : ∀ items : List Value, OrderedItems (loadedItems items)
  | [] => trivial
  | v :: rest => ⟨ordered_loaded v, orderedItems_loaded rest⟩

theorem ordered_loadedMembers : ∀ members map : List (String × Value), Sorted map → OrderedMembers map →
    Sorted (loadedMembers map members) ∧ OrderedMembers (loadedMembers map members)
  | [], _, hsorted, hordered => ⟨hsorted, hordered⟩
  | (key, v) :: rest, map, hsorted, hordered => by
      rw [loadedMembers]
      exact ordered_loadedMembers rest (insertMember key v.loaded map) (sorted_insertMember hsorted)
        (orderedMembers_insertMember (ordered_loaded v) hordered)

end

theorem insertMember_last (h : ∀ m ∈ map, m.1 < key) : insertMember key v map = map ++ [(key, v)] := by
  induction map with
  | nil => rfl
  | cons n rest ih =>
      have hn : n.1 < key := h n List.mem_cons_self
      have hne : key ≠ n.1 := fun heq => String.lt_irrefl n.1 (heq ▸ hn)
      rw [insertMember, if_neg (String.lt_asymm hn), if_neg hne, ih fun m hm => h m (List.mem_cons_of_mem n hm),
        List.cons_append]

mutual

/-- A value that is already in order reads into itself. -/
theorem loaded_of_ordered : ∀ v : Value, v.Ordered → v.loaded = v
  | null, _ | bool _, _ | number _, _ | string _, _ => by simp only [loaded]
  | array items, h => by
      rw [Ordered] at h
      rw [loaded, loadedItems_of_ordered items h]
  | object members, h => by
      rw [Ordered] at h
      rw [loaded, loadedMembers_of_ordered members [] h.1 h.2, List.nil_append]

theorem loadedItems_of_ordered : ∀ items : List Value, OrderedItems items → loadedItems items = items
  | [], _ => rfl
  | v :: rest, h => by rw [loadedItems, loaded_of_ordered v h.1, loadedItems_of_ordered rest h.2]

theorem loadedMembers_of_ordered : ∀ members map : List (String × Value), Sorted (map ++ members) →
    OrderedMembers members → loadedMembers map members = map ++ members
  | [], map, _, _ => (List.append_nil map).symm
  | (key, v) :: rest, map, hsorted, hordered => by
      have hlast : ∀ m ∈ map, m.1 < key := fun m hm =>
        (List.pairwise_append.mp hsorted).2.2 m hm (key, v) List.mem_cons_self
      rw [List.append_cons] at hsorted ⊢
      rw [loadedMembers, loaded_of_ordered v hordered.1, insertMember_last hlast]
      exact loadedMembers_of_ordered rest (map ++ [(key, v)]) hsorted hordered.2

end

theorem occurrences_of_sorted (h : Sorted members) : occurrences key members = (members.lookup key).toList := by
  induction members with
  | nil => rfl
  | cons m rest ih =>
      obtain ⟨k, w⟩ := m
      obtain ⟨hk, hrest⟩ := List.pairwise_cons.mp h
      rw [List.lookup_cons]
      by_cases hkey : key = k
      · subst hkey
        have hnone : occurrences key rest = [] := by
          refine List.eq_nil_iff_forall_not_mem.mpr fun u hu => ?_
          exact String.lt_irrefl key (hk (key, u) (mem_occurrences.mp hu))
        have hcons : occurrences key ((key, w) :: rest) = w :: occurrences key rest := by simp [occurrences]
        rw [hcons, hnone, beq_self_eq_true]
        rfl
      · have hcons : occurrences key ((k, w) :: rest) = occurrences key rest := by
          simp [occurrences, Ne.symm hkey]
        rw [hcons, ih hrest, beq_false_of_ne hkey]

end RichPresence.Value
