import RichPresence.Types.Json
import Mathlib.Data.List.Forall2

namespace RichPresence

namespace Value

/-- `Map::insert`: members are kept in the order of their keys. -/
def insertMember (key : String) (v : Value) : List (String × Value) → List (String × Value)
  | [] => [(key, v)]
  | m :: rest =>
      if key < m.1 then (key, v) :: m :: rest
      else if key = m.1 then (key, v) :: rest
      else m :: insertMember key v rest

mutual

/-- The value that a JSON text reads into. The members of the text stand in its
order and a key may occur in it more than once; the last one is kept. -/
def loaded : Value → Value
  | array items => array (loadedItems items)
  | object members => object (loadedMembers [] members)
  | v => v

def loadedItems : List Value → List Value
  | [] => []
  | v :: rest => loaded v :: loadedItems rest

def loadedMembers (map : List (String × Value)) : List (String × Value) → List (String × Value)
  | [] => map
  | (key, v) :: rest => loadedMembers (insertMember key (loaded v) map) rest

end

def occurrences (key : String) (members : List (String × Value)) : List Value :=
  (members.filter fun m => m.1 = key).map Prod.snd

theorem lookup_insertMember (key k : String) (v : Value) (map : List (String × Value)) :
    (insertMember k v map).lookup key = if key = k then some v else map.lookup key := by
  induction map with
  | nil => simp only [insertMember, List.lookup_cons, List.lookup_nil]; split <;> simp_all
  | cons m rest ih =>
      obtain ⟨k', v'⟩ := m
      rw [insertMember]
      split
      · simp only [List.lookup_cons]
        split <;> simp_all
      · split
        next h =>
          simp only at h
          subst h
          simp only [List.lookup_cons]
          split <;> simp_all
        next h =>
          simp only [List.lookup_cons, ih]
          simp only at h
          split <;> split <;> simp_all

theorem lookup_loadedMembers (key : String) (members map : List (String × Value)) :
    (loadedMembers map members).lookup key =
      ((occurrences key members).getLast?.map loaded).or (map.lookup key) := by
  induction members generalizing map with
  | nil => rfl
  | cons m rest ih =>
      obtain ⟨k, v⟩ := m
      rw [loadedMembers, ih, lookup_insertMember]
      by_cases h : k = key
      · subst h
        have hocc : occurrences k ((k, v) :: rest) = v :: occurrences k rest := by simp [occurrences]
        rw [hocc, List.getLast?_cons, if_pos rfl]
        cases (occurrences k rest).getLast? <;> rfl
      · have hocc : occurrences key ((k, v) :: rest) = occurrences key rest := by simp [occurrences, h]
        rw [hocc, if_neg (Ne.symm h)]

theorem get_loaded (key : String) (members : List (String × Value)) :
    (object members).loaded.get key = (occurrences key members).getLast?.map loaded := by
  rw [loaded, get, lookup_loadedMembers, List.lookup_nil, Option.or_none]

theorem loadedItems_eq_map (items : List Value) : loadedItems items = items.map loaded := by
  induction items with
  | nil => rfl
  | cons v rest ih => rw [loadedItems, ih, List.map_cons]

theorem mem_occurrences {key : String} {members : List (String × Value)} {v : Value} :
    v ∈ occurrences key members ↔ (key, v) ∈ members := by
  rw [occurrences, List.mem_map]
  constructor
  · rintro ⟨⟨k, v'⟩, hm, rfl⟩
    obtain ⟨hmem, hk⟩ := List.mem_filter.mp hm
    obtain rfl : k = key := of_decide_eq_true hk
    exact hmem
  · intro hm
    exact ⟨(key, v), List.mem_filter.mpr ⟨hm, decide_eq_true rfl⟩, rfl⟩

end Value

/-- How a derived `Deserialize` reads a value. The members of an object stand
as the text has them. -/
abbrev Decoder (α : Type) := Value → Option α

namespace Decode

variable {α : Type}

def string : Decoder String := Value.asStr

def bool : Decoder Bool
  | .bool b => some b
  | _ => none

def i64 : Decoder Int := Value.asI64

def u64 : Decoder Nat := Value.asU64

def value : Decoder Value := fun v => some v.loaded

def option (d : Decoder α) : Decoder (Option α)
  | .null => some none
  | v => (d v).map some

def vec (d : Decoder α) : Decoder (List α)
  | .array items => items.mapM d
  | _ => none

/-- A derived struct with a flattened field is read from a map and from nothing else. -/
def struct (fields : List (String × Value) → Option α) : Decoder α
  | .object members => fields members
  | _ => none

/-- What a derived struct with no flattened field is read from: the members of a
map, or an array that gives the fields by position. The fields from `least` on
have a default of their own and may be missing at the end of the array. -/
def membersOf (keys : List String) (least : Nat) : Value → Option (List (String × Value))
  | .object members => some members
  | .array items => if least ≤ items.length ∧ items.length ≤ keys.length then some (keys.zip items) else none
  | _ => none

/-- A field of a struct is absent or given once; a second one is an error. -/
def field (key : String) (members : List (String × Value)) : Option (Option Value) :=
  match Value.occurrences key members with
  | [] => some none
  | [v] => some (some v)
  | _ => none

def required (key : String) (d : Decoder α) (members : List (String × Value)) : Option α :=
  (field key members).bind fun v => v.bind d

def defaulted (default : α) (key : String) (d : Decoder α) (members : List (String × Value)) : Option α :=
  (field key members).bind fun
    | none => some default
    | some v => d v

def optional (key : String) (d : Decoder α) (members : List (String × Value)) : Option (Option α) :=
  defaulted none key (option d) members

theorem mapM_eq_some_iff {β : Type} {f : α → Option β} {xs : List α} {ys : List β} :
    xs.mapM f = some ys ↔ List.Forall₂ (fun x y => f x = some y) xs ys := by
  induction xs generalizing ys with
  | nil => cases ys <;> simp
  | cons x xs ih =>
      rw [List.mapM_cons]
      simp only [Option.bind_eq_bind, Option.bind_eq_some_iff, Option.pure_def, Option.some.injEq]
      constructor
      · rintro ⟨y, hy, zs, hzs, rfl⟩
        exact .cons hy (ih.mp hzs)
      · rintro (_ | ⟨hy, hzs⟩)
        exact ⟨_, hy, _, ih.mpr hzs, rfl⟩

theorem mapM_mapM {β γ : Type} (f : α → Option β) (g : β → Option γ) (xs : List α) :
    (xs.mapM f).bind (fun ys => ys.mapM g) = xs.mapM fun x => (f x).bind g := by
  induction xs with
  | nil => rfl
  | cons x xs ih =>
      simp only [List.mapM_cons, Option.bind_eq_bind, Option.pure_def, ← ih]
      cases f x with
      | none => rfl
      | some y =>
          cases xs.mapM f with
          | none => cases hg : g y <;> simp [hg]
          | some ys => simp [List.mapM_cons]

theorem vec_value (v : Value) : vec value v = v.asArray.map fun items => items.map Value.loaded := by
  cases v with
  | array items => exact List.mapM_pure
  | null | bool _ | number _ | string _ | object _ => rfl

theorem get_loaded_of_field {key : String} {members : List (String × Value)} {v : Option Value}
    (h : field key members = some v) : (Value.object members).loaded.get key = v.map Value.loaded := by
  rw [Value.get_loaded]
  rw [field] at h
  split at h
  next hocc =>
      obtain rfl : none = v := Option.some.inj h
      rw [hocc]
      rfl
  next w hocc =>
      obtain rfl : some w = v := Option.some.inj h
      rw [hocc]
      rfl
  next => cases h

theorem field_isSome_iff {key : String} {members : List (String × Value)} :
    (field key members).isSome ↔ (Value.occurrences key members).length ≤ 1 := by
  rw [field]
  rcases Value.occurrences key members with _ | ⟨v, _ | ⟨w, rest⟩⟩ <;> simp

theorem mem_of_field {key : String} {members : List (String × Value)} {v : Value}
    (h : field key members = some (some v)) (w : Value) : (key, w) ∈ members ↔ w = v := by
  rw [← Value.mem_occurrences]
  rw [field] at h
  split at h
  next => cases h
  next u hocc =>
      obtain rfl : u = v := Option.some.inj (Option.some.inj h)
      rw [hocc, List.mem_singleton]
  next => cases h

theorem not_mem_of_field {key : String} {members : List (String × Value)}
    (h : field key members = some none) (w : Value) : (key, w) ∉ members := by
  rw [← Value.mem_occurrences]
  rw [field] at h
  split at h
  next hocc => rw [hocc]; exact List.not_mem_nil
  next => cases h
  next => cases h

end Decode

end RichPresence
