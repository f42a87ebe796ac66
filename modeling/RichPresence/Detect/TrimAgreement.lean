import RichPresence.Detect.Trim

namespace RichPresence

open Decode Serde

namespace Detect

/-- Those of the kept keys under which a list is kept. -/
def listKeys : List String := ["aliases", "executables", "third_party_skus"]

/-- Members that give none of the kept keys twice, and a list wherever a list is kept. -/
def Legible (members : List (String × Value)) : Prop :=
  (∀ key ∈ TrimmedActivity.keys, (Value.occurrences key members).length ≤ 1) ∧
    ∀ key ∈ listKeys, ∀ v, (key, v) ∈ members → ∃ items, v = .array items

/-- An entry as both ways of trimming understand it. An array is an entry of defaults
for the one and gives the kept keys by position for the other, so it must give their
defaults. -/
def Regular (D : Display) (game : Value) : Prop :=
  (∃ members, game = .object members ∧ Legible members) ∨
    ∃ items, game = .array items ∧ items.length ≤ TrimmedActivity.keys.length ∧
      Legible (TrimmedActivity.keys.zip items) ∧
      trimmedEntryFields D (Value.object (TrimmedActivity.keys.zip items)).loaded = trimmedEntryFields D .null

/-- The way through the JSON value. -/
def domParse (D : Display) (body : Value) : Except RsrpcError (List DetectableActivity) := do
  let value ← trimDetectableValue D body
  let parsed ← decoded (vec DetectableActivity.decode value)
  enforceStructure parsed
  return parsed

section Fields

variable {members : List (String × Value)} {key : String}

theorem RawKey.present_of_decode {v : Value} {k : RawKey} (h : RawKey.decode v = some k) :
    k.present = some v.loaded := by
  cases v <;> (obtain rfl := Option.some.inj h; rfl)

theorem present_of_defaulted {k : RawKey} (h : defaulted .absent key RawKey.decode members = some k) :
    k.present = (Value.object members).loaded.get key := by
  obtain ⟨v, hf, hk⟩ := Option.bind_eq_some_iff.mp h
  rw [get_loaded_of_field hf]
  cases v with
  | none =>
      obtain rfl := Option.some.inj hk
      rfl
  | some v => exact RawKey.present_of_decode hk

theorem items_of_defaulted {items : List Value} (h : defaulted [] key (vec value) members = some items) :
    (((Value.object members).loaded.get key).bind Value.asArray).getD [] = items := by
  obtain ⟨v, hf, hk⟩ := Option.bind_eq_some_iff.mp h
  rw [get_loaded_of_field hf]
  cases v with
  | none =>
      obtain rfl := Option.some.inj hk
      rfl
  | some v =>
      simp only [vec_value, Option.map_eq_some_iff] at hk
      obtain ⟨given, hv, rfl⟩ := hk
      cases v with
      | array _ =>
          obtain rfl := Option.some.inj hv
          exact Value.loadedItems_eq_map _
      | null | bool _ | number _ | string _ | object _ => cases hv

theorem defaulted_rawKey_isSome_iff :
    (defaulted .absent key RawKey.decode members).isSome ↔ (Value.occurrences key members).length ≤ 1 := by
  rw [← field_isSome_iff, defaulted]
  rcases field key members with _ | _ | _ | _ | _ | _ | _ | _ <;> exact Iff.rfl

theorem defaulted_list_isSome_iff :
    (defaulted [] key (vec value) members).isSome ↔
      (Value.occurrences key members).length ≤ 1 ∧ ∀ v, (key, v) ∈ members → ∃ items, v = .array items := by
  rw [← field_isSome_iff, defaulted]
  cases hf : field key members with
  | none => simp
  | some v =>
      cases v with
      | none =>
          have hnone := not_mem_of_field hf
          exact ⟨fun _ => ⟨rfl, fun v hv => absurd hv (hnone v)⟩, fun _ => rfl⟩
      | some v =>
          have honly := mem_of_field hf
          simp only [Option.bind_some, vec_value, Option.isSome_map, Option.isSome_some, true_and, honly,
            forall_eq]
          cases v <;> simp [Value.asArray]

end Fields

theorem isSome_bind_iff {α β : Type} {x : Option α} {f : α → Option β} {p : Prop}
    (h : ∀ a, (f a).isSome ↔ p) : (x.bind f).isSome ↔ x.isSome ∧ p := by
  cases x with
  | none => simp
  | some a => simpa using h a

theorem TrimmedActivity.decode_isSome_iff (members : List (String × Value)) :
    (decode (.object members)).isSome ↔ Legible members := by
  have hparts : (decode (.object members)).isSome ↔ _ :=
    isSome_bind_iff fun _ => isSome_bind_iff fun _ => isSome_bind_iff fun _ => isSome_bind_iff fun _ =>
      isSome_bind_iff fun _ => isSome_bind_iff fun _ => iff_of_true rfl trivial
  rw [hparts]
  simp only [defaulted_rawKey_isSome_iff, defaulted_list_isSome_iff, Legible, keys, listKeys, List.forall_mem_cons,
    List.not_mem_nil, false_imp_iff, implies_true, and_true]
  tauto

theorem TrimmedActivity.decode_array (items : List Value) :
    decode (.array items) = if items.length ≤ keys.length then decode (.object (keys.zip items)) else none := by
  rw [decode, membersOf]
  by_cases h : items.length ≤ keys.length <;> simp [h, decode, membersOf]

theorem trimmedEntryFields_congr (D : Display) {game other : Value}
    (hkeys : ∀ key ∈ ["id", "name", "hook"], game.get key = other.get key)
    (hlists : ∀ key ∈ listKeys,
      ((game.get key).bind Value.asArray).getD [] = ((other.get key).bind Value.asArray).getD []) :
    trimmedEntryFields D game = trimmedEntryFields D other := by
  simp only [List.forall_mem_cons, listKeys] at hkeys hlists
  obtain ⟨hid, hname, hhook, -⟩ := hkeys
  obtain ⟨haliases, hexes, hskus, -⟩ := hlists
  have ha : trimmedAliases ((game.get "aliases").bind Value.asArray) =
      trimmedAliases ((other.get "aliases").bind Value.asArray) := by rw [trimmedAliases, haliases, trimmedAliases]
  have he : trimmedExecutables ((game.get "executables").bind Value.asArray) =
      trimmedExecutables ((other.get "executables").bind Value.asArray) := by
    rw [trimmedExecutables, hexes, trimmedExecutables]
  have hs : trimmedSkus D ((game.get "third_party_skus").bind Value.asArray) =
      trimmedSkus D ((other.get "third_party_skus").bind Value.asArray) := by rw [trimmedSkus, hskus, trimmedSkus]
  rw [trimmedEntryFields, hid, hname, hhook, ha, he, hs, trimmedEntryFields]

theorem TrimmedActivity.fields_raw (D : Display) {members : List (String × Value)} {game : TrimmedActivity}
    (h : decode (.object members) = some game) :
    trimmedEntryFields D game.raw = trimmedEntryFields D (Value.object members).loaded := by
  simp only [decode, membersOf, Option.bind_eq_bind, Option.bind_some, Option.bind_eq_some_iff,
    Option.some.injEq] at h
  obtain ⟨id, hid, name, hname, hook, hhook, aliases, haliases, executables, hexes, skus, hskus, rfl⟩ := h
  apply trimmedEntryFields_congr
  · simp [raw, get_record_cons, get_record_nil, present_of_defaulted hid, present_of_defaulted hname,
      present_of_defaulted hhook]
  · simp [listKeys, raw, get_record_cons, get_record_nil, items_of_defaulted haliases, items_of_defaulted hexes,
      items_of_defaulted hskus, Value.asArray]

section Decoded

theorem string_eq {v : Value} {s : String} (h : string v = some s) : v = .string s := by
  cases v with
  | string t => rw [Option.some.inj h]
  | null | bool _ | number _ | array _ | object _ => cases h

theorem bool_eq {v : Value} {b : Bool} (h : bool v = some b) : v = .bool b := by
  cases v with
  | bool c => rw [Option.some.inj h]
  | null | string _ | number _ | array _ | object _ => cases h

theorem DetectableActivity.decode_fields (id name hook : Value) (aliases : Option Value)
    (executables skus : List Value) :
    decode (record [("id", some id), ("name", some name), ("hook", some hook), ("aliases", aliases),
      ("executables", some (.array executables)), ("third_party_skus", some (.array skus))]) =
    (option (vec Executable.decode) (.array executables)).bind fun executables =>
      (bool hook).bind fun hook => (string id).bind fun id => (string name).bind fun name =>
        (option (vec ThirdPartySku.decode) (.array skus)).bind fun thirdPartySkus =>
          (aliases.elim (some none) (option (vec string))).bind fun aliases =>
            some { id, name, hook, aliases, executables, thirdPartySkus } := by
  cases aliases <;> rfl

end Decoded

section Entries

variable (D : Display)

/-- One entry through the JSON value, and one read straight from the text. -/
def projected (game : Value) : Option DetectableActivity :=
  DetectableActivity.decode (trimmedEntryFields D game.loaded)

def streamed (game : Value) : Option DetectableActivity :=
  (TrimmedActivity.decode game).bind fun read => DetectableActivity.decode (trimmedEntryFields D read.raw)

def checked (parsed : List DetectableActivity) : Except RsrpcError (List DetectableActivity) := do
  enforceStructure parsed
  return parsed

theorem mapM_decoded {α β : Type} (f : α → Option β) (xs : List α) :
    (xs.mapM fun x => decoded (f x)) = decoded (xs.mapM f) := by
  induction xs with
  | nil => rfl
  | cons x xs ih =>
      rw [List.mapM_cons, ih, List.mapM_cons]
      cases f x with
      | none => rfl
      | some y => cases xs.mapM f <;> rfl

theorem decoded_bind {α β : Type} (x : Option α) (f : α → Option β) :
    (decoded x >>= fun a => decoded (f a)) = decoded (x.bind f) := by
  cases x <;> rfl

theorem trimParse_eq (body : Value) : trimParse D body = decoded (vec (streamed D) body) >>= checked := by
  have hvec : vec (streamed D) body =
      (vec TrimmedActivity.decode body).bind fun games =>
        games.mapM fun read => DetectableActivity.decode (trimmedEntryFields D read.raw) := by
    cases body with
    | array items => exact (mapM_mapM _ _ items).symm
    | null | bool _ | number _ | string _ | object _ => rfl
  rw [hvec, ← decoded_bind, bind_assoc, trimParse]
  simp only [mapM_decoded]
  rfl

theorem domParse_eq (body : Value) : domParse D body = decoded (vec (projected D) body) >>= checked := by
  cases body with
  | array items =>
      have htrim : trimDetectableValue D (.array items) =
          .ok (.array ((items.map Value.loaded).map (trimmedEntryFields D))) := by
        rw [trimDetectableValue, vec_value]
        rfl
      have hvec : vec DetectableActivity.decode (.array ((items.map Value.loaded).map (trimmedEntryFields D))) =
          vec (projected D) (.array items) := by
        simp only [vec, List.mapM_map]
        rfl
      rw [domParse, htrim, ← hvec]
      rfl
  | null | bool _ | number _ | string _ | object _ => rfl

theorem streamed_object_iff {members : List (String × Value)} {activity : DetectableActivity} :
    streamed D (.object members) = some activity ↔
      Legible members ∧ projected D (.object members) = some activity := by
  rw [streamed, Option.bind_eq_some_iff]
  constructor
  · rintro ⟨read, hread, hdec⟩
    rw [TrimmedActivity.fields_raw D hread] at hdec
    exact ⟨(TrimmedActivity.decode_isSome_iff members).mp (by rw [hread]; rfl), hdec⟩
  · rintro ⟨hlegible, hdec⟩
    obtain ⟨read, hread⟩ := Option.isSome_iff_exists.mp ((TrimmedActivity.decode_isSome_iff members).mpr hlegible)
    exact ⟨read, hread, by rw [TrimmedActivity.fields_raw D hread]; exact hdec⟩

theorem streamed_array (items : List Value) :
    streamed D (.array items) =
      if items.length ≤ TrimmedActivity.keys.length then streamed D (.object (TrimmedActivity.keys.zip items))
      else none := by
  rw [streamed, TrimmedActivity.decode_array]
  split <;> rfl

/-- The entry of defaults. -/
def blankEntry : DetectableActivity :=
  { id := "", name := "", hook := false, executables := some [], thirdPartySkus := some [] }

theorem projected_array (items : List Value) : projected D (.array items) = some blankEntry := rfl

/-- The projection decodes into the entry of defaults only if it is the projection
of defaults. -/
theorem fields_of_blank {game : Value}
    (h : DetectableActivity.decode (trimmedEntryFields D game) = some blankEntry) :
    trimmedEntryFields D game = trimmedEntryFields D .null := by
  have hlist {α : Type} {d : Decoder α} {items : List Value} (h : option (vec d) (.array items) = some (some [])) :
      items = [] := by
    obtain ⟨xs, hxs, hnil⟩ := Option.map_eq_some_iff.mp h
    obtain rfl : xs = [] := Option.some.inj hnil
    exact List.forall₂_nil_right_iff.mp (mapM_eq_some_iff.mp hxs)
  rw [trimmedEntryFields, DetectableActivity.decode_fields] at h
  simp only [Option.bind_eq_some_iff] at h
  obtain ⟨exes, hexes, hook, hhook, id, hid, name, hname, skus, hskus, aliases, haliases, h⟩ := h
  obtain ⟨rfl, rfl, rfl, rfl, rfl, rfl⟩ : exes = some [] ∧ hook = false ∧ id = "" ∧ name = "" ∧ skus = some [] ∧
      aliases = none := by
    cases h
    exact ⟨rfl, rfl, rfl, rfl, rfl, rfl⟩
  have hkept : trimmedAliases ((game.get "aliases").bind Value.asArray) = [] := by
    by_contra hne
    rw [if_neg (by simpa using hne)] at haliases
    obtain ⟨_, _, hnone⟩ := Option.map_eq_some_iff.mp haliases
    cases hnone
  rw [trimmedEntryFields, hkept, hlist hexes, hlist hskus, string_eq hid, string_eq hname, bool_eq hhook]
  rfl

theorem Regular.same {game : Value} (h : Regular D game) : streamed D game = projected D game := by
  rcases h with ⟨members, rfl, hlegible⟩ | ⟨items, rfl, hlen, hlegible, hblank⟩
  · refine Option.ext fun activity => ?_
    rw [streamed_object_iff, and_iff_right hlegible]
  · rw [streamed_array, if_pos hlen]
    refine Option.ext fun activity => ?_
    rw [streamed_object_iff, and_iff_right hlegible, projected, hblank]
    rfl

theorem regular_of_same {game : Value} {activity : DetectableActivity} (h : streamed D game = some activity)
    (hp : projected D game = some activity) : Regular D game := by
  cases game with
  | object members => exact .inl ⟨members, rfl, ((streamed_object_iff D).mp h).1⟩
  | array items =>
      obtain rfl := Option.some.inj ((projected_array D items).symm.trans hp)
      rw [streamed_array] at h
      split at h
      next hlen =>
        obtain ⟨hlegible, hdec⟩ := (streamed_object_iff D).mp h
        exact .inr ⟨items, rfl, hlen, hlegible, fields_of_blank D hdec⟩
      next => cases h
  | null | bool _ | number _ | string _ => cases h

theorem projected_of_streamed {game : Value} {activity : DetectableActivity} (h : streamed D game = some activity) :
    ∃ other, projected D game = some other ∧ (enforceEntry activity = .ok () → enforceEntry other = .ok ()) := by
  cases game with
  | object members => exact ⟨activity, ((streamed_object_iff D).mp h).2, id⟩
  | array items => exact ⟨blankEntry, projected_array D items, fun _ => rfl⟩
  | null | bool _ | number _ | string _ => cases h

theorem projected_of_streameds {games : List Value} {parsed : List DetectableActivity}
    (h : List.Forall₂ (fun game entry => streamed D game = some entry) games parsed)
    (hcheck : ∀ entry ∈ parsed, enforceEntry entry = .ok ()) :
    ∃ others, List.Forall₂ (fun game entry => projected D game = some entry) games others ∧
      ∀ entry ∈ others, enforceEntry entry = .ok () := by
  induction h with
  | nil => exact ⟨[], .nil, fun _ h => absurd h List.not_mem_nil⟩
  | cons hfirst _ ih =>
      simp only [List.forall_mem_cons] at hcheck
      obtain ⟨other, hother, hcap⟩ := projected_of_streamed D hfirst
      obtain ⟨others, hothers, hcaps⟩ := ih hcheck.2
      refine ⟨other :: others, .cons hother hothers, ?_⟩
      simp only [List.forall_mem_cons]
      exact ⟨hcap hcheck.1, hcaps⟩

theorem checked_ok_iff {result : Option (List DetectableActivity)} {parsed : List DetectableActivity} :
    (decoded result >>= checked) = .ok parsed ↔ result = some parsed ∧ enforceStructure parsed = .ok () := by
  cases result with
  | none => exact ⟨fun h => (nomatch h), fun h => (nomatch h.1)⟩
  | some given =>
      change checked given = .ok parsed ↔ _
      rw [checked]
      cases hcheck : enforceStructure given with
      | error e =>
          refine ⟨fun h => (nomatch h), ?_⟩
          rintro ⟨⟨⟩, h⟩
          rw [hcheck] at h
          cases h
      | ok _ =>
          constructor
          · rintro ⟨⟩
            exact ⟨rfl, hcheck⟩
          · rintro ⟨⟨⟩, -⟩
            rfl

theorem trimParse_ok_iff {games : List Value} {parsed : List DetectableActivity} :
    trimParse D (.array games) = .ok parsed ↔
      List.Forall₂ (fun game entry => streamed D game = some entry) games parsed ∧
        enforceStructure parsed = .ok () := by
  rw [trimParse_eq, checked_ok_iff, vec, mapM_eq_some_iff]

theorem domParse_ok_iff {games : List Value} {parsed : List DetectableActivity} :
    domParse D (.array games) = .ok parsed ↔
      List.Forall₂ (fun game entry => projected D game = some entry) games parsed ∧
        enforceStructure parsed = .ok () := by
  rw [domParse_eq, checked_ok_iff, vec, mapM_eq_some_iff]

end Entries

end Detect

end RichPresence
