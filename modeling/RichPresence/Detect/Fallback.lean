import RichPresence.Detect.TrimmedParts

namespace RichPresence.Detect

open Decode Serde

/-- The members of an entry that decode the same way whether or not they are
trimmed first. -/
structure Plain (members : List (String × Value)) : Prop where
  noNull : ∀ key ∈ listKeys, (key, Value.null) ∉ members
  aliases : ∀ items, ("aliases", .array items) ∈ members → ∀ s, .string s ∈ items → isBlank s = false
  executables : ∀ items, ("executables", .array items) ∈ members → ∀ exe ∈ items, PlainExecutable exe
  steam : ∀ items, ("third_party_skus", .array items) ∈ members → ∀ sku, .object sku ∈ items →
    ("distributor", .string "steam") ∈ sku → ("id", .null) ∉ sku

/-- No SKU of Steam is given by position. -/
def NamedSkus (members : List (String × Value)) : Prop :=
  ∀ items, ("third_party_skus", .array items) ∈ members → ∀ sku, .array sku ∈ items →
    sku.head? ≠ some (.string "steam")

section Entries

variable {members : List (String × Value)} {entry : DetectableActivity}

structure DetectableActivity.ReadFrom (members : List (String × Value)) (entry : DetectableActivity) : Prop where
  id : required "id" string members = some entry.id
  name : required "name" string members = some entry.name
  hook : required "hook" bool members = some entry.hook
  aliases : optional "aliases" (vec string) members = some entry.aliases
  executables : optional "executables" (vec Executable.decode) members = some entry.executables
  thirdPartySkus : optional "third_party_skus" (vec ThirdPartySku.decode) members = some entry.thirdPartySkus

theorem DetectableActivity.readFrom_of_decode (h : decode (.object members) = some entry) :
    entry.ReadFrom members := by
  have peel {α : Type} {x : Option α} {f : α → Option DetectableActivity} (h : x.bind f = some entry) :
      ∃ a, x = some a ∧ f a = some entry := Option.bind_eq_some_iff.mp h
  rw [decode] at h
  obtain ⟨_, hmembers, h⟩ := peel h
  obtain rfl := Option.some.inj hmembers
  -- the fields in their order; those the scanner does not read are passed over
  iterate 5 obtain ⟨_, _, h⟩ := peel h
  obtain ⟨_, hexes, h⟩ := peel h
  iterate 2 obtain ⟨_, _, h⟩ := peel h
  obtain ⟨_, hhook, h⟩ := peel h
  obtain ⟨_, _, h⟩ := peel h
  obtain ⟨_, hid, h⟩ := peel h
  obtain ⟨_, hname, h⟩ := peel h
  iterate 3 obtain ⟨_, _, h⟩ := peel h
  obtain ⟨_, hskus, h⟩ := peel h
  iterate 4 obtain ⟨_, _, h⟩ := peel h
  obtain ⟨_, haliases, h⟩ := peel h
  iterate 9 obtain ⟨_, _, h⟩ := peel h
  obtain rfl := Option.some.inj h
  exact ⟨hid, hname, hhook, haliases, hexes, hskus⟩

theorem DetectableActivity.decode_record (id name : String) (hook : Bool) (aliases : List String)
    {executables skus : List Value} {exes : List Executable} {kept : List ThirdPartySku}
    (hexes : executables.mapM Executable.decode = some exes) (hskus : skus.mapM ThirdPartySku.decode = some kept) :
    decode (record [("id", some (text id)), ("name", some (text name)), ("hook", some (.bool hook)),
      ("aliases", if (aliases.map Value.string).isEmpty then none else some (.array (aliases.map .string))),
      ("executables", some (.array executables)), ("third_party_skus", some (.array skus))]) =
    some { id, name, hook, aliases := if aliases.isEmpty then none else some aliases,
           executables := some exes, thirdPartySkus := some kept } := by
  have hlist : (aliases.map Value.string).mapM string = some aliases := by
    rw [List.mapM_map]
    exact List.mapM_pure.trans (by rw [List.map_id']; rfl)
  have htext (s : String) : string (text s) = some s := rfl
  have hhook : Decode.bool (.bool hook) = some hook := rfl
  rw [decode_fields]
  simp only [option, vec, hexes, hskus, htext, hhook, Option.map_some, Option.bind_some, List.isEmpty_map]
  split
  · rfl
  · simp only [Option.elim, option, vec, hlist, Option.map_some, Option.bind_some]

theorem DetectableActivity.ReadFrom.legible (h : entry.ReadFrom members)
    (hnull : ∀ key ∈ listKeys, (key, Value.null) ∉ members) : Legible members := by
  rw [Legible]
  simp only [TrimmedActivity.keys, listKeys, List.forall_mem_cons, List.not_mem_nil, false_imp_iff, implies_true,
    and_true] at hnull ⊢
  have haliases := array_of_optional h.aliases hnull.1
  have hexes := array_of_optional h.executables hnull.2.1
  have hskus := array_of_optional h.thirdPartySkus hnull.2.2
  have hid := occurrences_of_field (field_of_required_string h.id)
  have hname := occurrences_of_field (field_of_required_string h.name)
  have hhook := occurrences_of_field (field_of_required_bool h.hook)
  exact ⟨⟨hid, hname, hhook, haliases.1, hexes.1, hskus.1⟩, haliases.2, hexes.2, hskus.2⟩

/-- An entry as the projection leaves it, with the executables and SKUs that it makes. -/
def DetectableActivity.trimmed (entry : DetectableActivity) (exes : List Executable) (kept : List ThirdPartySku) :
    DetectableActivity :=
  let aliases := (entry.aliases.getD []).filter (!isBlank ·)
  { id := entry.id, name := entry.name, hook := entry.hook
    aliases := if aliases.isEmpty then none else some aliases
    executables := some exes, thirdPartySkus := some kept }

variable {exes : List Executable} {kept : List ThirdPartySku}

theorem DetectableActivity.aliases_trimmed (entry : DetectableActivity) :
    (entry.trimmed exes kept).aliases.getD [] = (entry.aliases.getD []).filter (!isBlank ·) := by
  rw [trimmed]
  dsimp only
  split
  next h => rw [List.isEmpty_iff.mp h, Option.getD_none]
  next => rfl

theorem enforceEntry_trimmed (h : enforceEntry entry = .ok ())
    (hlen : exes.length = (entry.executables.getD []).length)
    (hexes : (∀ exe ∈ entry.executables.getD [], enforceExecutable exe = .ok ()) →
      ∀ exe ∈ exes, enforceExecutable exe = .ok ())
    (hkept : kept.length ≤ (entry.thirdPartySkus.getD []).length) :
    enforceEntry (entry.trimmed exes kept) = .ok () := by
  rw [enforceEntry_ok_iff] at h ⊢
  obtain ⟨hid, hname, hcount, hchecked, haliases, hskus⟩ := h
  rw [DetectableActivity.aliases_trimmed]
  exact ⟨hid, hname, Nat.le_trans (Nat.le_of_eq hlen) hcount, hexes hchecked,
    Nat.le_trans (List.length_filter_le _ _) haliases, Nat.le_trans hkept hskus⟩

theorem fromActivity_trimmed_iff (entry : DetectableActivity) :
    ScannedEntry.fromActivity (entry.trimmed exes kept) = .fromActivity entry ↔
      (∀ s ∈ entry.aliases.getD [], isBlank s = false) ∧
      exes.map ScannedExe.fromExecutable = (entry.executables.getD []).map .fromExecutable ∧
      kept.filterMap ThirdPartySku.steamId =
        (entry.thirdPartySkus.getD []).filterMap ThirdPartySku.steamId := by
  have hfilter : (entry.aliases.getD []).filter (!isBlank ·) = entry.aliases.getD [] ↔
      ∀ s ∈ entry.aliases.getD [], isBlank s = false := by
    simp only [List.filter_eq_self, Bool.not_eq_true']
  rw [← hfilter, ScannedEntry.fromActivity, DetectableActivity.aliases_trimmed, ScannedEntry.fromActivity,
    ScannedEntry.mk.injEq]
  constructor
  · rintro ⟨-, -, hexes, hskus, haliases⟩
    exact ⟨haliases, hexes, hskus⟩
  · rintro ⟨haliases, hexes, hskus⟩
    exact ⟨rfl, rfl, hexes, hskus, haliases⟩

theorem streamed_entry (D : Display) (hdec : DetectableActivity.decode (.object members) = some entry)
    (hnull : ∀ key ∈ listKeys, (key, Value.null) ∉ members) (hnamed : NamedSkus members) :
    ∃ trimmed, streamed D (.object members) = some trimmed ∧
      (ScannedEntry.fromActivity trimmed = .fromActivity entry ↔ Plain members) ∧
      (enforceEntry entry = .ok () → enforceEntry trimmed = .ok ()) := by
  have hread := DetectableActivity.readFrom_of_decode hdec
  obtain ⟨hnull₁, hnull₂, hnull₃, -⟩ : _ ∧ _ ∧ _ ∧ _ := by
    simpa only [listKeys, List.forall_mem_cons] using hnull
  obtain ⟨aliasItems, haliases, haliasItems, haliasP⟩ := items_of_optional hread.aliases hnull₁
  obtain ⟨exeItems, hexes, hexeItems, hexeP⟩ := items_of_optional hread.executables hnull₂
  obtain ⟨skuItems, hskus, hskuItems, hskuP⟩ := items_of_optional hread.thirdPartySkus hnull₃
  have hpositions := (hskuP (fun items => ∀ sku : List Value, Value.array sku ∈ items →
    sku.head? ≠ some (.string "steam")) (by rintro _ ⟨⟩)).mp hnamed
  obtain ⟨exes, hexeDec, hexeLen, hexeCheck, hexePlain⟩ := executables_of_items hexeItems
  obtain ⟨kept, hskuDec, hskuLen, -, hskuPlain⟩ := skus_of_items D hskuItems hpositions
  obtain rfl := aliases_of_items haliasItems
  refine ⟨entry.trimmed exes kept, (streamed_object_iff D).mpr ⟨hread.legible hnull, ?_⟩, ?_,
    fun h => enforceEntry_trimmed h hexeLen hexeCheck hskuLen⟩
  · have haliasDec : trimmedAliases (((Value.object members).loaded.get "aliases").bind Value.asArray) =
        ((entry.aliases.getD []).filter (!isBlank ·)).map .string := by
      rw [trimmedAliases, haliases, List.map_map, List.filterMap_map]
      congr 2
      exact List.filterMap_some
    rw [projected, trimmedEntryFields, haliasDec, trimmedExecutables, hexes, trimmedSkus, hskus,
      get_loaded_of_field (field_of_required_string hread.id),
      get_loaded_of_field (field_of_required_string hread.name),
      get_loaded_of_field (field_of_required_bool hread.hook)]
    exact DetectableActivity.decode_record entry.id entry.name entry.hook _ hexeDec hskuDec
  · have hblank := haliasP (fun items => ∀ s, .string s ∈ items → isBlank s = false) (by rintro _ ⟨⟩)
    have hplain := hexeP (fun items => ∀ exe ∈ items, PlainExecutable exe) (by rintro _ ⟨⟩)
    have hsteam := hskuP (fun items => ∀ sku, .object sku ∈ items → ("distributor", .string "steam") ∈ sku →
      ("id", .null) ∉ sku) (by rintro _ ⟨⟩)
    simp only [List.mem_map, Value.string.injEq, exists_eq_right] at hblank
    rw [fromActivity_trimmed_iff, ← hexePlain, ← hskuPlain, ← hblank, ← hplain, ← hsteam]
    exact ⟨fun h => ⟨hnull, h.1, h.2.1, h.2.2⟩, fun h => ⟨h.aliases, h.executables, h.steam⟩⟩

theorem streamed_positional (D : Display) {items : List Value}
    (hdec : DetectableActivity.decode (.array items) = some entry) : streamed D (.array items) = none := by
  obtain ⟨read, hread, -⟩ := Option.bind_eq_some_iff.mp hdec
  rw [membersOf] at hread
  split at hread
  next hlen =>
    rw [streamed_array, if_neg]
    simp only [TrimmedActivity.keys, List.length_cons, List.length_nil]
    omega
  next => cases hread

end Entries

section Bodies

variable (D : Display) {games : List Value} {entries trimmed : List DetectableActivity}
  (h : List.Forall₂ (fun game entry => DetectableActivity.decode game = some entry) games entries)
  (hnamed : ∀ members, .object members ∈ games → NamedSkus members)

include h hnamed

theorem streamed_entries (hplain : ∀ game ∈ games, ∃ members, game = .object members ∧ Plain members) :
    ∃ trimmed, List.Forall₂ (fun game entry => streamed D game = some entry) games trimmed ∧
      trimmed.map ScannedEntry.fromActivity = entries.map .fromActivity ∧
      ((∀ entry ∈ entries, enforceEntry entry = .ok ()) → ∀ entry ∈ trimmed, enforceEntry entry = .ok ()) := by
  induction h with
  | nil => exact ⟨[], .nil, rfl, fun _ _ h => absurd h List.not_mem_nil⟩
  | cons hdec _ ih =>
      simp only [List.forall_mem_cons] at hplain
      obtain ⟨⟨members, rfl, hm⟩, hrest⟩ := hplain
      obtain ⟨trimmed, hread, hsame, hcheck⟩ :=
        ih (fun members hm => hnamed members (List.mem_cons_of_mem _ hm)) hrest
      obtain ⟨first, hfirst, hscan, hcap⟩ := streamed_entry D hdec hm.noNull (hnamed members List.mem_cons_self)
      refine ⟨first :: trimmed, .cons hfirst hread, ?_, ?_⟩
      · rw [List.map_cons, List.map_cons, hscan.mpr hm, hsame]
      · simp only [List.forall_mem_cons]
        exact fun h => ⟨hcap h.1, hcheck h.2⟩

theorem plain_of_streamed (hread : List.Forall₂ (fun game entry => streamed D game = some entry) games trimmed)
    (hsame : trimmed.map ScannedEntry.fromActivity = entries.map .fromActivity) :
    ∀ game ∈ games, ∃ members, game = .object members ∧ Plain members := by
  induction h generalizing trimmed with
  | nil => exact fun _ h => absurd h List.not_mem_nil
  | @cons game entry games entries hdec _ ih =>
      obtain _ | ⟨hfirst, hrest⟩ := hread
      rw [List.map_cons, List.map_cons, List.cons.injEq] at hsame
      rw [List.forall_mem_cons]
      refine ⟨?_, ih (fun members hm => hnamed members (List.mem_cons_of_mem _ hm)) hrest hsame.2⟩
      cases game with
      | object members =>
          have hlegible := ((streamed_object_iff D).mp hfirst).1
          have hnull : ∀ key ∈ listKeys, (key, Value.null) ∉ members := by
            intro key hkey hmem
            obtain ⟨items, hitems⟩ := hlegible.2 key hkey _ hmem
            cases hitems
          obtain ⟨given, hgiven, hscan, -⟩ := streamed_entry D hdec hnull (hnamed members List.mem_cons_self)
          obtain rfl := Option.some.inj (hfirst.symm.trans hgiven)
          exact ⟨members, rfl, hscan.mp hsame.1⟩
      | array items =>
          rw [streamed_positional D hdec] at hfirst
          cases hfirst
      | null | bool _ | number _ | string _ => cases hdec

end Bodies

theorem parseDatabase_direct_iff (D : Display) {body : Value} {parsed : List DetectableActivity} :
    parseDatabase D body = .ok (parsed, .direct) ↔
      vec DetectableActivity.decode body = some parsed ∧ enforceStructure parsed = .ok () := by
  rw [parseDatabase]
  cases vec DetectableActivity.decode body with
  | none =>
      refine iff_of_false ?_ nofun
      cases trimParse D body <;> nofun
  | some given =>
      dsimp only
      cases hcheck : enforceStructure given with
      | error e =>
          refine iff_of_false (fun h => nomatch h) ?_
          rintro ⟨⟨⟩, h⟩
          rw [hcheck] at h
          cases h
      | ok _ =>
          constructor
          · rintro ⟨⟩
            exact ⟨rfl, hcheck⟩
          · rintro ⟨⟨⟩, -⟩
            rfl

def hadesMembers (skus : List Value) : List (String × Value) :=
  [("id", .string "1145360"), ("name", .string "Hades"), ("hook", .bool false), ("overlay", .bool true),
    ("executables", .array [.object [("name", .string "hades.exe"), ("is_launcher", .bool false),
      ("os", .string "win32")]]),
    ("third_party_skus", .array skus)]

def hadesActivity (id : Option String) : DetectableActivity :=
  { id := "1145360", name := "Hades", hook := false, overlay := some true
    executables := some [{ name := "hades.exe", isLauncher := false, os := "win32" }]
    thirdPartySkus := some [{ distributor := "steam", id }] }

end RichPresence.Detect
