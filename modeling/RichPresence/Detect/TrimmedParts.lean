import RichPresence.Detect.TrimAgreement

namespace RichPresence.Detect

open Decode Serde

section Fields

variable {members : List (String × Value)} {key : String}

theorem field_of_required {α : Type} {d : Decoder α} {x : α} (h : required key d members = some x) :
    ∃ v, field key members = some (some v) ∧ d v = some x := by
  obtain ⟨v, hf, hv⟩ := Option.bind_eq_some_iff.mp h
  obtain ⟨v, rfl, hx⟩ := Option.bind_eq_some_iff.mp hv
  exact ⟨v, hf, hx⟩

theorem field_of_required_string {s : String} (h : required key string members = some s) :
    field key members = some (some (.string s)) := by
  obtain ⟨v, hf, hv⟩ := field_of_required h
  rw [hf, string_eq hv]

theorem field_of_required_bool {b : Bool} (h : required key bool members = some b) :
    field key members = some (some (.bool b)) := by
  obtain ⟨v, hf, hv⟩ := field_of_required h
  rw [hf, bool_eq hv]

theorem field_of_optional_string {o : Option String} (h : optional key string members = some o) :
    o = none ∧ field key members = some none ∨ o = none ∧ field key members = some (some .null) ∨
      ∃ s, o = some s ∧ field key members = some (some (.string s)) := by
  obtain ⟨v, hf, hv⟩ := Option.bind_eq_some_iff.mp h
  cases v with
  | none =>
      obtain rfl := Option.some.inj hv
      exact .inl ⟨rfl, hf⟩
  | some v =>
      cases v with
      | null =>
          obtain rfl := Option.some.inj hv
          exact .inr (.inl ⟨rfl, hf⟩)
      | string s =>
          obtain rfl := Option.some.inj hv
          exact .inr (.inr ⟨s, rfl, hf⟩)
      | bool _ | number _ | array _ | object _ => cases hv

theorem occurrences_of_field {v : Option Value} (h : field key members = some v) :
    (Value.occurrences key members).length ≤ 1 := by
  rw [← field_isSome_iff, h]
  rfl

theorem array_of_optional {α : Type} {d : Decoder α} {o : Option (List α)}
    (h : optional key (vec d) members = some o) (hnull : (key, Value.null) ∉ members) :
    (Value.occurrences key members).length ≤ 1 ∧ ∀ v, (key, v) ∈ members → ∃ items, v = .array items := by
  obtain ⟨v, hf, hv⟩ := Option.bind_eq_some_iff.mp h
  refine ⟨occurrences_of_field hf, fun w hw => ?_⟩
  cases v with
  | none => exact absurd hw (not_mem_of_field hf w)
  | some v =>
      obtain rfl := (mem_of_field hf w).mp hw
      cases w with
      | null => exact absurd hw hnull
      | array items => exact ⟨items, rfl⟩
      | string _ | bool _ | number _ | object _ => cases hv

theorem items_of_optional {α : Type} {d : Decoder α} {o : Option (List α)}
    (h : optional key (vec d) members = some o) (hnull : (key, Value.null) ∉ members) :
    ∃ items, (((Value.object members).loaded.get key).bind Value.asArray).getD [] = items.map Value.loaded ∧
      List.Forall₂ (fun item x => d item = some x) items (o.getD []) ∧
      ∀ P : List Value → Prop, P [] → ((∀ given, (key, .array given) ∈ members → P given) ↔ P items) := by
  obtain ⟨v, hf, hv⟩ := Option.bind_eq_some_iff.mp h
  rw [get_loaded_of_field hf]
  cases v with
  | none =>
      obtain rfl := Option.some.inj hv
      exact ⟨[], rfl, .nil, fun P hP => iff_of_true (fun given hg => absurd hg (not_mem_of_field hf _)) hP⟩
  | some v =>
      cases v with
      | null => exact absurd ((mem_of_field hf _).mpr rfl) hnull
      | array items =>
          simp only [option, vec, Option.map_eq_some_iff] at hv
          obtain ⟨xs, hxs, rfl⟩ := hv
          refine ⟨items, Value.loadedItems_eq_map _, mapM_eq_some_iff.mp hxs, fun P _ => ?_⟩
          simp only [mem_of_field hf, Value.array.injEq, forall_eq]
      | string _ | bool _ | number _ | object _ => cases hv

end Fields

/-- An executable as the projection leaves it: one given by position is read as one
that says nothing. -/
def Executable.trimmed (exe : Executable) : Value → Executable
  | .object _ => { exe with arguments := exe.arguments.filter (· ≠ "") }
  | _ => ⟨false, "", "", none⟩

/-- An executable that the scanner sees the same way after the projection. -/
def PlainExecutable : Value → Prop
  | .object members => ("arguments", .string "") ∉ members
  | v => v = .array [.bool false, .string "", .string "", .null]

theorem Executable.decode_record (name os : String) (isLauncher : Bool) (arguments : Option String) :
    decode (record [("name", some (text name)), ("is_launcher", some (.bool isLauncher)), ("os", some (text os)),
      ("arguments", arguments.map text)]) = some ⟨isLauncher, name, os, arguments⟩ := by
  cases arguments <;> rfl

theorem Executable.decode_array {items : List Value} {exe : Executable} (h : decode (.array items) = some exe) :
    ∃ arguments, items = [.bool exe.isLauncher, .string exe.name, .string exe.os, arguments] ∧
      option string arguments = some exe.arguments := by
  obtain ⟨members, hmembers, -⟩ := Option.bind_eq_some_iff.mp h
  rw [membersOf] at hmembers
  split at hmembers
  next hlen =>
    obtain ⟨a, b, c, d, rfl⟩ := List.length_eq_four.mp (Nat.le_antisymm hlen.2 hlen.1)
    have hfields : (bool a).bind (fun isLauncher => (string b).bind fun name => (string c).bind fun os =>
        (option string d).bind fun arguments => some (⟨isLauncher, name, os, arguments⟩ : Executable)) = some exe := h
    simp only [Option.bind_eq_some_iff, Option.some.injEq] at hfields
    obtain ⟨isLauncher, ha, name, hb, os, hc, arguments, hd, rfl⟩ := hfields
    exact ⟨d, by rw [bool_eq ha, string_eq hb, string_eq hc], hd⟩
  next => cases hmembers

theorem OsName.fromOs_eq_empty {os : String} (h : fromOs os = .empty) : os = "" := by
  rw [fromOs.eq_def] at h
  split at h <;> first | rfl | cases h

theorem arguments_loaded {members : List (String × Value)} {arguments : Option String}
    (h : optional "arguments" string members = some arguments) :
    ((Value.object members).loaded.get "arguments").filter (fun args => args.asStr.getD "" ≠ "") =
        (arguments.filter (· ≠ "")).map text ∧
      (("arguments", Value.string "") ∉ members ↔ arguments.filter (· ≠ "") = arguments) := by
  rcases field_of_optional_string h with ⟨rfl, hf⟩ | ⟨rfl, hf⟩ | ⟨s, rfl, hf⟩
  · rw [get_loaded_of_field hf]
    exact ⟨rfl, iff_of_true (not_mem_of_field hf _) rfl⟩
  · rw [get_loaded_of_field hf, mem_of_field hf]
    exact ⟨rfl, iff_of_true (by rintro ⟨⟩) rfl⟩
  · rw [get_loaded_of_field hf, mem_of_field hf]
    by_cases hs : s = ""
    · subst hs
      exact ⟨rfl, iff_of_false (fun h => h rfl) (by rintro ⟨⟩)⟩
    · simp [hs, Value.loaded, Value.asStr, text, Option.filter, Ne.symm hs]

theorem Executable.decode_trimmed {item : Value} {exe : Executable} (h : decode item = some exe) :
    decode (trimmedExecutable item.loaded) = some (exe.trimmed item) ∧
      (PlainExecutable item ↔ ScannedExe.fromExecutable (exe.trimmed item) = .fromExecutable exe) ∧
      (enforceExecutable exe = .ok () → enforceExecutable (exe.trimmed item) = .ok ()) := by
  cases item with
  | object members =>
      simp only [decode, membersOf, Option.bind_eq_bind, Option.bind_some, Option.bind_eq_some_iff,
        Option.some.injEq] at h
      obtain ⟨isLauncher, hl, name, hn, os, ho, arguments, ha, rfl⟩ := h
      have hargs := arguments_loaded ha
      refine ⟨?_, ?_, fun hcheck => ?_⟩
      · rw [trimmedExecutable, hargs.1, get_loaded_of_field (field_of_required_bool hl),
          get_loaded_of_field (field_of_required_string hn), get_loaded_of_field (field_of_required_string ho)]
        exact decode_record name os isLauncher _
      · simp only [PlainExecutable, hargs.2, trimmed, ScannedExe.fromExecutable, ScannedExe.mk.injEq, true_and]
      · obtain ⟨hlen, hshort⟩ := (enforceExecutable_ok_iff _).mp hcheck
        exact (enforceExecutable_ok_iff _).mpr
          ⟨hlen, fun arguments harg => hshort arguments (Option.filter_eq_some_iff.mp harg).1⟩
  | array items =>
      obtain ⟨arguments, rfl, harg⟩ := decode_array h
      refine ⟨rfl, ?_, fun _ => rfl⟩
      simp only [PlainExecutable, trimmed, ScannedExe.fromExecutable, ScannedExe.mk.injEq, Value.array.injEq,
        List.cons.injEq, Value.bool.injEq, Value.string.injEq, and_true]
      constructor
      · rintro ⟨hl, hn, ho, rfl⟩
        exact ⟨hn.symm, by rw [ho], hl.symm, Option.some.inj harg⟩
      · rintro ⟨hn, ho, hl, hnone⟩
        refine ⟨hl.symm, hn.symm, OsName.fromOs_eq_empty ho.symm, ?_⟩
        rw [← hnone] at harg
        cases arguments with
        | null => rfl
        | string _ | bool _ | number _ | array _ | object _ => cases harg
  | null | bool _ | number _ | string _ => cases h

def ThirdPartySku.trimmed (D : Display) (item : Value) (sku : ThirdPartySku) : Option ThirdPartySku := do
  let id ← (item.loaded.get "id").map (skuId D)
  if sku.distributor = "" ∨ id = "" then none else some ⟨sku.distributor, some id, none⟩

theorem ThirdPartySku.decode_trimmed (D : Display) {item : Value} {sku : ThirdPartySku}
    (h : decode item = some sku) : (trimmedSku D item.loaded).map decode = (sku.trimmed D item).map some := by
  cases item with
  | object members =>
      simp only [decode, membersOf, Option.bind_eq_bind, Option.bind_some, Option.bind_eq_some_iff,
        Option.some.injEq] at h
      obtain ⟨distributor, hd, id, hid, sku, -, rfl⟩ := h
      rw [trimmedSku, get_loaded_of_field (field_of_required_string hd), trimmed]
      cases (Value.object members).loaded.get "id" with
      | none => rfl
      | some v =>
          change Option.map decode (if distributor = "" ∨ skuId D v = "" then none else _) =
            Option.map some (if distributor = "" ∨ skuId D v = "" then none else _)
          split <;> rfl
  | array items => rfl
  | null | bool _ | number _ | string _ => cases h

theorem ThirdPartySku.decode_head {items : List Value} {sku : ThirdPartySku} (h : decode (.array items) = some sku) :
    ∃ d rest, items = d :: rest ∧ string d = some sku.distributor := by
  obtain ⟨members, hmembers, -⟩ := Option.bind_eq_some_iff.mp h
  rw [membersOf] at hmembers
  split at hmembers
  next hlen =>
    obtain ⟨a, b, c, rfl⟩ := List.length_eq_three.mp (Nat.le_antisymm hlen.2 hlen.1)
    have hfields : (string a).bind (fun distributor => (option string b).bind fun id => (option string c).bind
        fun sku => some (⟨distributor, id, sku⟩ : ThirdPartySku)) = some sku := h
    simp only [Option.bind_eq_some_iff, Option.some.injEq] at hfields
    obtain ⟨distributor, ha, id, -, sku, -, rfl⟩ := hfields
    exact ⟨a, [b, c], rfl, ha⟩
  next => cases hmembers

theorem skuId_null (D : Display) : skuId D .null = "null" := by
  rw [skuId, D.toText_null]
  · rfl
  · nofun

theorem ThirdPartySku.steamId_trimmed_some (D : Display) (sku : ThirdPartySku) {item v : Value}
    (h : item.loaded.get "id" = some v) :
    (sku.trimmed D item).bind steamId = steamId { sku with id := some (skuId D v) } := by
  simp only [trimmed, h, steamId]
  by_cases hd : sku.distributor = "steam"
  · by_cases hi : skuId D v = "" <;> simp [hd, hi, steamId, Option.filter]
  · by_cases hn : sku.distributor = "" ∨ skuId D v = "" <;> simp [hd, hn, steamId]

/-- The scanner reads the same Steam id off a trimmed SKU, unless that SKU
belongs to Steam and its id is `null`. One that is given by position is lost. -/
theorem ThirdPartySku.steamId_trimmed (D : Display) {item : Value} {sku : ThirdPartySku}
    (h : decode item = some sku) (hnamed : ∀ given, .array given = item → given.head? ≠ some (.string "steam")) :
    (sku.steamId = none ∨ (sku.trimmed D item).bind steamId = sku.steamId) ∧
      ((∀ members, .object members = item → ("distributor", .string "steam") ∈ members →
        ("id", .null) ∉ members) ↔ (sku.trimmed D item).bind steamId = sku.steamId) := by
  cases item with
  | object members =>
      simp only [decode, membersOf, Option.bind_eq_bind, Option.bind_some, Option.bind_eq_some_iff,
        Option.some.injEq] at h
      obtain ⟨distributor, hd, id, hid, sku, -, rfl⟩ := h
      simp only [Value.object.injEq, forall_eq, mem_of_field (field_of_required_string hd), Value.string.injEq]
      rcases field_of_optional_string hid with ⟨rfl, hf⟩ | ⟨rfl, hf⟩ | ⟨s, rfl, hf⟩
      · have heq : (trimmed D (.object members) ⟨distributor, none, sku⟩).bind steamId =
            steamId ⟨distributor, none, sku⟩ := by
          rw [trimmed, get_loaded_of_field hf, steamId]
          split <;> rfl
        exact ⟨.inr heq, iff_of_true (fun _ => not_mem_of_field hf _) heq⟩
      · have hnone : steamId ⟨distributor, none, sku⟩ = none := by
          rw [steamId]
          split <;> rfl
        refine ⟨.inl hnone, ?_⟩
        rw [hnone, steamId_trimmed_some D _ (get_loaded_of_field hf), mem_of_field hf]
        simp only [Value.loaded, skuId_null, steamId]
        by_cases hs : distributor = "steam"
        · subst hs
          exact iff_of_false (fun h => h rfl trivial) (by rintro ⟨⟩)
        · exact iff_of_true (fun h => absurd h.symm hs) (if_neg hs)
      · have heq := steamId_trimmed_some D ⟨distributor, some s, sku⟩ (get_loaded_of_field hf)
        exact ⟨.inr heq, iff_of_true (fun _ h => by cases (mem_of_field hf _).mp h) heq⟩
  | array given =>
      have hother : sku.distributor ≠ "steam" := by
        intro hsteam
        obtain ⟨d, rest, rfl, hd⟩ := decode_head h
        exact hnamed _ rfl (by rw [List.head?_cons, string_eq hd, hsteam])
      have hnone : sku.steamId = none := if_neg hother
      exact ⟨.inl hnone, iff_of_true (by rintro _ ⟨⟩) hnone.symm⟩
  | null | bool _ | number _ | string _ => cases h

section Lists

theorem executables_of_items {items : List Value} {exes : List Executable}
    (h : List.Forall₂ (fun item exe => Executable.decode item = some exe) items exes) :
    ∃ trimmed, ((items.map Value.loaded).map trimmedExecutable).mapM Executable.decode = some trimmed ∧
      trimmed.length = exes.length ∧
      ((∀ exe ∈ exes, enforceExecutable exe = .ok ()) → ∀ exe ∈ trimmed, enforceExecutable exe = .ok ()) ∧
      ((∀ exe ∈ items, PlainExecutable exe) ↔
        trimmed.map ScannedExe.fromExecutable = exes.map .fromExecutable) := by
  induction h with
  | nil => exact ⟨[], by simp⟩
  | @cons item exe _ _ hdec _ ih =>
      obtain ⟨trimmed, hitems, hlen, hcheck, hplain⟩ := ih
      obtain ⟨hitem, hsame, hcap⟩ := Executable.decode_trimmed hdec
      refine ⟨exe.trimmed item :: trimmed, ?_, by rw [List.length_cons, hlen, List.length_cons], ?_, ?_⟩
      · simp only [List.map_cons, List.mapM_cons, hitem, hitems]
        rfl
      · simp only [List.forall_mem_cons]
        exact fun h => ⟨hcap h.1, hcheck h.2⟩
      · simp only [List.map_cons, List.cons.injEq, ← hplain, ← hsame, List.forall_mem_cons]

theorem skus_of_items (D : Display) {items : List Value} {skus : List ThirdPartySku}
    (h : List.Forall₂ (fun item sku => ThirdPartySku.decode item = some sku) items skus)
    (hnamed : ∀ given, .array given ∈ items → given.head? ≠ some (.string "steam")) :
    ∃ kept, ((items.map Value.loaded).filterMap (trimmedSku D)).mapM ThirdPartySku.decode = some kept ∧
      kept.length ≤ skus.length ∧
      (skus.filterMap ThirdPartySku.steamId).length ≤ (kept.filterMap ThirdPartySku.steamId).length ∧
      ((∀ sku, .object sku ∈ items → ("distributor", .string "steam") ∈ sku → ("id", .null) ∉ sku) ↔
        kept.filterMap ThirdPartySku.steamId = skus.filterMap ThirdPartySku.steamId) := by
  induction h with
  | nil => exact ⟨[], by simp⟩
  | @cons item sku items skus hdec _ ih =>
      obtain ⟨kept, hkept, hlen, hsteam, hplain⟩ := ih fun given hg => hnamed given (List.mem_cons_of_mem _ hg)
      have hone := ThirdPartySku.decode_trimmed D hdec
      obtain ⟨hmono, hsame⟩ := ThirdPartySku.steamId_trimmed D hdec fun given hg =>
        hnamed given (hg ▸ List.mem_cons_self)
      simp only [List.map_cons, List.filterMap_cons, List.mem_cons, or_imp, forall_and, hsame, hplain]
      cases hk : sku.trimmed D item with
      | none =>
          have htrim : trimmedSku D item.loaded = none := by simpa [hk] using hone
          have hnone : sku.steamId = none := hmono.elim id fun h => by rw [← h, hk]; rfl
          simp only [htrim, hnone]
          exact ⟨kept, hkept, Nat.le_succ_of_le hlen, hsteam, and_iff_right rfl⟩
      | some k =>
          obtain ⟨v, hv, hdec⟩ := Option.map_eq_some_iff.mp (hone.trans (by rw [hk]; rfl))
          rw [hk, Option.bind_some] at hmono
          simp only [Option.bind_some]
          refine ⟨k :: kept, ?_, Nat.succ_le_succ hlen, ?_⟩
          · simp only [hv, List.mapM_cons, hdec, hkept]
            rfl
          · cases hs : sku.steamId with
            | some id =>
                have hks : k.steamId = some id := hs ▸ hmono.resolve_left (by simp [hs])
                simpa [List.filterMap_cons, hks] using hsteam
            | none =>
                cases hks : k.steamId with
                | none => simpa [List.filterMap_cons, hks] using hsteam
                | some id =>
                    -- one id more on the left, so the lists differ in length
                    refine ⟨by simpa [List.filterMap_cons, hks] using Nat.le_succ_of_le hsteam, ?_⟩
                    refine iff_of_false (fun h => nomatch h.1) fun h => ?_
                    have hlen := congrArg List.length h
                    simp only [List.filterMap_cons, hks, List.length_cons] at hlen
                    omega

theorem aliases_of_items {items : List Value} {aliases : List String}
    (h : List.Forall₂ (fun item s => string item = some s) items aliases) :
    items = aliases.map .string := by
  induction h with
  | nil => rfl
  | cons hdec _ ih => rw [string_eq hdec, ih, List.map_cons]

end Lists

end RichPresence.Detect
