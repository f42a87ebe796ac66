import RichPresence.Steam.VdfTree

namespace RichPresence.Steam

/-- No string value of the map or of a map in it is a lone brace. -/
def Braceless (m : VdfMap) : Prop := ∀ s ∈ valuesOf m, ¬ IsBrace s

theorem mem_valuesOf {m : VdfMap} {s : String} : s ∈ valuesOf m ↔ ∃ e ∈ m, s ∈ e.2.values := by
  induction m with
  | nil => simp [valuesOf]
  | cons e m ih =>
      obtain ⟨key, value⟩ := e
      rw [valuesOf, List.mem_append, ih, List.exists_mem_cons_iff]

theorem Braceless.insert {m : VdfMap} (hm : Braceless m) (key : String) (value : Vdf)
    (hvalue : ∀ s ∈ value.values, ¬ IsBrace s) : Braceless (m.insert key value) := by
  intro s hs
  obtain ⟨e, he, hse⟩ := mem_valuesOf.mp hs
  rw [VdfMap.insert] at he
  split at he
  · obtain ⟨f, hf, rfl⟩ := List.mem_map.mp he
    split at hse
    · exact hvalue s hse
    · exact hm s (mem_valuesOf.mpr ⟨f, hf, hse⟩)
  · rcases List.mem_append.mp he with he | he
    · exact hm s (mem_valuesOf.mpr ⟨e, he, hse⟩)
    · rw [List.mem_singleton.mp he] at hse
      exact hvalue s hse

namespace Parser

/-- What the parser has built holds no lone brace: one in the text opens or closes a map. -/
structure Clean (p : Parser) : Prop where
  current : Braceless p.current
  stack : ∀ frame ∈ p.stack, Braceless frame.1

variable {p q : Parser} {t : String}

theorem Clean.token (h : p.token t = some q) (hp : p.Clean) : q.Clean := by
  rcases token_cases h with ⟨-, parent, key, stack, hstack, rfl⟩ | ⟨-, -, rfl⟩ | ⟨-, key, -, rfl⟩ |
    ⟨hplain, key, -, rfl⟩ | ⟨-, -, rfl⟩
  · have hframes : ∀ frame ∈ (parent, key) :: stack, Braceless frame.1 := hstack ▸ hp.stack
    refine ⟨?_, fun f hf => hframes f (List.mem_cons_of_mem _ hf)⟩
    exact (hframes (parent, key) (List.mem_cons_self ..)).insert key (.map p.current) hp.current
  · exact hp
  · refine ⟨fun s hs => absurd hs List.not_mem_nil, fun f hf => ?_⟩
    rcases List.mem_cons.mp hf with rfl | hf
    · exact hp.current
    · exact hp.stack f hf
  · refine ⟨hp.current.insert key (.str t) fun s hs => ?_, hp.stack⟩
    rw [List.mem_singleton.mp hs]
    exact hplain
  · exact ⟨hp.current, hp.stack⟩

theorem braceless_foldUp {current : VdfMap} {stack : List (VdfMap × String)} (hcurrent : Braceless current)
    (hstack : ∀ frame ∈ stack, Braceless frame.1) : Braceless (foldUp current stack) := by
  induction stack generalizing current with
  | nil => exact hcurrent
  | cons frame stack ih =>
      rw [foldUp]
      exact ih ((hstack frame (List.mem_cons_self ..)).insert frame.2 (.map current) hcurrent)
        fun f hf => hstack f (List.mem_cons_of_mem _ hf)

end Parser

theorem braceless_parseVdf (tokens : List String) : Braceless (parseVdf tokens) := by
  have hstart : Parser.Clean {} :=
    ⟨fun s hs => absurd hs List.not_mem_nil, fun frame hframe => absurd hframe List.not_mem_nil⟩
  have hlast := Parser.run_invariant (fun _ _ _ => Parser.Clean.token) hstart tokens
  exact Parser.braceless_foldUp hlast.current hlast.stack

/-- A rendered tree is read back exactly when none of its values is a lone brace; then its manifest is its own. -/
theorem manifest_of_braceless {doc : VdfMap} (h : Renderable doc) {text : String}
    (htext : Spelled (render doc) text.toList) :
    (Braceless doc ↔ parseVdfStr text = doc) ∧
      (Braceless doc → manifestIds (parseVdfStr text) = none ∨ manifestIds (parseVdfStr text) = manifestIds doc) := by
  have hread (hdoc : Braceless doc) : parseVdfStr text = doc := by
    rw [h.parseVdfStr_eq htext]
    exact h.parseVdf_eq hdoc
  refine ⟨⟨hread, fun hsame => ?_⟩, fun hdoc => .inr (by rw [hread hdoc])⟩
  rw [← hsame, h.parseVdfStr_eq htext]
  exact braceless_parseVdf _

theorem manifest_of_braceless_sampleManifest :
    Braceless sampleManifest ∧
      manifestIds (parseVdfStr (String.ofList (spaced (render sampleManifest)))) = some ("4508340", "Neverness") := by
  have hplain : Braceless sampleManifest := by simp [Braceless, sampleManifest, valuesOf, Vdf.values, IsBrace]
  have hread := (manifest_of_braceless renderable_sampleManifest
    (by rw [String.toList_ofList]; exact spelled_spaced (render sampleManifest))).1.mp hplain
  refine ⟨hplain, ?_⟩
  rw [hread]
  decide

/-- The lone brace closes the inner map while the key before it still waits, so the next key is
taken for its value one map further out. -/
def forgedManifest : VdfMap :=
  [("AppState", .map [("appid", .str "1"),
    ("UserConfig", .map [("installdir", .str "\x7d"), ("evil", .str "x")]), ("installdir", .str "good")])]

/-- The lone brace opens a map that the end of `AppState` closes, so what follows `AppState` lands in it. -/
def reopenedManifest : VdfMap :=
  [("AppState", .map [("appid", .str "1"), ("installdir", .str "good"), ("note", .str "\x7b")]),
    ("installdir", .str "evil")]

theorem renderable_forgedManifest : Renderable forgedManifest where
  keyed := by simp [forgedManifest, KeyedMap, Vdf.Keyed]
  shallow := by decide
  keys_short := by decide
  values_short := by decide
  few := by decide
  keys_plain := by simp [forgedManifest, keysOf, Vdf.keys, IsBrace]

theorem renderable_reopenedManifest : Renderable reopenedManifest where
  keyed := by simp [reopenedManifest, KeyedMap, Vdf.Keyed]
  shallow := by decide
  keys_short := by decide
  values_short := by decide
  few := by decide
  keys_plain := by simp [reopenedManifest, keysOf, Vdf.keys, IsBrace]

/-- The tree says `good`, and what is read from its rendering says `evil`. -/
def Forged (doc : VdfMap) : Prop :=
  Renderable doc ∧ Spelled (render doc) (String.ofList (spaced (render doc))).toList ∧
    manifestIds doc = some ("1", "good") ∧
    manifestIds (parseVdfStr (String.ofList (spaced (render doc)))) = some ("1", "evil")

theorem manifest_forged : Forged forgedManifest ∧ Forged reopenedManifest := by
  have htext (doc : VdfMap) : Spelled (render doc) (String.ofList (spaced (render doc))).toList := by
    rw [String.toList_ofList]
    exact spelled_spaced _
  refine ⟨⟨renderable_forgedManifest, htext _, by decide, ?_⟩, renderable_reopenedManifest, htext _, by decide, ?_⟩
  · rw [renderable_forgedManifest.parseVdfStr_eq (htext _)]
    decide
  · rw [renderable_reopenedManifest.parseVdfStr_eq (htext _)]
    decide

end RichPresence.Steam
