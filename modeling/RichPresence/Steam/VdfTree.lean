import RichPresence.Steam.VdfText

namespace RichPresence.Steam

def IsBrace (s : String) : Prop := s = "\x7b" ∨ s = "\x7d"

theorem insert_new {m : VdfMap} {key : String} (hkey : key ∉ m.map Prod.fst) (value : Vdf) :
    m.insert key value = m ++ [(key, value)] := if_neg hkey

theorem insert_ne_nil (m : VdfMap) (key : String) (value : Vdf) : m.insert key value ≠ [] := by
  rw [VdfMap.insert]
  split
  next h =>
      obtain ⟨e, he, -⟩ := List.mem_map.mp h
      exact List.ne_nil_of_mem (List.mem_map_of_mem he)
  next => simp

namespace Parser

variable {p q : Parser} {t : String}

theorem run_cons (h : p.token t = some q) (tokens : List String) : p.run (t :: tokens) = q.run tokens := by
  rw [run, h]

theorem token_key (ht : ¬ IsBrace t) (current : VdfMap) (stack : List (VdfMap × String)) :
    token ⟨current, stack, none⟩ t = some ⟨current, stack, some t⟩ := by
  obtain ⟨hopen, hclose⟩ := not_or.mp ht
  rw [token, if_neg hclose, if_neg hopen]

theorem token_value (ht : ¬ IsBrace t) (current : VdfMap) (stack : List (VdfMap × String)) (key : String) :
    token ⟨current, stack, some key⟩ t = some ⟨current.insert key (.str t), stack, none⟩ := by
  obtain ⟨hopen, hclose⟩ := not_or.mp ht
  rw [token, if_neg hclose, if_neg hopen]

theorem token_opening {stack : List (VdfMap × String)} (hdepth : stack.length < maxDepth) (current : VdfMap)
    (key : String) : token ⟨current, stack, some key⟩ "\x7b" = some ⟨[], (current, key) :: stack, none⟩ := by
  have hroom : ¬ maxDepth ≤ stack.length := Nat.not_le.mpr hdepth
  simp [token, hroom]

theorem token_closing (current parent : VdfMap) (key : String) (stack : List (VdfMap × String))
    (pending : Option String) :
    token ⟨current, (parent, key) :: stack, pending⟩ "\x7d" =
      some ⟨parent.insert key (.map current), stack, pending⟩ := by
  simp [token]

theorem token_cases (h : p.token t = some q) :
    (t = "\x7d" ∧ ∃ parent key stack, p.stack = (parent, key) :: stack ∧
        q = { p with current := parent.insert key (.map p.current), stack := stack }) ∨
      (t = "\x7b" ∧ p.pending = none ∧ q = p) ∨
      (t = "\x7b" ∧ ∃ key, p.pending = some key ∧ q = ⟨[], (p.current, key) :: p.stack, none⟩) ∨
      (¬ IsBrace t ∧ ∃ key, p.pending = some key ∧ q = ⟨p.current.insert key (.str t), p.stack, none⟩) ∨
      (¬ IsBrace t ∧ p.pending = none ∧ q = ⟨p.current, p.stack, some t⟩) := by
  obtain ⟨current, stack, pending⟩ := p
  rw [token] at h
  split at h
  next hclose =>
      cases stack with
      | nil => cases h
      | cons frame stack => exact .inl ⟨hclose, frame.1, frame.2, stack, rfl, (Option.some.inj h).symm⟩
  next hclose =>
    split at h
    next hopen =>
        cases pending with
        | none => exact .inr (.inl ⟨hopen, rfl, (Option.some.inj h).symm⟩)
        | some key =>
            dsimp only at h
            split at h
            · cases h
            · exact .inr (.inr (.inl ⟨hopen, key, rfl, (Option.some.inj h).symm⟩))
    next hopen =>
        have hplain : ¬ IsBrace t := not_or.mpr ⟨hopen, hclose⟩
        cases pending with
        | some key => exact .inr (.inr (.inr (.inl ⟨hplain, key, rfl, (Option.some.inj h).symm⟩)))
        | none => exact .inr (.inr (.inr (.inr ⟨hplain, rfl, (Option.some.inj h).symm⟩)))

theorem run_invariant {I : Parser → Prop} (hstep : ∀ p q t, token p t = some q → I p → I q) (hp : I p)
    (tokens : List String) : I (p.run tokens) := by
  induction tokens generalizing p with
  | nil => exact hp
  | cons t tokens ih =>
      rw [run]
      split
      next q hq => exact ih (hstep p q t hq hp)
      next => exact hp

end Parser

mutual

def Vdf.rendered : Vdf → List Run
  | .str s => [quote s]
  | .map entries => .opening :: (render entries ++ [.closing])

/-- The runs of a map without the braces around it, which is how a file begins. -/
def render : VdfMap → List Run
  | [] => []
  | (key, value) :: rest => quote key :: (value.rendered ++ render rest)

end

mutual

def Vdf.depth : Vdf → Nat
  | .str _ => 0
  | .map entries => depthOf entries + 1

def depthOf : VdfMap → Nat
  | [] => 0
  | (_, value) :: rest => max value.depth (depthOf rest)

end

mutual

def Vdf.keys : Vdf → List String
  | .str _ => []
  | .map entries => keysOf entries

def keysOf : VdfMap → List String
  | [] => []
  | (key, value) :: rest => key :: (value.keys ++ keysOf rest)

end

mutual

def Vdf.values : Vdf → List String
  | .str s => [s]
  | .map entries => valuesOf entries

/-- The string values of a map and of every map in it. -/
def valuesOf : VdfMap → List String
  | [] => []
  | (_, value) :: rest => value.values ++ valuesOf rest

end

mutual

def Vdf.Keyed : Vdf → Prop
  | .str _ => True
  | .map entries => KeyedMap entries

def KeyedMap : VdfMap → Prop
  | [] => True
  | (key, value) :: rest => key ∉ rest.map Prod.fst ∧ value.Keyed ∧ KeyedMap rest

end

/-- A tree of maps whose rendering lies within the caps of the reader. -/
structure Renderable (doc : VdfMap) : Prop where
  keyed : KeyedMap doc
  shallow : depthOf doc ≤ maxDepth
  keys_short : ∀ s ∈ keysOf doc, s.utf8ByteSize ≤ maxTokenLen
  values_short : ∀ s ∈ valuesOf doc, s.utf8ByteSize ≤ maxTokenLen
  few : (render doc).length ≤ maxVdfTokens
  keys_plain : ∀ key ∈ keysOf doc, ¬ IsBrace key

mutual

theorem readable_rendered (v : Vdf) : ∀ run ∈ v.rendered, run.Readable := by
  cases v with
  | str s =>
      intro run hrun
      rw [List.mem_singleton.mp hrun]
      exact readable_quote s
  | map entries =>
      intro run hrun
      rw [Vdf.rendered, List.mem_cons, List.mem_append, List.mem_singleton] at hrun
      rcases hrun with rfl | hrun | rfl
      · trivial
      · exact readable_render entries run hrun
      · trivial

theorem readable_render (doc : VdfMap) : ∀ run ∈ render doc, run.Readable := by
  cases doc with
  | nil => simp [render]
  | cons e rest =>
      obtain ⟨key, value⟩ := e
      intro run hrun
      rw [render, List.mem_cons, List.mem_append] at hrun
      rcases hrun with rfl | hrun | hrun
      · exact readable_quote key
      · exact readable_rendered value run hrun
      · exact readable_render rest run hrun

end

/-- A string that is read back as it stands and is no brace. -/
structure Plain (s : String) : Prop where
  short : s.utf8ByteSize ≤ maxTokenLen
  no_brace : ¬ IsBrace s

namespace Parser

mutual

theorem run_rendered (v : Vdf) (current : VdfMap) (stack : List (VdfMap × String)) {key : String}
    (hkeyed : v.Keyed) (hkeys : ∀ s ∈ v.keys, Plain s) (hvalues : ∀ s ∈ v.values, Plain s)
    (hdepth : stack.length + v.depth ≤ maxDepth) (hnew : key ∉ current.map Prod.fst) (tokens : List String) :
    run ⟨current, stack, some key⟩ (v.rendered.map Run.token ++ tokens) =
      run ⟨current ++ [(key, v)], stack, none⟩ tokens := by
  cases v with
  | str s =>
      have hs : Plain s := hvalues s (List.mem_singleton.mpr rfl)
      rw [Vdf.rendered, List.map_singleton, token_quote hs.short, List.singleton_append,
        run_cons (token_value hs.no_brace current stack key), insert_new hnew]
  | map entries =>
      rw [Vdf.depth] at hdepth
      have hinner := run_render entries [] ((current, key) :: stack) hkeyed hkeys hvalues
        (by rw [List.length_cons]; omega) (by simp) ("\x7d" :: tokens)
      rw [Vdf.rendered, List.map_cons, List.map_append, List.cons_append, List.append_assoc, Run.token,
        run_cons (token_opening (by omega) current key), List.map_singleton, List.singleton_append, Run.token, hinner,
        List.nil_append, run_cons (token_closing entries current key stack none), insert_new hnew]

theorem run_render (doc current : VdfMap) (stack : List (VdfMap × String)) (hkeyed : KeyedMap doc)
    (hkeys : ∀ s ∈ keysOf doc, Plain s) (hvalues : ∀ s ∈ valuesOf doc, Plain s)
    (hdepth : stack.length + depthOf doc ≤ maxDepth) (hnew : ∀ e ∈ doc, e.1 ∉ current.map Prod.fst)
    (tokens : List String) :
    run ⟨current, stack, none⟩ ((render doc).map Run.token ++ tokens) = run ⟨current ++ doc, stack, none⟩ tokens := by
  cases doc with
  | nil => rw [render, List.map_nil, List.nil_append, List.append_nil]
  | cons e rest =>
      obtain ⟨key, value⟩ := e
      obtain ⟨hfirst, hvalue, hrest⟩ := hkeyed
      rw [depthOf] at hdepth
      have hkey : Plain key := hkeys key (List.mem_cons_self ..)
      have htail := run_render rest (current ++ [(key, value)]) stack hrest
        (fun s hs => hkeys s (List.mem_cons_of_mem _ (List.mem_append_right _ hs)))
        (fun s hs => hvalues s (List.mem_append_right _ hs)) (by omega)
        (fun e he => by
          rw [List.map_append, List.mem_append, not_or]
          refine ⟨hnew e (List.mem_cons_of_mem _ he), fun hsame => hfirst ?_⟩
          have heq : e.1 = key := List.mem_singleton.mp hsame
          rw [← heq]
          exact List.mem_map_of_mem he) tokens
      have hhead := run_rendered value current stack hvalue
        (fun s hs => hkeys s (List.mem_cons_of_mem _ (List.mem_append_left _ hs)))
        (fun s hs => hvalues s (List.mem_append_left _ hs)) (by omega) (hnew (key, value) (List.mem_cons_self ..))
        ((render rest).map Run.token ++ tokens)
      rw [render, List.map_cons, List.map_append, token_quote hkey.short, List.cons_append, List.append_assoc,
        run_cons (token_key hkey.no_brace current stack), hhead, htail, List.append_assoc, List.singleton_append]

end

end Parser

theorem Renderable.parseVdf_eq {doc : VdfMap} (h : Renderable doc) (hvalues : ∀ s ∈ valuesOf doc, ¬ IsBrace s) :
    parseVdf ((render doc).map Run.token) = doc := by
  have hrun := Parser.run_render doc [] [] h.keyed
    (fun s hs => ⟨h.keys_short s hs, h.keys_plain s hs⟩) (fun s hs => ⟨h.values_short s hs, hvalues s hs⟩)
    (by rw [List.length_nil, Nat.zero_add]; exact h.shallow) (by simp) []
  rw [List.append_nil, List.nil_append] at hrun
  rw [parseVdf, hrun]
  rfl

theorem parseVdfStr_eq (input : String) : parseVdfStr input = parseVdf ((allTokens input).take maxVdfTokens) := by
  rw [parseVdfStr, tokenize_eq_take]
  exact if_neg (Nat.not_lt.mpr (List.length_take_le ..))

/-- The caps are far enough away for every token of the rendering to be read. -/
theorem Renderable.parseVdfStr_eq {doc : VdfMap} (h : Renderable doc) {text : String}
    (htext : Spelled (render doc) text.toList) : parseVdfStr text = parseVdf ((render doc).map Run.token) := by
  have htokens := allTokens_spelled htext (readable_render doc)
  rw [Steam.parseVdfStr_eq, htokens, List.take_of_length_le (by rw [List.length_map]; exact h.few)]

/-- Reading inverts rendering, whatever white space stands between the tokens. -/
theorem parse_inverts_rendering {doc : VdfMap} (h : Renderable doc) (hvalues : ∀ s ∈ valuesOf doc, ¬ IsBrace s)
    {text : String} (htext : Spelled (render doc) text.toList) : parseVdfStr text = doc := by
  rw [h.parseVdfStr_eq htext]
  exact h.parseVdf_eq hvalues

def spaced (rs : List Run) : List Char := rs.flatMap fun run => ' ' :: run.spell

theorem spelled_spaced (rs : List Run) : Spelled rs (spaced rs) := by
  induction rs with
  | nil => exact .nil (List.forall_mem_nil _)
  | cons run rest ih => exact @Spelled.cons [' '] _ run rest (List.forall_mem_singleton.mpr (by decide)) ih

def sampleManifest : VdfMap :=
  [("AppState", .map [("appid", .str "4508340"), ("name", .str "a \"b\" \\ c"), ("installdir", .str "Neverness")]),
    ("empty", .map [])]

theorem renderable_sampleManifest : Renderable sampleManifest where
  keyed := by simp [sampleManifest, KeyedMap, Vdf.Keyed]
  shallow := by decide
  keys_short := by decide
  values_short := by decide
  few := by decide
  keys_plain := by simp [sampleManifest, keysOf, Vdf.keys, IsBrace]

theorem parse_inverts_rendering_sampleManifest :
    parseVdfStr (String.ofList (spaced (render sampleManifest))) = sampleManifest :=
  parse_inverts_rendering renderable_sampleManifest (by simp [sampleManifest, valuesOf, Vdf.values, IsBrace])
    (by rw [String.toList_ofList]; exact spelled_spaced _)

end RichPresence.Steam
