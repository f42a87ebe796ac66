import RichPresence.Steam.VdfTree

namespace RichPresence.Steam

/-- At most the longest length and one more character. -/
def WithinCap (token : String) : Prop :=
  ∃ (front : String) (last : List Char),
    token = front ++ String.ofList last ∧ front.utf8ByteSize ≤ maxTokenLen ∧ last.length ≤ 1

/-- Of `size` bytes kept, an escape is still added to more than the longest length. -/
def lateEscape : Nat → List Item → Bool
  | _, [] => false
  | size, .plain c :: rest => if maxTokenLen ≤ size then false else lateEscape (size + c.utf8Size) rest
  | size, .escaped c :: rest => maxTokenLen < size || lateEscape (size + c.utf8Size) rest

def Run.hasLateEscape : Run → Bool
  | .quoted items => lateEscape 0 items
  | _ => false

theorem withinCap_push {kept : String} (h : kept.utf8ByteSize ≤ maxTokenLen) (c : Char) : WithinCap (kept.push c) :=
  ⟨kept, [c], by rw [String.push_eq_append]; rfl, h, Nat.le_refl 1⟩

theorem withinCap_of_short {kept : String} (h : kept.utf8ByteSize ≤ maxTokenLen) : WithinCap kept :=
  ⟨kept, [], by simp, h, Nat.zero_le _⟩

theorem not_withinCap {kept : String} (h : maxTokenLen < kept.utf8ByteSize) (c : Char) (more : List Char) :
    ¬ WithinCap (kept.push c ++ String.ofList more) := by
  rintro ⟨front, last, heq, hfront, hlast⟩
  have hlist : kept.toList ++ c :: more = front.toList ++ last := by
    have := congrArg String.toList heq
    simpa using this
  have hlength := congrArg List.length hlist
  simp only [List.length_append, List.length_cons] at hlength
  have hprefix : kept.toList <+: front.toList :=
    List.prefix_of_prefix_length_le (hlist ▸ List.prefix_append _ _) (List.prefix_append _ _) (by omega)
  obtain ⟨rest, hrest⟩ := hprefix
  have hsplit : front = kept ++ String.ofList rest := by
    apply String.toList_inj.mp
    simpa using hrest.symm
  rw [hsplit, String.utf8ByteSize_append] at hfront
  omega

theorem foldl_keep_overlong (items : List Item) (kept : String) : items.foldl keep (kept, true) = (kept, true) := by
  induction items with
  | nil => rfl
  | cons item items ih =>
      have hstep : keep (kept, true) item = (kept, true) := by cases item <;> simp [keep]
      rw [List.foldl_cons, hstep, ih]

theorem foldl_keep_extends (items : List Item) (kept : String × Bool) :
    ∃ more, (items.foldl keep kept).1 = kept.1 ++ String.ofList more := by
  induction items generalizing kept with
  | nil => exact ⟨[], by simp⟩
  | cons item items ih =>
      obtain ⟨more, hmore⟩ := ih (keep kept item)
      have hstep : ∃ added, (keep kept item).1 = kept.1 ++ String.ofList added := by
        have hpush (c : Char) : kept.1.push c = kept.1 ++ String.ofList [c] := String.push_eq_append c
        cases item with
        | plain c =>
            rw [keep]
            split
            · exact ⟨[], by simp⟩
            · split
              · exact ⟨[], by simp⟩
              · exact ⟨[c], hpush c⟩
        | escaped c =>
            rw [keep]
            dsimp only
            split
            · exact ⟨[], by simp⟩
            · exact ⟨[c], hpush c⟩
      obtain ⟨added, hadded⟩ := hstep
      exact ⟨added ++ more, by rw [List.foldl_cons, hmore, hadded, String.append_assoc, String.ofList_append]⟩

theorem withinCap_foldl_keep (items : List Item) {kept : String} (hkept : WithinCap kept) :
    WithinCap (items.foldl keep (kept, false)).1 ↔ lateEscape kept.utf8ByteSize items = false := by
  induction items generalizing kept with
  | nil => exact ⟨fun _ => rfl, fun _ => hkept⟩
  | cons item items ih =>
      cases item with
      | plain c =>
          rw [List.foldl_cons, keep, lateEscape]
          by_cases hfull : maxTokenLen ≤ kept.utf8ByteSize
          · simp only [Bool.false_eq_true, if_false, hfull, if_true, foldl_keep_overlong, iff_true]
            exact hkept
          · simp only [Bool.false_eq_true, if_false, hfull]
            rw [ih (withinCap_push (by omega) c), String.utf8ByteSize_push]
      | escaped c =>
          rw [List.foldl_cons, keep, lateEscape]
          simp only [Bool.false_eq_true, if_false, Bool.or_eq_false_iff, decide_eq_false_iff_not, Nat.not_lt]
          by_cases hlate : kept.utf8ByteSize ≤ maxTokenLen
          · rw [ih (withinCap_push hlate c), String.utf8ByteSize_push]
            exact (and_iff_right hlate).symm
          · obtain ⟨more, hmore⟩ := foldl_keep_extends items (kept.push c, false)
            rw [hmore]
            exact iff_of_false (not_withinCap (by omega) c more) fun h => hlate h.1

theorem withinCap_token (run : Run) : WithinCap run.token ↔ run.hasLateEscape = false := by
  cases run with
  | opening => exact iff_of_true (withinCap_of_short (by decide)) rfl
  | closing => exact iff_of_true (withinCap_of_short (by decide)) rfl
  | quoted items => exact withinCap_foldl_keep items (withinCap_of_short (by decide))

/-- The parse ends before anything is entered: behind opening braces that no key
precedes there is at most one string and then a closing brace or the end. -/
def barren : List String → Bool
  | [] => true
  | t :: rest =>
      if t = "\x7b" then barren rest
      else if t = "\x7d" then true
      else rest.head?.all fun next => next = "\x7d"

namespace Parser

def Begun (p : Parser) : Prop := p.current ≠ [] ∨ p.stack ≠ []

variable {p q : Parser} {t : String}

theorem Begun.token (h : p.token t = some q) (hp : p.Begun) : q.Begun := by
  rcases token_cases h with ⟨-, parent, key, stack, -, rfl⟩ | ⟨-, -, rfl⟩ | ⟨-, key, -, rfl⟩ | ⟨-, key, -, rfl⟩ |
    ⟨-, -, rfl⟩
  · exact .inl (insert_ne_nil _ _ _)
  · exact hp
  · exact .inr (List.cons_ne_nil _ _)
  · exact .inl (insert_ne_nil _ _ _)
  · exact hp

theorem foldUp_ne_nil {current : VdfMap} {stack : List (VdfMap × String)} (h : current ≠ [] ∨ stack ≠ []) :
    foldUp current stack ≠ [] := by
  induction stack generalizing current with
  | nil => exact h.resolve_right (not_not_intro rfl)
  | cons frame stack ih =>
      rw [foldUp]
      exact ih (.inl (insert_ne_nil _ _ _))

end Parser

theorem parseVdf_opening (tokens : List String) : parseVdf ("\x7b" :: tokens) = parseVdf tokens := rfl

theorem parseVdf_closing (tokens : List String) : parseVdf ("\x7d" :: tokens) = [] := rfl

theorem parseVdf_key {key : String} (hkey : ¬ IsBrace key) (tokens : List String) :
    parseVdf (key :: tokens) =
      Parser.foldUp (Parser.run ⟨[], [], some key⟩ tokens).current (Parser.run ⟨[], [], some key⟩ tokens).stack := by
  rw [parseVdf, Parser.run_cons (Parser.token_key hkey [] [])]

theorem parseVdf_key_ne_nil {key next : String} (hkey : ¬ IsBrace key) (hnext : next ≠ "\x7d")
    (tokens : List String) : parseVdf (key :: next :: tokens) ≠ [] := by
  rw [parseVdf_key hkey]
  apply Parser.foldUp_ne_nil
  by_cases hopen : next = "\x7b"
  · rw [hopen, Parser.run_cons (Parser.token_opening (by decide) [] key)]
    exact Parser.run_invariant (fun _ _ _ => Parser.Begun.token) (.inr (List.cons_ne_nil _ _)) tokens
  · rw [Parser.run_cons (Parser.token_value (not_or.mpr ⟨hopen, hnext⟩) [] [] key)]
    exact Parser.run_invariant (fun _ _ _ => Parser.Begun.token) (.inl (insert_ne_nil [] key (.str next))) tokens

theorem parseVdf_eq_nil (tokens : List String) : parseVdf tokens = [] ↔ barren tokens = true := by
  induction tokens with
  | nil => exact iff_of_true rfl rfl
  | cons t rest ih =>
      rw [barren]
      split
      next hopen => rw [hopen, parseVdf_opening, ih]
      next hopen =>
        split
        next hclose => exact iff_of_true (hclose ▸ parseVdf_closing rest) rfl
        next hclose =>
          have hkey : ¬ IsBrace t := not_or.mpr ⟨hopen, hclose⟩
          cases rest with
          | nil => exact iff_of_true (parseVdf_key hkey []) rfl
          | cons next rest =>
              by_cases hnext : next = "\x7d"
              · refine iff_of_true ?_ (decide_eq_true hnext)
                rw [parseVdf_key hkey, hnext]
                rfl
              · exact iff_of_false (parseVdf_key_ne_nil hkey hnext rest) (by simp [hnext])

/-- The two caps hold of an input exactly when no escape of a quoted string is added too late and an
input of too many tokens has nothing to parse anyway. -/
theorem caps_iff (input : String) :
    ((∀ token ∈ tokenize input, WithinCap token) ∧
        (maxVdfTokens < (allTokens input).length → parseVdfStr input = [])) ↔
      (∀ run ∈ (runs .between input.toList).take maxVdfTokens, run.hasLateEscape = false) ∧
        (maxVdfTokens < (allTokens input).length → barren ((allTokens input).take maxVdfTokens) = true) := by
  refine and_congr ?_ (imp_congr_right fun _ => ?_)
  · rw [tokenize_eq_take, allTokens_eq, ← List.map_take, List.forall_mem_map]
    exact forall₂_congr fun run _ => withinCap_token run
  · rw [parseVdfStr_eq]
    exact parseVdf_eq_nil _

theorem lateEscape_replicate (c : Char) (n size : Nat) (h : maxTokenLen < size + n) :
    lateEscape size (List.replicate (n + 1) (.escaped c)) = true := by
  induction n generalizing size with
  | zero =>
      have hsize : maxTokenLen < size := h
      simp [lateEscape, hsize]
  | succ n ih =>
      have hpos := c.utf8Size_pos
      rw [List.replicate_succ, lateEscape, ih (size + c.utf8Size) (by omega), Bool.or_true]

def escapedRun : Run := .quoted (List.replicate (maxTokenLen + 2) (.escaped 'a'))

def escapedText : String := String.ofList (spaced [escapedRun])

def pairsText : String := String.ofList (spaced (List.replicate (maxVdfTokens + 1) (quote "a")))

theorem allTokens_spaced {rs : List Run} (hread : ∀ run ∈ rs, run.Readable) :
    allTokens (String.ofList (spaced rs)) = rs.map Run.token :=
  allTokens_spelled (by rw [String.toList_ofList]; exact spelled_spaced rs) hread

theorem caps_exceeded :
    (∃ token ∈ tokenize escapedText, ¬ WithinCap token) ∧
      maxVdfTokens < (allTokens pairsText).length ∧ parseVdfStr pairsText ≠ [] := by
  have hescaped : allTokens escapedText = [escapedRun.token] := by
    refine allTokens_spaced fun run hrun => ?_
    rw [List.mem_singleton.mp hrun]
    intro item hitem
    rw [(List.mem_replicate.mp hitem).2]
    trivial
  have hpairs : allTokens pairsText = List.replicate (maxVdfTokens + 1) "a" := by
    have hread : ∀ run ∈ List.replicate (maxVdfTokens + 1) (quote "a"), run.Readable := fun run hrun => by
      rw [(List.mem_replicate.mp hrun).2]
      exact readable_quote "a"
    rw [pairsText, allTokens_spaced hread, List.map_replicate, token_quote (by decide)]
  refine ⟨⟨escapedRun.token, ?_, fun hwithin => ?_⟩, ?_, fun hnil => ?_⟩
  · rw [tokenize_eq_take, hescaped]
    exact List.mem_singleton.mpr rfl
  · rw [withinCap_token, escapedRun, Run.hasLateEscape,
      lateEscape_replicate 'a' (maxTokenLen + 1) 0 (by omega)] at hwithin
    cases hwithin
  · rw [hpairs, List.length_replicate]
    exact Nat.lt_succ_self _
  · have hbarren (rest : List String) : barren ("a" :: "a" :: rest) = false := by simp [barren]
    rw [parseVdfStr_eq, hpairs, parseVdf_eq_nil, List.take_replicate, show min maxVdfTokens (maxVdfTokens + 1) =
      199998 + 2 from rfl, List.replicate_succ, List.replicate_succ, hbarren] at hnil
    cases hnil

end RichPresence.Steam
