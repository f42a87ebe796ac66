import Mathlib.Data.List.Basic
import RichPresence.Steam.Vdf

namespace RichPresence.Steam

/-- A character of a quoted string as the text has it. -/
inductive Item
  | plain (c : Char)
  | escaped (c : Char)
  deriving DecidableEq, Repr

/-- What stands in a text between the characters that are passed over. -/
inductive Run
  | opening
  | closing
  | quoted (items : List Item)
  deriving DecidableEq, Repr

inductive Site
  | between
  | inside (items : List Item)
  | behind (items : List Item)

/-- A text cut into its runs, with nothing left out of a quoted string. -/
def runs : Site → List Char → List Run
  | _, [] => []
  | .between, c :: rest =>
      if c = '"' then runs (.inside []) rest
      else if c = '{' then .opening :: runs .between rest
      else if c = '}' then .closing :: runs .between rest
      else runs .between rest
  | .inside items, c :: rest =>
      if c = '"' then .quoted items :: runs .between rest
      else if c = '\\' then runs (.behind items) rest
      else runs (.inside (items ++ [.plain c])) rest
  | .behind items, c :: rest => runs (.inside (items ++ [.escaped c])) rest

/-- What the tokenizer keeps of a quoted string, and whether it has stopped keeping. -/
def keep (kept : String × Bool) : Item → String × Bool
  | .plain c =>
      if kept.2 then kept else if maxTokenLen ≤ kept.1.utf8ByteSize then (kept.1, true) else (kept.1.push c, kept.2)
  | .escaped c => (if kept.2 then kept.1 else kept.1.push c, kept.2)

def keptOf (items : List Item) : String × Bool := items.foldl keep ("", false)

def Run.token : Run → String
  | .opening => "\x7b"
  | .closing => "\x7d"
  | .quoted items => (keptOf items).1

def Site.cursor : Site → Cursor
  | .between => .between
  | .inside items => .quoted (keptOf items).1 (keptOf items).2
  | .behind items => .escape (keptOf items).1 (keptOf items).2

theorem keptOf_concat (items : List Item) (item : Item) : keptOf (items ++ [item]) = keep (keptOf items) item := by
  rw [keptOf, List.foldl_append]
  rfl

theorem scan_eq_runs (text : List Char) (count : Nat) (site : Site) :
    scan (fun _ => false) count site.cursor text = (runs site text).map Run.token := by
  induction text generalizing count site with
  | nil => cases site <;> rfl
  | cons c rest ih =>
      cases site with
      | between =>
          rw [Site.cursor, scan, runs]
          simp only [Bool.false_eq_true, if_false]
          split
          · exact ih count (.inside [])
          · split
            · rw [List.map_cons]
              exact congrArg (List.cons _) (ih (count + 1) .between)
            · split
              · rw [List.map_cons]
                exact congrArg (List.cons _) (ih (count + 1) .between)
              · exact ih count .between
      | inside items =>
          rw [Site.cursor, scan, runs]
          split
          · rw [List.map_cons]
            exact congrArg (List.cons _) (ih (count + 1) .between)
          · split
            · exact ih count (.behind items)
            · rw [← ih count (.inside (items ++ [Item.plain c])), Site.cursor, keptOf_concat, keep]
              split
              · rfl
              · split <;> rfl
      | behind items =>
          rw [Site.cursor, scan, runs, ← ih count (.inside (items ++ [Item.escaped c])), Site.cursor,
            keptOf_concat, keep]

theorem scan_eq_take (limit : Nat) (text : List Char) (count other : Nat) (cursor : Cursor)
    (hroom : cursor = .between ∨ count < limit) :
    scan (fun count => limit ≤ count) count cursor text =
      (scan (fun _ => false) other cursor text).take (limit - count) := by
  induction text generalizing count other cursor with
  | nil => cases cursor <;> simp [scan]
  | cons c rest ih =>
      have htoken (token : String) (h : count < limit) :
          token :: scan (fun count => limit ≤ count) (count + 1) .between rest =
            (token :: scan (fun _ => false) (other + 1) .between rest).take (limit - count) := by
        rw [ih (count + 1) (other + 1) .between (.inl rfl), show limit - count = limit - (count + 1) + 1 by omega,
          List.take_succ_cons]
      cases cursor with
      | between =>
          rw [scan, scan]
          by_cases hfull : limit ≤ count
          · simp [hfull, Nat.sub_eq_zero_of_le hfull]
          · have hlt : count < limit := Nat.lt_of_not_le hfull
            simp only [hfull, decide_false, Bool.false_eq_true, if_false]
            split
            · exact ih count other _ (.inr hlt)
            · split
              · exact htoken _ hlt
              · split
                · exact htoken _ hlt
                · exact ih count other _ (.inl rfl)
      | quoted string overlong =>
          have hlt : count < limit := hroom.resolve_left (by simp)
          rw [scan, scan]
          split
          · exact htoken _ hlt
          · split
            · exact ih count other _ (.inr hlt)
            · split
              · exact ih count other _ (.inr hlt)
              · split
                · exact ih count other _ (.inr hlt)
                · exact ih count other _ (.inr hlt)
      | escape string overlong =>
          rw [scan, scan]
          exact ih count other _ (.inr (hroom.resolve_left (by simp)))

theorem allTokens_eq (input : String) : allTokens input = (runs .between input.toList).map Run.token :=
  scan_eq_runs input.toList 0 .between

theorem tokenize_eq_take (input : String) : tokenize input = (allTokens input).take maxVdfTokens :=
  scan_eq_take maxVdfTokens input.toList 0 0 .between (.inl rfl)

def Item.spell : Item → List Char
  | .plain c => [c]
  | .escaped c => ['\\', c]

def Run.spell : Run → List Char
  | .opening => ['{']
  | .closing => ['}']
  | .quoted items => '"' :: (items.flatMap Item.spell ++ ['"'])

/-- A quote or a backslash that is not escaped would not be read back. -/
def Item.Readable : Item → Prop
  | .plain c => c ≠ '"' ∧ c ≠ '\\'
  | .escaped _ => True

def Run.Readable : Run → Prop
  | .quoted items => ∀ item ∈ items, item.Readable
  | _ => True

/-- The text has the runs one after the other with white space around them. -/
inductive Spelled : List Run → List Char → Prop
  | nil {gap : List Char} (hgap : ∀ c ∈ gap, isWhiteSpace c) : Spelled [] gap
  | cons {gap text : List Char} {run : Run} {rest : List Run} (hgap : ∀ c ∈ gap, isWhiteSpace c)
      (hrest : Spelled rest text) : Spelled (run :: rest) (gap ++ (run.spell ++ text))

theorem runs_passes {c : Char} (hc : isWhiteSpace c) (text : List Char) :
    runs .between (c :: text) = runs .between text := by
  have hquote : c ≠ '"' := by rintro rfl; revert hc; decide
  have hopen : c ≠ '{' := by rintro rfl; revert hc; decide
  have hclose : c ≠ '}' := by rintro rfl; revert hc; decide
  rw [runs, if_neg hquote, if_neg hopen, if_neg hclose]

theorem runs_gap {gap : List Char} (hgap : ∀ c ∈ gap, isWhiteSpace c) (text : List Char) :
    runs .between (gap ++ text) = runs .between text := by
  induction gap with
  | nil => rfl
  | cons c gap ih =>
      rw [List.cons_append, runs_passes (hgap c (by simp))]
      exact ih fun d hd => hgap d (List.mem_cons_of_mem _ hd)

theorem runs_items {items : List Item} (hread : ∀ item ∈ items, item.Readable) (done : List Item)
    (text : List Char) :
    runs (.inside done) (items.flatMap Item.spell ++ ('"' :: text)) =
      .quoted (done ++ items) :: runs .between text := by
  induction items generalizing done with
  | nil => simp [runs]
  | cons item items ih =>
      have hrest := ih (fun i hi => hread i (List.mem_cons_of_mem _ hi)) (done ++ [item])
      rw [List.append_assoc, List.singleton_append] at hrest
      rw [← hrest, List.flatMap_cons, List.append_assoc]
      cases item with
      | plain c =>
          obtain ⟨hquote, hslash⟩ := hread (.plain c) (by simp)
          rw [Item.spell, List.singleton_append, runs, if_neg hquote, if_neg hslash]
      | escaped c => rfl

theorem runs_spell {run : Run} (hread : run.Readable) (text : List Char) :
    runs .between (run.spell ++ text) = run :: runs .between text := by
  cases run with
  | opening => rfl
  | closing => rfl
  | quoted items =>
      have h := runs_items hread [] text
      rw [Run.spell, List.cons_append, List.append_assoc, List.singleton_append, runs, if_pos rfl, h, List.nil_append]

theorem runs_spelled {rs : List Run} {text : List Char} (h : Spelled rs text) (hread : ∀ run ∈ rs, run.Readable) :
    runs .between text = rs := by
  induction h with
  | nil hgap =>
      have hend := runs_gap hgap []
      rwa [List.append_nil] at hend
  | @cons gap text run rest hgap hrest ih =>
      rw [runs_gap hgap, runs_spell (hread run (by simp)), ih fun r hr => hread r (List.mem_cons_of_mem _ hr)]

theorem allTokens_spelled {rs : List Run} {input : String} (h : Spelled rs input.toList)
    (hread : ∀ run ∈ rs, run.Readable) : allTokens input = rs.map Run.token := by
  rw [allTokens_eq, runs_spelled h hread]

/-- The quoted form of a string, with its quotes and backslashes escaped. -/
def quoteItem (c : Char) : Item := if c = '"' ∨ c = '\\' then .escaped c else .plain c

def quote (s : String) : Run := .quoted (s.toList.map quoteItem)

theorem readable_quote (s : String) : (quote s).Readable := by
  intro item hitem
  obtain ⟨c, -, rfl⟩ := List.mem_map.mp hitem
  rw [quoteItem]
  split
  · trivial
  next h => exact not_or.mp h

theorem foldl_keep_quoteItem (cs : List Char) (kept : String)
    (hsize : kept.utf8ByteSize + (String.ofList cs).utf8ByteSize ≤ maxTokenLen) :
    (cs.map quoteItem).foldl keep (kept, false) = (kept ++ String.ofList cs, false) := by
  induction cs generalizing kept with
  | nil => simp
  | cons c cs ih =>
      have hcons : (String.ofList (c :: cs)).utf8ByteSize = c.utf8Size + (String.ofList cs).utf8ByteSize := by simp
      have hpos := c.utf8Size_pos
      have hstep : keep (kept, false) (quoteItem c) = (kept.push c, false) := by
        rw [quoteItem]
        split
        · rfl
        · rw [keep]
          simp only [Bool.false_eq_true, if_false]
          exact if_neg (by omega)
      have hrest : kept.push c ++ String.ofList cs = kept ++ String.ofList (c :: cs) := by
        apply String.toList_inj.mp
        simp
      rw [List.map_cons, List.foldl_cons, hstep, ih (kept.push c) (by rw [String.utf8ByteSize_push]; omega), hrest]

theorem token_quote {s : String} (hsize : s.utf8ByteSize ≤ maxTokenLen) : (quote s).token = s := by
  have hzero : ("" : String).utf8ByteSize = 0 := rfl
  have h := foldl_keep_quoteItem s.toList "" (by rwa [String.ofList_toList, hzero, Nat.zero_add])
  rw [quote, Run.token, keptOf, h, String.ofList_toList]
  simp

end RichPresence.Steam
