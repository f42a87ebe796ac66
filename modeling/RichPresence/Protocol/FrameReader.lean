import RichPresence.Protocol.Serde

namespace RichPresence.Serde

/-- Where a reader stands in a text: how many brackets are open, and whether it
is inside a string. -/
structure Place where
  depth : Nat := 0
  inString : Bool := false

/-- Take one value off a text: everything up to the comma or bracket that ends
it. What was taken so far is kept in reverse. -/
def takeValue : Place → List Char → List Char → List Char × List Char
  | _, taken, [] => (taken.reverse, [])
  | ⟨d, true⟩, taken, '\\' :: c :: rest => takeValue ⟨d, true⟩ (c :: '\\' :: taken) rest
  | ⟨d, true⟩, taken, c :: rest => takeValue ⟨d, c != '"'⟩ (c :: taken) rest
  | ⟨d, false⟩, taken, c :: rest =>
      if c = '"' then takeValue ⟨d, true⟩ (c :: taken) rest
      else if c = '[' ∨ c = '\x7b' then takeValue ⟨d + 1, false⟩ (c :: taken) rest
      else if d = 0 ∧ (c = ',' ∨ c = ']' ∨ c = '\x7d') then (taken.reverse, c :: rest)
      else if c = ']' ∨ c = '\x7d' then takeValue ⟨d - 1, false⟩ (c :: taken) rest
      else takeValue ⟨d, false⟩ (c :: taken) rest

/-- The text is taken as it stands, from one place to another. -/
def Passes (p : Place) (text : List Char) (q : Place) : Prop :=
  ∀ taken rest, takeValue p taken (text ++ rest) = takeValue q (text.reverse ++ taken) rest

namespace Passes

variable {p q r : Place} {xs ys : List Char} {d : Nat} {c : Char}

theorem nil (p : Place) : Passes p [] p := fun _ _ => rfl

theorem append (h : Passes p xs q) (h' : Passes q ys r) : Passes p (xs ++ ys) r := by
  intro taken rest
  rw [List.append_assoc, h, h', List.reverse_append, List.append_assoc]

theorem cons (h : Passes p [c] q) (h' : Passes q ys r) : Passes p (c :: ys) r := h.append h'

theorem quote : Passes ⟨d, false⟩ ['"'] ⟨d, true⟩ := by
  intro taken rest
  simp [takeValue]

theorem unquote : Passes ⟨d, true⟩ ['"'] ⟨d, false⟩ := by
  intro taken rest
  simp [takeValue]

theorem opened (h : c = '[' ∨ c = '\x7b') : Passes ⟨d, false⟩ [c] ⟨d + 1, false⟩ := by
  intro taken rest
  rcases h with rfl | rfl <;> simp [takeValue]

theorem closed (h : c = ']' ∨ c = '\x7d') : Passes ⟨d + 1, false⟩ [c] ⟨d, false⟩ := by
  intro taken rest
  rcases h with rfl | rfl <;> simp [takeValue]

theorem escaped : Passes ⟨d, true⟩ ['\\', c] ⟨d, true⟩ := by
  intro taken rest
  simp [takeValue]

theorem inside (hq : c ≠ '"') (hb : c ≠ '\\') : Passes ⟨d, true⟩ [c] ⟨d, true⟩ := by
  intro taken rest
  have hc : (c != '"') = true := by simpa using hq
  simp [takeValue, hb, hc]

def Plain (c : Char) : Prop :=
  c ≠ '"' ∧ c ≠ '[' ∧ c ≠ '\x7b' ∧ c ≠ ',' ∧ c ≠ ']' ∧ c ≠ '\x7d'

instance : DecidablePred Plain := fun _ => inferInstanceAs (Decidable (_ ∧ _))

theorem plain (h : Plain c) : Passes ⟨d, false⟩ [c] ⟨d, false⟩ := by
  intro taken rest
  obtain ⟨h1, h2, h3, h4, h5, h6⟩ := h
  simp [takeValue, h1, h2, h3, h4, h5, h6]

theorem plains (h : ∀ c ∈ xs, Plain c) : Passes ⟨d, false⟩ xs ⟨d, false⟩ := by
  induction xs with
  | nil => exact nil _
  | cons c xs ih => exact (plain (h c (by simp))).cons (ih fun x hx => h x (by simp [hx]))

theorem comma : Passes ⟨d + 1, false⟩ [','] ⟨d + 1, false⟩ := by
  intro taken rest
  simp [takeValue]

end Passes

theorem digitChar_plain : ∀ n < 16, Passes.Plain (Nat.digitChar n) ∧ Nat.digitChar n ≠ '\\' := by decide

theorem escape_passes (d : Nat) (c : Char) : Passes ⟨d, true⟩ (escape c) ⟨d, true⟩ := by
  rw [escape.eq_def]
  split
  case h_8 hq hb _ _ _ _ _ =>
    split
    next hlow =>
      have hu : Passes ⟨d, true⟩ ['\\', 'u'] ⟨d, true⟩ := .escaped
      have h0 : Passes ⟨d, true⟩ ['0'] ⟨d, true⟩ := .inside (by decide) (by decide)
      have hdigit : ∀ n < 16, Passes ⟨d, true⟩ [Nat.digitChar n] ⟨d, true⟩ := fun n hn =>
        .inside (digitChar_plain n hn).1.1 (digitChar_plain n hn).2
      exact hu.append (h0.cons (h0.cons ((hdigit _ (by omega)).cons (hdigit _ (by omega)))))
    next => exact .inside hq hb
  all_goals exact .escaped

theorem quoted_passes (d : Nat) (s : String) : Passes ⟨d, false⟩ (quoted s) ⟨d, false⟩ := by
  rw [quoted]
  refine Passes.quote.append (Passes.append ?_ Passes.unquote)
  induction s.toList with
  | nil => exact .nil _
  | cons c cs ih =>
      rw [List.flatMap_cons]
      exact (escape_passes d c).append ih

theorem repr_plain (n : Nat) : ∀ c ∈ (Nat.repr n).toList, Passes.Plain c := by
  intro c hc
  rw [Nat.toList_repr] at hc
  have hd : c.isDigit = true := Nat.isDigit_of_mem_toDigits (by decide) (by decide) hc
  refine ⟨?_, ?_, ?_, ?_, ?_, ?_⟩ <;> rintro rfl <;> exact absurd hd (by decide)

theorem intRepr_plain (i : Int) : ∀ c ∈ (Int.repr i).toList, Passes.Plain c := by
  cases i with
  | ofNat n => exact repr_plain n
  | negSucc n =>
      intro c hc
      rw [Int.repr, String.toList_append, List.mem_append] at hc
      rcases hc with hc | hc
      · obtain rfl : c = '-' := by simpa using hc
        decide
      · exact repr_plain _ c hc

theorem numberJson_passes (d : Nat) (n : Number) : Passes ⟨d, false⟩ (numberJson n) ⟨d, false⟩ := by
  cases n with
  | posInt n => exact .plains (repr_plain n.toNat)
  | negInt i => exact .plains (intRepr_plain i.toInt)
  | float bits =>
      have hnull : ∀ c ∈ "null".toList, Passes.Plain c := by simp [Passes.Plain]
      exact .plains hnull

mutual

theorem valueJson_passes (d : Nat) : ∀ v, Passes ⟨d, false⟩ (valueJson v) ⟨d, false⟩
  | .null => .plains (by simp [valueJson, Passes.Plain])
  | .bool true => .plains (by simp [valueJson, Passes.Plain])
  | .bool false => .plains (by simp [valueJson, Passes.Plain])
  | .number n => numberJson_passes d n
  | .string s => quoted_passes d s
  | .array items => by
      rw [valueJson]
      exact (Passes.opened (.inl rfl)).append ((itemsJson_passes d items).append (.closed (.inl rfl)))
  | .object members => by
      rw [valueJson]
      exact (Passes.opened (.inr rfl)).append ((membersJson_passes d members).append (.closed (.inr rfl)))

theorem itemsJson_passes (d : Nat) : ∀ items, Passes ⟨d + 1, false⟩ (itemsJson items) ⟨d + 1, false⟩
  | [] => .nil _
  | [v] => valueJson_passes (d + 1) v
  | v :: w :: rest => (valueJson_passes (d + 1) v).append (Passes.comma.append (itemsJson_passes d (w :: rest)))

theorem membersJson_passes (d : Nat) : ∀ members, Passes ⟨d + 1, false⟩ (membersJson members) ⟨d + 1, false⟩
  | [] => .nil _
  | [(key, v)] =>
      (quoted_passes (d + 1) key).append ((Passes.plain (by decide)).cons (valueJson_passes (d + 1) v))
  | (key, v) :: w :: rest => by
      have hmember := (quoted_passes (d + 1) key).append
        ((Passes.plain (c := ':') (by decide)).cons (valueJson_passes (d + 1) v))
      exact hmember.append (Passes.comma.append (membersJson_passes d (w :: rest)))

end

theorem takeValue_valueJson (v : Value) {c : Char} (hc : c = ',' ∨ c = ']' ∨ c = '\x7d') (rest : List Char) :
    takeValue {} [] (valueJson v ++ c :: rest) = (valueJson v, c :: rest) := by
  have hend : ∀ taken, takeValue {} taken (c :: rest) = (taken.reverse, c :: rest) := by
    intro taken
    rcases hc with rfl | rfl | rfl <;> simp [takeValue]
  rw [valueJson_passes 0 v, hend, List.append_nil, List.reverse_reverse]

def hexValue (c : Char) : Nat := if c.isDigit then c.toNat - '0'.toNat else c.toNat - 'a'.toNat + 10

def readString : List Char → Option (List Char × List Char)
  | [] => none
  | '"' :: rest => some ([], rest)
  | '\\' :: 'n' :: rest => (readString rest).map fun r => ('\n' :: r.1, r.2)
  | '\\' :: 'r' :: rest => (readString rest).map fun r => ('\r' :: r.1, r.2)
  | '\\' :: 't' :: rest => (readString rest).map fun r => ('\t' :: r.1, r.2)
  | '\\' :: 'b' :: rest => (readString rest).map fun r => ('\x08' :: r.1, r.2)
  | '\\' :: 'f' :: rest => (readString rest).map fun r => ('\x0c' :: r.1, r.2)
  | '\\' :: 'u' :: '0' :: '0' :: x :: y :: rest =>
      (readString rest).map fun r => (Char.ofNat (16 * hexValue x + hexValue y) :: r.1, r.2)
  | '\\' :: c :: rest => (readString rest).map fun r => (c :: r.1, r.2)
  | c :: rest => (readString rest).map fun r => (c :: r.1, r.2)

theorem hexValue_control : ∀ n < 32,
    16 * hexValue (Nat.digitChar (n / 16)) + hexValue (Nat.digitChar (n % 16)) = n := by decide

theorem readString_escape (c : Char) (rest : List Char) :
    readString (escape c ++ rest) = (readString rest).map fun r => (c :: r.1, r.2) := by
  rw [escape.eq_def]
  split
  case h_8 hq hb _ _ _ _ _ =>
    split
    next hlow =>
      simp only [List.cons_append, List.nil_append, readString]
      rw [hexValue_control _ hlow, Char.ofNat_toNat]
    next =>
      rw [List.singleton_append, readString.eq_def]
      split <;> simp_all
  all_goals simp [readString]

theorem readString_quoted (s : String) (rest : List Char) :
    readString (s.toList.flatMap escape ++ '"' :: rest) = some (s.toList, rest) := by
  induction s.toList with
  | nil => rfl
  | cons c cs ih => rw [List.flatMap_cons, List.append_assoc, readString_escape, ih, Option.map_some]

def after (piece text : List Char) : Option (List Char) :=
  if piece.isPrefixOf text then some (text.drop piece.length) else none

theorem after_append (piece rest : List Char) : after piece (piece ++ rest) = some rest := by
  rw [after, if_pos (List.isPrefixOf_iff_prefix.mpr (List.prefix_append _ _)), List.drop_left]

def activityKey : List Char := "\x7b\"activity\":".toList

def pidKey : List Char := ",\"pid\":".toList

def socketKey : List Char := ",\"socketId\":\"".toList

/-- How a consumer reads a text frame: the socket it is about and the text of
its activity, `none` when that is null. Anything else is no activity frame. -/
def readFrame (frame : String) : Option (SocketId × Option (List Char)) := do
  let text ← after activityKey frame.toList
  let (activity, text) := takeValue {} [] text
  let text ← after pidKey text
  let (_, text) := takeValue {} [] text
  let text ← after socketKey text
  let (socketId, _) ← readString text
  return (⟨String.ofList socketId⟩, if activity = "null".toList then none else some activity)

def frameValue (activity pid : Value) (socketId : String) : Value :=
  .object [("activity", activity), ("pid", pid), ("socketId", .string socketId)]

theorem valueJson_frame (activity pid : Value) (socketId : String) :
    valueJson (frameValue activity pid socketId) =
      activityKey ++ (valueJson activity ++ (pidKey ++ (valueJson pid ++ (socketKey ++
        (socketId.toList.flatMap escape ++ '"' :: ['\x7d']))))) := by
  have hactivity : '\x7b' :: (quoted "activity" ++ [':']) = activityKey := by decide
  have hpid : ',' :: (quoted "pid" ++ [':']) = pidKey := by decide
  have hsocket : ',' :: (quoted "socketId" ++ [':', '"']) = socketKey := by decide
  have hname : quoted socketId = '"' :: (socketId.toList.flatMap escape ++ ['"']) := rfl
  rw [← hactivity, ← hpid, ← hsocket]
  simp only [frameValue, valueJson, membersJson, hname, List.cons_append, List.append_assoc, List.nil_append]

theorem takeValue_before {piece : List Char} {c : Char} {tail : List Char} (hp : piece = c :: tail)
    (hc : c = ',' ∨ c = ']' ∨ c = '\x7d') (v : Value) (rest : List Char) :
    takeValue {} [] (valueJson v ++ (piece ++ rest)) = (valueJson v, piece ++ rest) := by
  rw [hp]
  exact takeValue_valueJson v hc (tail ++ rest)

theorem readFrame_correct (activity pid : Value) (socketId : String) :
    readFrame (String.ofList (valueJson (frameValue activity pid socketId))) =
      some (⟨socketId⟩, if valueJson activity = "null".toList then none else some (valueJson activity)) := by
  have hpid : pidKey = ',' :: "\"pid\":".toList := rfl
  have hsocket : socketKey = ',' :: "\"socketId\":\"".toList := rfl
  rw [readFrame, String.toList_ofList, valueJson_frame, after_append]
  simp only [Option.bind_eq_bind, Option.bind_some, takeValue_before hpid (.inl rfl), after_append,
    takeValue_before hsocket (.inl rfl), readString_quoted, String.ofList_toList, Option.pure_def]

end RichPresence.Serde
