import RichPresence.Steam.Mounts

namespace RichPresence.Steam

open Lib Serde

/-- The characters that stand in a field of the table as escapes. -/
def escapedChars : List Char := [' ', '\t', '\n', '\\', '#']

def octalDigit (n : Nat) : Char := Char.ofNat ('0'.toNat + n % 8)

def escapeChar (c : Char) : List Char :=
  if c ∈ escapedChars then ['\\', octalDigit (c.toNat / 64), octalDigit (c.toNat / 8), octalDigit c.toNat] else [c]

def escape (field : List Char) : List Char := field.flatMap escapeChar

structure Mount where
  device : List Char
  mountPoint : Path
  fstype : List Char
  options : List Char

namespace Mount

def render (m : Mount) : List Char :=
  [' '].intercalate [escape m.device, escape m.mountPoint, escape m.fstype, escape m.options, ['0'], ['0']]

/-- Of a type that is not passed over, and outside the pseudo trees. -/
def kept (m : Mount) : Bool := String.ofList m.fstype ∉ skipTypes && !pseudoTrees.any (·.isPrefixOf m.mountPoint)

/-- The mount point and its conventional subdirectories. -/
def conventional (m : Mount) : List Path := layouts.map (candidate m.mountPoint)

end Mount

def renderMounts (ms : List Mount) : List Char := ms.flatMap fun m => m.render ++ ['\n']

def expectedProbes (ms : List Mount) : List Path :=
  ((ms.filter Mount.kept).flatMap Mount.conventional).map (Path.join · steamapps)

def Unbroken (field : List Char) : Prop := field ≠ [] ∧ ∀ c ∈ field, isWhiteSpace c = true → c ∈ escapedChars

instance (field : List Char) : Decidable (Unbroken field) :=
  decidable_of_iff (field ≠ [] ∧ (field.all fun c => !isWhiteSpace c || c ∈ escapedChars) = true) <| by
    rw [Unbroken, List.all_eq_true]
    refine and_congr_right fun _ => forall₂_congr fun c _ => ?_
    cases isWhiteSpace c <;> simp

section Fields

variable {field p : List Char} {c : Char}

theorem escape_cons (c : Char) (field : List Char) : escape (c :: field) = escapeChar c ++ escape field := rfl

theorem escapeChar_plain (h : c ∉ escapedChars) : escapeChar c = [c] := if_neg h

theorem mem_escapedChars : c ∈ escapedChars ↔ c = ' ' ∨ c = '\t' ∨ c = '\n' ∨ c = '\\' ∨ c = '#' := by
  simp [escapedChars]

theorem mem_escapeChar {d : Char} (h : d ∈ escapeChar c) :
    (d = c ∧ c ∉ escapedChars) ∨ (c ∈ escapedChars ∧ isWhiteSpace d = false ∧ d ≠ '\n') := by
  by_cases hc : c ∈ escapedChars
  · refine .inr ⟨hc, ?_⟩
    have hall : (escapedChars.all fun c => (escapeChar c).all fun d => !isWhiteSpace d && d != '\n') = true := by
      decide
    simpa using List.all_eq_true.mp (List.all_eq_true.mp hall c hc) d h
  · rw [escapeChar_plain hc, List.mem_singleton] at h
    exact .inl ⟨h, hc⟩

theorem newline_not_mem_escape (field : List Char) : '\n' ∉ escape field := by
  intro h
  obtain ⟨c, -, hc⟩ := List.mem_flatMap.mp h
  rcases mem_escapeChar hc with ⟨rfl, hnot⟩ | ⟨-, -, hne⟩
  · exact hnot (by decide)
  · exact hne rfl

theorem words_of_none {q : Char → Bool} (hne : p ≠ []) (h : ∀ c ∈ p, q c = false) : words q p = [p] := by
  have hsplit : p.splitOnP q = [p] := List.splitOnP_eq_singleton h
  rw [words, hsplit, List.filter_cons_of_pos (by simpa using hne), List.filter_nil]

theorem words_escape (h : Unbroken field) : words isWhiteSpace (escape field) = [escape field] := by
  refine words_of_none ?_ fun d hd => ?_
  · obtain ⟨c, rest, rfl⟩ := List.exists_cons_of_ne_nil h.1
    rw [escape_cons, escapeChar]
    split <;> simp
  · obtain ⟨c, hc, hd⟩ := List.mem_flatMap.mp hd
    rcases mem_escapeChar hd with ⟨rfl, hnot⟩ | ⟨-, hblank, -⟩
    · exact eq_false_of_ne_true fun hw => hnot (h.2 d hc hw)
    · exact hblank

theorem prefix_escape (hp : ∀ c ∈ p, c ∉ escapedChars) (field : List Char) : p <+: escape field ↔ p <+: field := by
  induction p generalizing field with
  | nil => simp
  | cons a p ih =>
      have ha := hp a List.mem_cons_self
      cases field with
      | nil => rfl
      | cons c field =>
          rw [escape_cons]
          by_cases hc : c ∈ escapedChars
          · have hne : a ≠ '\\' := fun heq => ha (heq ▸ by decide)
            have hac : a ≠ c := fun heq => ha (heq ▸ hc)
            rw [escapeChar, if_pos hc, List.cons_append, List.cons_prefix_cons, List.cons_prefix_cons]
            simp [hne, hac]
          · rw [escapeChar_plain hc, List.singleton_append, List.cons_prefix_cons, List.cons_prefix_cons,
              ih (fun b hb => hp b (List.mem_cons_of_mem a hb)) field]

theorem escape_plain (h : ∀ c ∈ field, c ∉ escapedChars) : escape field = field := by
  induction field with
  | nil => rfl
  | cons c field ih =>
      rw [escape_cons, escapeChar_plain (h c List.mem_cons_self), ih fun d hd => h d (List.mem_cons_of_mem c hd)]
      rfl

theorem escape_eq_iff (hp : ∀ c ∈ p, c ∉ escapedChars) : escape field = p ↔ field = p := by
  constructor
  · rintro rfl
    refine (escape_plain fun c hc hesc => ?_).symm
    have hback : '\\' ∈ escape field := by
      refine List.mem_flatMap.mpr ⟨c, hc, ?_⟩
      rw [escapeChar, if_pos hesc]
      exact List.mem_cons_self
    exact hp '\\' hback (by decide)
  · rintro rfl
    exact escape_plain hp

theorem utf8_cons (c : Char) (cs : List Char) : utf8 (c :: cs) = String.utf8EncodeChar c ++ utf8 cs := rfl

theorem unescapeLoop_escapeChar (c : Char) (fuel : Nat) (rest : List Char) (out : Bytes) :
    unescapeLoop (fuel + 1) (escapeChar c ++ rest) out = unescapeLoop fuel rest (out ++ String.utf8EncodeChar c) := by
  by_cases hc : c ∈ escapedChars
  · have hcode : (octalDigit (c.toNat / 64) :: octalDigit (c.toNat / 8) :: [octalDigit c.toNat]).takeWhile isOctal =
        [octalDigit (c.toNat / 64), octalDigit (c.toNat / 8), octalDigit c.toNat] ∧
        octalValue [octalDigit (c.toNat / 64), octalDigit (c.toNat / 8), octalDigit c.toNat] < 256 ∧
        [UInt8.ofNat (octalValue [octalDigit (c.toNat / 64), octalDigit (c.toNat / 8), octalDigit c.toNat])] =
          String.utf8EncodeChar c := by
      rcases mem_escapedChars.mp hc with rfl | rfl | rfl | rfl | rfl
      all_goals exact ⟨rfl, by decide, rfl⟩
    obtain ⟨htake, hbyte, hutf8⟩ := hcode
    rw [escapeChar, if_pos hc]
    simp only [List.cons_append, List.nil_append, unescapeLoop, List.take_succ_cons, List.take_zero,
      List.drop_succ_cons, List.drop_zero]
    rw [if_neg (by simp), htake, if_pos ⟨rfl, hbyte⟩, hutf8]
  · have hne : c ≠ '\\' := fun heq => hc (heq ▸ by decide)
    rw [escapeChar_plain hc, List.singleton_append, unescapeLoop, if_pos hne]

theorem unescapeLoop_escape (field : List Char) {fuel : Nat} (hfuel : field.length ≤ fuel) (out : Bytes) :
    unescapeLoop fuel (escape field) out = out ++ utf8 field := by
  induction field generalizing fuel out with
  | nil =>
      rw [escape, List.flatMap_nil, utf8, List.flatMap_nil, List.append_nil]
      cases fuel <;> rfl
  | cons c field ih =>
      obtain ⟨fuel, rfl⟩ : ∃ n, fuel = n + 1 := ⟨fuel - 1, by rw [List.length_cons] at hfuel; omega⟩
      rw [escape_cons, unescapeLoop_escapeChar, ih (Nat.le_of_succ_le_succ hfuel), utf8_cons, List.append_assoc]

theorem length_le_escape (field : List Char) : field.length ≤ (escape field).length := by
  induction field with
  | nil => exact Nat.le_refl 0
  | cons c field ih =>
      have hpos : 1 ≤ (escapeChar c).length := by
        rw [escapeChar]
        split <;> simp
      rw [escape_cons, List.length_append, List.length_cons]
      omega

theorem decodeUtf8_utf8 (field : List Char) : decodeUtf8 (utf8 field) = some field := by
  have hbytes : (⟨(utf8 field).toArray⟩ : ByteArray) = (String.ofList field).toByteArray := by
    rw [← String.utf8Encode_toList, String.toList_ofList, List.utf8Encode]
    exact ByteArray.ext (List.data_toByteArray ..).symm
  rw [decodeUtf8, hbytes, String.fromUTF8?, dif_pos (String.ofList field).isValidUTF8, Option.map_some]
  exact congrArg some String.toList_ofList

theorem unescapeMount_escape (field : List Char) : unescapeMount (escape field) = field := by
  rw [unescapeMount, unescapeLoop_escape field (length_le_escape field), List.nil_append, fromUtf8Lossy,
    decodeUtf8_utf8, Option.getD_some]

end Fields

end RichPresence.Steam
