namespace RichPresence

/-- Wherever a text is looked for among texts, the comparison is the same. -/
instance lawfulBEq_text : LawfulBEq (List Char) := inferInstance

/-- What counts as white space when a text is trimmed. -/
def isWhiteSpace (c : Char) : Bool :=
  (0x09 ≤ c.toNat && c.toNat ≤ 0x0d) || (0x2000 ≤ c.toNat && c.toNat ≤ 0x200a) ||
    [0x20, 0x85, 0xa0, 0x1680, 0x2028, 0x2029, 0x202f, 0x205f, 0x3000].contains c.toNat

def decodeUtf8 (bytes : List UInt8) : Option (List Char) := (String.fromUTF8? ⟨bytes.toArray⟩).map String.toList

def isBlank (s : String) : Bool := s.toList.all isWhiteSpace

def trim (text : List Char) : List Char :=
  ((text.dropWhile isWhiteSpace).reverse.dropWhile isWhiteSpace).reverse

def trimMatches (c : Char) (s : String) : String :=
  String.ofList (((s.toList.dropWhile (· = c)).reverse.dropWhile (· = c)).reverse)

end RichPresence
