import RichPresence.Types.Text

namespace RichPresence.Steam

/-- The value of a key in a file of Steam: a string or a map. A map is the list of
its entries in the order they were first inserted. -/
inductive Vdf
  | str (s : String)
  | map (entries : List (String × Vdf))
  deriving Repr, Inhabited

abbrev VdfMap := List (String × Vdf)

/-- `HashMap::insert`: the value of a key that is already there is replaced. -/
def VdfMap.insert (m : VdfMap) (key : String) (value : Vdf) : VdfMap :=
  if key ∈ m.map Prod.fst then m.map fun e => if e.1 = key then (key, value) else e
  else m ++ [(key, value)]

def maxTokenLen : Nat := 64 * 1024

def maxVdfTokens : Nat := 200000

def maxDepth : Nat := 64

/-- Where the tokenizer stands: between tokens, in a quoted string with what is kept
of it so far, or behind a backslash in one. -/
inductive Cursor
  | between
  | quoted (string : String) (overlong : Bool)
  | escape (string : String) (overlong : Bool)

/-- The tokens still to come when `count` are out. Between two tokens the scan ends as
soon as the count is `full`. -/
def scan (full : Nat → Bool) : Nat → Cursor → List Char → List String
  -- a quoted string that is never closed is dropped
  | _, _, [] => []
  | count, .between, c :: rest =>
      if full count then []
      else if c = '"' then scan full count (.quoted "" false) rest
      else if c = '{' then "\x7b" :: scan full (count + 1) .between rest
      else if c = '}' then "\x7d" :: scan full (count + 1) .between rest
      else scan full count .between rest
  | count, .quoted string overlong, c :: rest =>
      if c = '"' then string :: scan full (count + 1) .between rest
      else if c = '\\' then scan full count (.escape string overlong) rest
      else if overlong then scan full count (.quoted string overlong) rest
      else if maxTokenLen ≤ string.utf8ByteSize then scan full count (.quoted string true) rest
      else scan full count (.quoted (string.push c) overlong) rest
  | count, .escape string overlong, escaped :: rest =>
      scan full count (.quoted (if overlong then string else string.push escaped) overlong) rest

def tokenize (input : String) : List String :=
  scan (fun count => maxVdfTokens ≤ count) 0 .between input.toList

/-- The tokens of a text when nothing stops the scan. -/
def allTokens (input : String) : List String := scan (fun _ => false) 0 .between input.toList

/-- The map being filled, the maps around it with the key each waits under, and the
key that waits for its value. -/
structure Parser where
  current : VdfMap := []
  stack : List (VdfMap × String) := []
  pending : Option String := none
  deriving Repr

namespace Parser

/-- One token; `none` when it ends the parse. -/
def token (p : Parser) (token : String) : Option Parser :=
  if token = "\x7d" then
    match p.stack with
    | [] => none
    | (parent, key) :: stack => some { p with current := parent.insert key (.map p.current), stack := stack }
  else if token = "\x7b" then
    match p.pending with
    | none => some p
    | some key =>
        if maxDepth ≤ p.stack.length then none
        else some { current := [], stack := (p.current, key) :: p.stack, pending := none }
  else
    match p.pending with
    | some key => some { p with current := p.current.insert key (.str token), pending := none }
    | none => some { p with pending := some token }

def run (p : Parser) : List String → Parser
  | [] => p
  | t :: tokens =>
      match p.token t with
      | some q => q.run tokens
      | none => p

def foldUp (current : VdfMap) : List (VdfMap × String) → VdfMap
  | [] => current
  | (parent, key) :: stack => foldUp (parent.insert key (.map current)) stack

end Parser

def parseVdf (tokens : List String) : VdfMap :=
  let last := Parser.run {} tokens
  Parser.foldUp last.current last.stack

def parseVdfStr (input : String) : VdfMap :=
  let tokens := tokenize input
  if tokens.length > maxVdfTokens then [] else parseVdf tokens

def stringAt (m : VdfMap) (key : String) : Option String :=
  match m.lookup key with
  | some (.str s) =>
      let trimmed := trim s.toList
      if trimmed.isEmpty then none else some (String.ofList trimmed)
  | _ => none

def manifestIds (doc : VdfMap) : Option (String × String) :=
  match doc.lookup "AppState" with
  | some (.map state) =>
      match stringAt state "appid", stringAt state "installdir" with
      | some appid, some installdir => some (appid, installdir)
      | _, _ => none
  | _ => none

end RichPresence.Steam
