import RichPresence.Lib.Words

namespace RichPresence.Steam

open Lib

abbrev Path := List Char

namespace Path

def isAbsolute (path : Path) : Bool := path.head? == some '/'

def join (path other : Path) : Path :=
  if other.isAbsolute then other
  else if path.isEmpty || path.getLast? == some '/' then path ++ other
  else path ++ '/' :: other

/-- Repeated separators and inner dots are no components. -/
def components (path : Path) : List Path :=
  match path.isAbsolute, words (· == '/') path with
  | true, parts => parts.filter (· ≠ ['.'])
  | false, [] => []
  | false, first :: parts => first :: parts.filter (· ≠ ['.'])

/-- Paths are compared by their components. -/
def same (path other : Path) : Bool :=
  path.isAbsolute == other.isAbsolute && path.components == other.components

end Path

def steamapps : Path := "steamapps".toList

end RichPresence.Steam
