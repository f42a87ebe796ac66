import Mathlib.Algebra.Group.Int.Defs
import Mathlib.Algebra.Group.Nat.Defs

namespace RichPresence

inductive Number
  | posInt (n : UInt64)
  | negInt (n : Int64)
  | float (bits : UInt64)
  deriving DecidableEq, Repr

namespace Number

def asI64 : Number → Option Int
  | posInt n => if n.toNat < 2 ^ 63 then some n.toNat else none
  | negInt i => some i.toInt
  | float _ => none

def asU64 : Number → Option Nat
  | posInt n => some n.toNat
  | _ => none

end Number

/-- A decoded JSON value. The members of an object stand in the order the map
that holds them is walked. -/
inductive Value
  | null
  | bool (b : Bool)
  | number (n : Number)
  | string (s : String)
  | array (items : List Value)
  | object (members : List (String × Value))
  deriving Repr, Inhabited

namespace Value

def asStr : Value → Option String
  | string s => some s
  | _ => none

def asArray : Value → Option (List Value)
  | array items => some items
  | _ => none

def get (key : String) : Value → Option Value
  | object members => members.lookup key
  | _ => none

def asI64 : Value → Option Int
  | number n => n.asI64
  | _ => none

def asU64 : Value → Option Nat
  | number n => n.asU64
  | _ => none

/-- `Map::remove`: the removed member, if any, and what is left. -/
def removeMember (key : String) (members : List (String × Value)) :
    Option Value × List (String × Value) :=
  (members.lookup key, members.filter fun m => m.1 ≠ key)

end Value

end RichPresence
