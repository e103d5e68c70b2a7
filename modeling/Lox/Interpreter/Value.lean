import Lox.Document.Misfit
/-!
# Values at run time

Programs compute with atoms. A literal of a document may hold something else in place of an atom,
which is then its value: it can be shown, named and joined to a string, and every operator that
needs an atom refuses it.
-/

namespace Lox

open Document

/-- A value at run time. -/
inductive Value where
  | atom (a : Atom)
  /-- A part that stands where an atom belongs. Once it is kept under a name it has a mark of its
  own, which goes with it from there. -/
  | stray (n : Node) (mark : Option Nat)
  deriving Inhabited

namespace Value

/-- The value of a literal that holds a part. -/
def ofNode : Node → Value
  | .atom a => .atom a
  | n => .stray n none

/-- The name of a value's type. -/
def typeName : Value → String
  | atom a => a.typeName
  | stray n _ => n.partKind.name

/-- The debug form of a value. -/
def debug : Value → String
  | atom a => a.debug
  | stray n _ => n.describe

/-- The display form of a value. -/
def display : Value → String
  | atom a => a.display
  | stray n _ => n.describe

/-- Whether a value counts as true. -/
def truthy : Value → Bool
  | atom a => a.truthy
  | stray .. => true

/-- Equality of values. Parts of different kinds are unequal; of one kind only literals hold a
value to compare. A value that is kept under a name equals itself, whatever it holds. -/
def equal : Value → Value → Except Misfit Bool
  | atom a, atom b => .ok (a.equal b)
  | stray (.literal m) i, stray (.literal n) j => .ok ((i.isSome && i == j) || m.same n)
  | stray m _, stray n _ => if m.partKind = n.partKind then .error .incomparable else .ok false
  | _, _ => .ok false

/-- The numbers that two operands stand for, if both are atoms and numeric. -/
def numericPair? : Value → Value → Option (Float × Float)
  | atom a, atom b => a.numericPair? b
  | _, _ => none

/-- Whether a value is a string. -/
def isString : Value → Bool
  | atom (.string _) => true
  | _ => false

end Value

end Lox
