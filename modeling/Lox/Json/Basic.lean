import Lox.Keyed
/-!
# JSON values

Values keep the order of an object's fields and the difference between whole numbers, which are
exact, and doubles. `Json.ofFields` is the one way in which objects are built from text: a name
that occurs twice keeps its first place and its last value.
-/

namespace Lox

/-- A JSON value. -/
inductive Json where
  | null
  | bool (value : Bool)
  | int (value : Int)
  | float (value : Float)
  | str (value : String)
  | arr (items : List Json)
  | obj (fields : List (String × Json))
  deriving BEq, Inhabited

namespace Json

/-- The object with the given fields, set one after another. -/
def ofFields (fields : List (String × Json)) : Json :=
  .obj (fields.foldl (fun done field => Keyed.set field.1 field.2 done) [])

/-- The value of a field of an object. -/
def field? (name : String) : Json → Option Json
  | .obj fields => Keyed.get? name fields
  | _ => none

end Json

end Lox
