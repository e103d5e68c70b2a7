import Lox.Json.Plain
import Lox.Json.Same
/-!
# Names

What a value can be kept under. The names of a program are text. A document may give any value as a
name, and all but arrays and objects serve as one; names that are numbers are told apart by their
value alone, so `1`, `1.0` and `true` are one name.
-/

namespace Lox

/-- What a value can be kept under. -/
inductive Name where
  | text (s : String)
  | null
  | bool (value : Bool)
  | whole (n : Int)
  | double (x : Float)
  deriving Inhabited

namespace Name

/-- The name that a value serves as. -/
def ofJson? : Json → Option Name
  | .str s => some (text s)
  | .null => some null
  | .bool b => some (bool b)
  | .int n => some (whole n)
  | .float x => some (double x)
  | .arr _ | .obj _ => none

/-- A name as a value. -/
def toJson : Name → Json
  | text s => .str s
  | null => .null
  | bool b => .bool b
  | whole n => .int n
  | double x => .float x

/-- What names are told apart by. -/
inductive Key where
  | text (s : String)
  | null
  | number (q : Json.Quantity)
  deriving DecidableEq

/-- What a name is told apart by. -/
def key : Name → Key
  | text s => .text s
  | null => .null
  | bool b => .number (.whole (if b then 1 else 0))
  | whole n => .number (.whole n)
  | double x => .number (.ofFloat x)

instance : BEq Name :=
  ⟨fun a b => a.key == b.key⟩

instance : EquivBEq Name where
  rfl := beq_self_eq_true (Name.key _)
  symm h := BEq.symm (α := Key) h
  trans h h' := BEq.trans (α := Key) h h'

/-- Names that are text are the same if they are equal. -/
@[simp] theorem text_beq_text (s t : String) : (text s == text t) = (s == t) := by
  show (Key.text s == Key.text t) = (s == t)
  simp [BEq.beq]

/-- A name as it stands in a message. -/
def plain (name : Name) : String :=
  name.toJson.spelled

/-- The order in which names are listed: text by code point, and before it numbers by their
value. -/
def le : Name → Name → Bool
  | text s, text t => decide (s ≤ t)
  | text _, _ => false
  | _, text _ => true
  | a, b => match a.key, b.key with
    | .number (.whole m), .number (.whole n) => decide (m ≤ n)
    | .number (.whole m), .number (.double y) => decide (Float.ofInt m ≤ y)
    | .number (.double x), .number (.whole n) => decide (x ≤ Float.ofInt n)
    | .number (.double x), .number (.double y) => decide (x ≤ y)
    | .number _, .null => false
    | _, _ => true

end Name

end Lox
