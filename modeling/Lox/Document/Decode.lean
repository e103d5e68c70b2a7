import Lox.Decimal.Numeral
import Lox.Document.Node
/-!
# Trees from documents

A document is read part by part, in the order in which the parts are listed in the type of trees,
and the first problem ends it. Only the shape that the fields give is checked: any part may stand
in any place, and `null` is a part that is absent. The payloads of atoms and the lines of tokens are
converted to text, numbers and truth values as far as they can be.
-/

namespace Lox.Document

/-- Why a document cannot be read. -/
inductive DecodeError where
  /-- A field is missing. -/
  | missing (field : String)
  /-- Something other than an object stands where fields are asked for. -/
  | noFields
  /-- A part is neither an object nor `null`. -/
  | notNode
  /-- The document as a whole is no program. -/
  | notProgram
  /-- No part of a tree has this type. -/
  | unknownNode (type : String)
  /-- No atom is of this kind. -/
  | unknownAtom (kind : String)
  /-- No token is of this kind. -/
  | unknownKind (shown : String)
  /-- A value is of a type that cannot be converted. -/
  | unsuitable
  /-- A value cannot be converted, although others of its type can. -/
  | malformed
  /-- A number is too large for a double, or infinite where a whole number is asked for. -/
  | outOfRange
  deriving DecidableEq, Repr

/-- The fields of a value that must be an object. -/
def fieldsOf : Json → Except DecodeError (Keyed String Json)
  | .obj fields => .ok fields
  | _ => .error .unsuitable

/-- The value of a field that must be there, with the proof that it is smaller than the object. -/
def requirePart (fields : Keyed String Json) (name : String) :
    Except DecodeError { value : Json // sizeOf value < 1 + sizeOf fields } :=
  match h : fields.find? (·.1 == name) with
  | some field => .ok ⟨field.2, by
      have := List.sizeOf_lt_of_mem (List.mem_of_find?_eq_some h)
      obtain ⟨key, value⟩ := field
      simp only [Prod.mk.sizeOf_spec] at this ⊢
      omega⟩
  | none => .error (.missing name)

/-- The value of a field that must be there. -/
def require (fields : Keyed String Json) (name : String) : Except DecodeError Json :=
  (requirePart fields name).map Subtype.val

/-- A value as a double: numbers, truth values, and numerals. -/
def toDouble : Json → Except DecodeError Float
  | .float x => .ok x
  | .int n => match Binary64.ofInt? n with
    | some x => .ok x
    | none => .error .outOfRange
  | .bool b => .ok (if b then 1 else 0)
  | .str s => match Decimal.readFloat? s with
    | some x => .ok x
    | none => .error .malformed
  | _ => .error .unsuitable

/-- A value as a whole number: a double loses its fraction. -/
def toInt : Json → Except DecodeError Int
  | .int n => .ok n
  | .float x => match Binary64.form x with
    | .nan => .error .malformed
    | .infinite _ => .error .outOfRange
    | .finite negative m q =>
      let whole : Int := (m * Nat.pow 2 q.toNat / Nat.pow 2 (-q).toNat : Nat)
      .ok (if negative then -whole else whole)
  | .bool b => .ok (if b then 1 else 0)
  | .str s => match Decimal.readInt? s with
    | some n => .ok n
    | none => .error .malformed
  | _ => .error .unsuitable

/-- A value as a truth value: what is zero or empty is false. -/
def toBool : Json → Bool
  | .null => false
  | .bool b => b
  | .int n => n != 0
  | .float x => x != 0
  | .str s => s != ""
  | .arr items => !items.isEmpty
  | .obj fields => !fields.isEmpty

/-- A value as text. -/
def toText (value : Json) : Except DecodeError String :=
  value.plain.mapError fun _ => .malformed

/-- The atom that an object describes. -/
def decodeAtom (value : Json) : Except DecodeError Atom := do
  let fields ← fieldsOf value
  match ← require fields "kind" with
  | .str "Nil" => return .nil
  | .str "String" => return .string (← toText (← require fields "value"))
  | .str "Number" => return .number (← toDouble (← require fields "value"))
  | .str "Bool" => return .bool (toBool (← require fields "value"))
  | kind => throw (.unknownAtom (← toText kind))

/-- The kind of token that a value names. -/
def decodeKind : Json → Except DecodeError Kind
  | .str name => match Kind.ofName? name with
    | some kind => .ok kind
    | none => .error (.unknownKind (Text.quoted name))
  | .arr _ | .obj _ => .error .unsuitable
  | value => .error (.unknownKind value.shown)

/-- The token that an object describes. -/
def decodeToken (value : Json) : Except DecodeError TokenPart := do
  let fields ← fieldsOf value
  let kind ← decodeKind (← require fields "type")
  let lexeme ← require fields "lexeme"
  let line ← toInt (← require fields "line")
  return ⟨kind, lexeme, line, (Keyed.get? "literal" fields).getD .null⟩

/-- What the fields of an object make of it: an atom, a token, or another part with the fields that
hold its own parts. -/
inductive Form where
  | atom
  | token
  | binary
  | unary
  | grouping
  | literal
  | var
  | exprStmt
  | printStmt
  | varStmt
  deriving DecidableEq, Repr

/-- The form of an object, from its `__type__` and else from its `type`. -/
def formOf (fields : Keyed String Json) : Except DecodeError Form :=
  match Keyed.get? "__type__" fields with
  | some (.str "Atom") => .ok .atom
  | some (.str "Token") => .ok .token
  | _ => match Keyed.get? "type" fields with
    | some (.str "ExprStatement") => .ok .exprStmt
    | some (.str "PrintStatement") => .ok .printStmt
    | some (.str "VarDeclaration") => .ok .varStmt
    | some (.str "Binary") => .ok .binary
    | some (.str "Unary") => .ok .unary
    | some (.str "Grouping") => .ok .grouping
    | some (.str "Literal") => .ok .literal
    | some (.str "Var") => .ok .var
    | type => do throw (.unknownNode (← toText (type.getD .null)))

/-- The tree that a document describes. -/
def decode : Json → Except DecodeError Node
  | .null => .ok .absent
  | .obj fields => do
    match ← formOf fields with
    | .atom => return .atom (← decodeAtom (← require fields "value"))
    | .token => return .token (← decodeToken (← require fields "value"))
    | .exprStmt =>
      let ⟨expr, _⟩ ← requirePart fields "expr"
      return .exprStmt (← decode expr)
    | .printStmt =>
      let ⟨expr, _⟩ ← requirePart fields "expr"
      return .printStmt (← decode expr)
    | .varStmt =>
      let name ← require fields "name"
      let ⟨initializer, _⟩ ← requirePart fields "initializer"
      return .varStmt name (← decode initializer)
    | .binary =>
      let ⟨left, _⟩ ← requirePart fields "left"
      let left ← decode left
      let ⟨operator, _⟩ ← requirePart fields "operator"
      let operator ← decode operator
      let ⟨right, _⟩ ← requirePart fields "right"
      return .binary left operator (← decode right)
    | .unary =>
      let ⟨operator, _⟩ ← requirePart fields "operator"
      let operator ← decode operator
      let ⟨operand, _⟩ ← requirePart fields "operand"
      return .unary operator (← decode operand)
    | .grouping =>
      let ⟨inner, _⟩ ← requirePart fields "inner"
      return .grouping (← decode inner)
    | .literal =>
      let ⟨value, _⟩ ← requirePart fields "value"
      return .literal (← decode value)
    | .var => return .var (← require fields "name")
  | _ => .error .notNode
termination_by value => sizeOf value

/-- The statements of a document that must be a program. A body that is empty text or an empty
object counts as an empty list. -/
def decodeProgram : Json → Except DecodeError (List Node)
  | .obj fields =>
    match Keyed.get? "type" fields with
    | some (.str "Program") => do
      match ← require fields "body" with
      | .arr items => items.mapM decode
      | .obj [] | .str "" => return []
      | .obj _ | .str _ => throw .notNode
      | _ => throw .unsuitable
    | _ => .error .notProgram
  | _ => .error .noFields

end Lox.Document
