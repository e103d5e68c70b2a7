import Lox.Document.Render
import Lox.Program.Fault
/-!
# Token lists of documents

A document may list tokens instead of a tree. Such a list is read like any other, since that takes
nothing but the kinds of its tokens; what the tokens hold shows only when the trees over them are
put in parentheses. A number must then be a number, and a string stands as the JSON text of
whatever it holds.
-/

namespace Lox

open Document

instance : Program.TokenLike TokenPart where
  kind := TokenPart.kind
  line := TokenPart.line
  shown t := t.lexeme.shown

namespace Document

/-- The literal of a number token as it is displayed: doubles like any number, whole numbers with
all their digits. -/
def renderNumber : Json → Except Misfit String
  | .float x => .ok (Atom.displayLayout.write x)
  | .int n => match Binary64.ofInt? n with
    | some _ => .ok (String.ofList (Json.intDigits n))
    | none => .error .outOfRange
  | .bool _ => .error .truthValue
  | _ => .error .notNumber

end Document

namespace Program

/-- A tree over tokens in parentheses. -/
def Tree.render : Tree TokenPart → Except Misfit Json
  | .binary left operator right => do
    .str <$> parenthesize [operator.lexeme, ← render left, ← render right]
  | .unary operator operand => do .str <$> parenthesize [operator.lexeme, ← render operand]
  | .grouping inner => do .str <$> parenthesize [.str "group", ← render inner]
  | .constant value => .ok (.str value.display)
  | .number t => .str <$> renderNumber t.literal
  | .string t => (t.literal.compact.mapError fun _ => .tooManyDigits).map .str
  | .name t => .ok t.lexeme

/-- A clause in parentheses. A missing name is empty, and a missing initializer is nil. -/
def Clause.render : Clause TokenPart → Except Misfit String
  | .expr tree => do parenthesize [.str ";", ← tree.render]
  | .print tree => do parenthesize [.str "print", ← tree.render]
  | .var name initializer => do
    let value ← match initializer with
      | some tree => tree.render
      | none => pure (.str Atom.nil.display)
    parenthesize [.str "var", (name.map TokenPart.lexeme).getD (.str ""), value]

end Program

end Lox
