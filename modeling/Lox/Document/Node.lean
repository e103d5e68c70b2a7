import Lox.Json.Same
import Lox.Program.Basic
/-!
# Trees as documents hold them

A document may hold any tree of parts: nothing says that a statement stands where a statement
belongs, that an operator is a token, that a literal holds an atom, or that a name is text. `Node`
is such a tree. Programs are the trees in which every part is in place: `Expr.toNode` and
`Stmt.toNode` embed them, one for one.
-/

namespace Lox.Document

/-- A token as a document holds it: its lexeme and its literal may be any values. -/
structure TokenPart where
  kind : Kind
  lexeme : Json
  line : Int
  literal : Json := .null

namespace TokenPart

/-- A token in a listing: its kind, its lexeme, its literal if it has one, and its line. -/
def describe (t : TokenPart) : String :=
  Token.describeParts t.kind t.lexeme t.line t.literal

/-- Whether two tokens are the same. -/
def same (s t : TokenPart) : Bool :=
  s.kind == t.kind && s.lexeme.same t.lexeme && s.line == t.line && s.literal.same t.literal

end TokenPart

/-- A tree of parts, each of which may be out of place. -/
inductive Node where
  | absent
  | atom (value : Atom)
  | token (part : TokenPart)
  | binary (left operator right : Node)
  | unary (operator operand : Node)
  | grouping (inner : Node)
  | literal (value : Node)
  | var (name : Json)
  | exprStmt (expr : Node)
  | printStmt (expr : Node)
  | varStmt (name : Json) (initializer : Node)
  deriving Inhabited

/-- What kind of part a node is. -/
inductive PartKind where
  | absent
  | string
  | number
  | bool
  | nil
  | token
  | binary
  | unary
  | grouping
  | literal
  | var
  | exprStmt
  | printStmt
  | varStmt
  deriving DecidableEq, Repr

/-- The name of a kind of part. -/
def PartKind.name : PartKind → String
  | absent => "NoneType"
  | string => "String"
  | number => "Number"
  | bool => "Bool"
  | nil => "Nil"
  | token => "Token"
  | binary => "Binary"
  | unary => "Unary"
  | grouping => "Grouping"
  | literal => "Literal"
  | var => "Var"
  | exprStmt => "ExprStatement"
  | printStmt => "PrintStatement"
  | varStmt => "VarDeclaration"

namespace Node

/-- The kind of part that a node is. -/
def partKind : Node → PartKind
  | absent => .absent
  | atom (.string _) => .string
  | atom (.number _) => .number
  | atom (.bool _) => .bool
  | atom .nil => .nil
  | token _ => .token
  | binary .. => .binary
  | unary .. => .unary
  | grouping _ => .grouping
  | literal _ => .literal
  | var _ => .var
  | exprStmt _ => .exprStmt
  | printStmt _ => .printStmt
  | varStmt .. => .varStmt

/-- A node with all of its parts by name. -/
def describe : Node → String
  | absent => "None"
  | atom value => value.debug
  | token part => part.describe
  | binary left operator right =>
    "Binary(left=" ++ left.describe ++ ", operator=" ++ operator.describe ++ ", right="
      ++ right.describe ++ ")"
  | unary operator operand =>
    "Unary(operator=" ++ operator.describe ++ ", operand=" ++ operand.describe ++ ")"
  | grouping inner => "Grouping(inner=" ++ inner.describe ++ ")"
  | literal value => "Literal(value=" ++ value.describe ++ ")"
  | var name => "Var(name=" ++ name.shown ++ ")"
  | exprStmt expr => "ExprStatement(expr=" ++ expr.describe ++ ")"
  | printStmt expr => "PrintStatement(expr=" ++ expr.describe ++ ")"
  | varStmt name initializer =>
    "VarDeclaration(name=" ++ name.shown ++ ", initializer=" ++ initializer.describe ++ ")"

/-- Whether two parts are the same: of one kind, with the same values and the same parts. Of two
numbers that are not a number neither is the same as the other. -/
def same : Node → Node → Bool
  | absent, absent => true
  | atom a, atom b => a.equal b
  | token s, token t => s.same t
  | binary left operator right, binary left' operator' right' =>
    same left left' && same operator operator' && same right right'
  | unary operator operand, unary operator' operand' =>
    same operator operator' && same operand operand'
  | grouping inner, grouping inner' => same inner inner'
  | literal value, literal value' => same value value'
  | var name, var name' => name.same name'
  | exprStmt expr, exprStmt expr' => same expr expr'
  | printStmt expr, printStmt expr' => same expr expr'
  | varStmt name initializer, varStmt name' initializer' =>
    name.same name' && same initializer initializer'
  | _, _ => false

end Node

end Lox.Document

namespace Lox

open Document

/-- A token as a document holds it. -/
def Token.toPart (t : Token) : TokenPart :=
  ⟨t.kind, .str t.lexeme, t.line, t.literal⟩

/-- A token as a part of a tree. -/
def Token.toNode (t : Token) : Node :=
  .token t.toPart

/-- An expression as a tree of parts. -/
def Expr.toNode : Expr → Node
  | binary left operator right => .binary left.toNode operator.toNode right.toNode
  | unary operator operand => .unary operator.toNode operand.toNode
  | grouping inner => .grouping inner.toNode
  | literal value => .literal (.atom value)
  | var name => .var (.str name)

/-- A statement as a tree of parts. -/
def Stmt.toNode : Stmt → Node
  | expr e => .exprStmt e.toNode
  | print e => .printStmt e.toNode
  | var name initializer => .varStmt (.str name) initializer.toNode

end Lox
