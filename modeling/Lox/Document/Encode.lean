import Lox.Document.Node
/-!
# Documents from trees

Every node is written as an object: atoms and tokens under `__type__`, the other parts under their
`type`, with one field for each part.
-/

namespace Lox.Document

/-- An atom as an object. -/
def encodeAtom : Atom → Json
  | .nil => .obj [("kind", .str "Nil")]
  | .string s => .obj [("kind", .str "String"), ("value", .str s)]
  | .number x => .obj [("kind", .str "Number"), ("value", .float x)]
  | .bool b => .obj [("kind", .str "Bool"), ("value", .bool b)]

/-- A token as an object. -/
def encodeToken (part : TokenPart) : Json :=
  .obj [("type", .str part.kind.name), ("lexeme", part.lexeme), ("line", .int part.line),
    ("literal", part.literal)]

/-- A tree as a document. -/
def encode : Node → Json
  | .absent => .null
  | .atom value => .obj [("__type__", .str "Atom"), ("value", encodeAtom value)]
  | .token part => .obj [("__type__", .str "Token"), ("value", encodeToken part)]
  | .exprStmt expr => .obj [("type", .str "ExprStatement"), ("expr", encode expr)]
  | .printStmt expr => .obj [("type", .str "PrintStatement"), ("expr", encode expr)]
  | .varStmt name initializer =>
    .obj [("type", .str "VarDeclaration"), ("name", name), ("initializer", encode initializer)]
  | .binary left operator right =>
    .obj [("type", .str "Binary"), ("left", encode left), ("operator", encode operator),
      ("right", encode right)]
  | .unary operator operand =>
    .obj [("type", .str "Unary"), ("operator", encode operator), ("operand", encode operand)]
  | .grouping inner => .obj [("type", .str "Grouping"), ("inner", encode inner)]
  | .literal value => .obj [("type", .str "Literal"), ("value", encode value)]
  | .var name => .obj [("type", .str "Var"), ("name", name)]

/-- A list of statements as a document. -/
def encodeProgram (body : List Node) : Json :=
  .obj [("type", .str "Program"), ("body", .arr (body.map encode))]

end Lox.Document
