import Lox.Proofs.Document.RoundTrip
/-!
# Normal documents

A document says more than the tree it holds: fields that nothing asks for,
fields in another order, and payloads in other types. Decoding drops all of
that, so encoding the tree again normalizes the document. What comes out is
normal (`normal_encode`), and a normal document is all that its tree says: it
comes out as it is (`normalize_eq_self_iff`).
-/

namespace Lox.Document

/-- **A normal document**: every object has the fields of its part in their
order and no others, and every payload has its own type. -/
inductive Normal : Json → Prop
  | absent : Normal .null
  | nil : Normal (.obj [("__type__", .str "Atom"), ("value", .obj [("kind", .str "Nil")])])
  | string {s : String} : Normal (.obj [("__type__", .str "Atom"),
      ("value", .obj [("kind", .str "String"), ("value", .str s)])])
  | number {x : Float} : Normal (.obj [("__type__", .str "Atom"),
      ("value", .obj [("kind", .str "Number"), ("value", .float x)])])
  | bool {b : Bool} : Normal (.obj [("__type__", .str "Atom"),
      ("value", .obj [("kind", .str "Bool"), ("value", .bool b)])])
  /-- The lexeme and the literal of a token may be any values, as may names. -/
  | token {kind : Kind} {lexeme literal : Json} {line : Int} :
      Normal (.obj [("__type__", .str "Token"), ("value", .obj [("type", .str kind.name),
        ("lexeme", lexeme), ("line", .int line), ("literal", literal)])])
  | binary {left operator right : Json} : Normal left → Normal operator → Normal right →
      Normal (.obj [("type", .str "Binary"), ("left", left), ("operator", operator),
        ("right", right)])
  | unary {operator operand : Json} : Normal operator → Normal operand →
      Normal (.obj [("type", .str "Unary"), ("operator", operator), ("operand", operand)])
  | grouping {inner : Json} : Normal inner →
      Normal (.obj [("type", .str "Grouping"), ("inner", inner)])
  | literal {value : Json} : Normal value →
      Normal (.obj [("type", .str "Literal"), ("value", value)])
  | var {name : Json} : Normal (.obj [("type", .str "Var"), ("name", name)])
  | exprStmt {expr : Json} : Normal expr →
      Normal (.obj [("type", .str "ExprStatement"), ("expr", expr)])
  | printStmt {expr : Json} : Normal expr →
      Normal (.obj [("type", .str "PrintStatement"), ("expr", expr)])
  | varStmt {name initializer : Json} : Normal initializer →
      Normal (.obj [("type", .str "VarDeclaration"), ("name", name),
        ("initializer", initializer)])

/-- A normal program: a list of normal documents. -/
inductive NormalProgram : Json → Prop
  | body {items : List Json} : (∀ item ∈ items, Normal item) →
      NormalProgram (.obj [("type", .str "Program"), ("body", .arr items)])

/-- **What a document comes to** when its tree is encoded again. -/
def normalize (value : Json) : Except DecodeError Json :=
  (decode value).map encode

/-- What a program comes to. -/
def normalizeProgram (value : Json) : Except DecodeError Json :=
  (decodeProgram value).map encodeProgram

/-! ## Trees -/

/-- **What is encoded is normal**, whatever the tree holds. -/
theorem normal_encode (node : Node) : Normal (encode node) := by
  induction node with
  | absent => exact .absent
  | atom value =>
    cases value with
    | nil => exact .nil
    | string => exact .string
    | number => exact .number
    | bool => exact .bool
  | token => exact .token
  | binary _ _ _ ihl iho ihr => exact .binary ihl iho ihr
  | unary _ _ iho ih => exact .unary iho ih
  | grouping _ ih => exact .grouping ih
  | literal _ ih => exact .literal ih
  | var => exact .var
  | exprStmt _ ih => exact .exprStmt ih
  | printStmt _ ih => exact .printStmt ih
  | varStmt _ _ ih => exact .varStmt ih

/-- **A normal document is the encoding of a tree.** -/
theorem Normal.exists_encode {value : Json} (h : Normal value) : ∃ node, encode node = value := by
  induction h with
  | absent => exact ⟨.absent, rfl⟩
  | nil => exact ⟨.atom .nil, rfl⟩
  | @string s => exact ⟨.atom (.string s), rfl⟩
  | @number x => exact ⟨.atom (.number x), rfl⟩
  | @bool b => exact ⟨.atom (.bool b), rfl⟩
  | @token kind lexeme literal line => exact ⟨.token ⟨kind, lexeme, line, literal⟩, rfl⟩
  | binary _ _ _ ihl iho ihr =>
    obtain ⟨⟨left, rfl⟩, ⟨operator, rfl⟩, ⟨right, rfl⟩⟩ := ihl, iho, ihr
    exact ⟨.binary left operator right, rfl⟩
  | unary _ _ iho ih =>
    obtain ⟨⟨operator, rfl⟩, ⟨operand, rfl⟩⟩ := iho, ih
    exact ⟨.unary operator operand, rfl⟩
  | grouping _ ih =>
    obtain ⟨inner, rfl⟩ := ih
    exact ⟨.grouping inner, rfl⟩
  | literal _ ih =>
    obtain ⟨value, rfl⟩ := ih
    exact ⟨.literal value, rfl⟩
  | @var name => exact ⟨.var name, rfl⟩
  | exprStmt _ ih =>
    obtain ⟨expr, rfl⟩ := ih
    exact ⟨.exprStmt expr, rfl⟩
  | printStmt _ ih =>
    obtain ⟨expr, rfl⟩ := ih
    exact ⟨.printStmt expr, rfl⟩
  | @varStmt name _ _ ih =>
    obtain ⟨initializer, rfl⟩ := ih
    exact ⟨.varStmt name initializer, rfl⟩

/-! ## What comes out -/

section

variable {α : Type} {read : Json → Except DecodeError α} {write : α → Json}

/-- **Where what is written is read again, writing what was read is
idempotent**, also on what cannot be read. -/
theorem rewrite_idempotent (h : ∀ x, read (write x) = .ok x) (value : Json) :
    ((read value).map write).bind (fun written => (read written).map write)
      = (read value).map write := by
  rcases hread : read value with error | x
  · rfl
  · calc (read (write x)).map write = (Except.ok x).map write := by rw [h]

/-- What comes out as it is, is what is written of something. -/
theorem rewrite_eq_self_iff (h : ∀ x, read (write x) = .ok x) {value : Json} :
    (read value).map write = .ok value ↔ ∃ x, write x = value := by
  constructor
  · intro hself
    rcases hread : read value with error | x <;> rw [hread] at hself
    · cases hself
    · exact ⟨x, Except.ok.inj hself⟩
  · rintro ⟨x, rfl⟩
    rw [h]
    rfl

end

variable {value : Json}

/-- **The documents that come out as they are, are the normal ones.** -/
theorem normalize_eq_self_iff : normalize value = .ok value ↔ Normal value := by
  rw [normalize, rewrite_eq_self_iff decode_encode]
  constructor
  · rintro ⟨node, rfl⟩
    exact normal_encode node
  · exact Normal.exists_encode

/-- What is encoded of a list of trees is a normal program. -/
theorem normalProgram_encodeProgram (body : List Node) : NormalProgram (encodeProgram body) :=
  .body (List.forall_mem_map.2 fun node _ => normal_encode node)

/-- **So are the programs.** -/
theorem normalizeProgram_eq_self_iff :
    normalizeProgram value = .ok value ↔ NormalProgram value := by
  rw [normalizeProgram, rewrite_eq_self_iff decodeProgram_encodeProgram]
  constructor
  · rintro ⟨body, rfl⟩
    exact normalProgram_encodeProgram body
  · rintro ⟨hitems⟩
    obtain ⟨body, rfl⟩ : _ ∈ Set.range (List.map encode) := by
      rw [Set.range_list_map]
      exact fun item hitem => (hitems item hitem).exists_encode
    exact ⟨body, rfl⟩

/-- **The decoder normalizes.** Whatever document a tree is decoded from, its
encoding is normal and is decoded as the same tree, so decoding and encoding
again changes nothing that came out before, and normal documents not at all.
The same goes for programs. -/
theorem decoder_normalizes (value : Json) :
    ((∀ node, decode value = .ok node →
        normalize value = .ok (encode node) ∧ Normal (encode node) ∧
          decode (encode node) = .ok node) ∧
      (normalize value).bind normalize = normalize value ∧
      (normalize value = .ok value ↔ Normal value)) ∧
    (∀ body, decodeProgram value = .ok body →
        normalizeProgram value = .ok (encodeProgram body) ∧ NormalProgram (encodeProgram body) ∧
          decodeProgram (encodeProgram body) = .ok body) ∧
      (normalizeProgram value).bind normalizeProgram = normalizeProgram value ∧
      (normalizeProgram value = .ok value ↔ NormalProgram value) := by
  refine ⟨⟨fun node hnode => ⟨congrArg (Except.map encode) hnode, normal_encode node,
      decode_encode node⟩, rewrite_idempotent decode_encode value, normalize_eq_self_iff⟩,
    fun body hbody => ⟨congrArg (Except.map encodeProgram) hbody,
      normalProgram_encodeProgram body, decodeProgram_encodeProgram body⟩,
    rewrite_idempotent decodeProgram_encodeProgram value, normalizeProgram_eq_self_iff⟩

/-- A declaration in place of an operator, a part that is absent, a field that
nothing asks for, and payloads of other types. -/
theorem untidy_normalizes :
    let untidy : Json := .obj [("left", .null), ("note", .int 7),
      ("right", .obj [("value", .obj [("value", .str ""), ("kind", .str "Bool")]),
        ("__type__", .str "Atom")]),
      ("operator", .obj [("initializer", .obj [("__type__", .str "Token"),
        ("value", .obj [("type", .str "PLUS"), ("lexeme", .null), ("line", .str " 1_2 ")])]),
        ("name", .arr []), ("type", .str "VarDeclaration")]),
      ("type", .str "Binary")]
    let node : Node := .binary .absent
      (.varStmt (.arr []) (.token ⟨.plus, .null, 12, .null⟩)) (.atom (.bool false))
    decode untidy = .ok node ∧ normalize untidy = .ok (encode node) ∧
      ¬ Normal untidy ∧ decode (encode node) = .ok node := by
  intro untidy node
  have hline : toInt (.str " 1_2 ") = .ok 12 := by cbv
  have hkind : decodeKind (.str "PLUS") = .ok .plus := by cbv
  have hnode : decode untidy = .ok node := by
    simp [untidy, node, decode, decodeAtom, decodeToken, fieldsOf, formOf, require,
      requirePart_cons_self, requirePart_cons_ne, Keyed.get?, hline, hkind, toBool, Except.map,
      Except.bind, bind, pure, Except.pure]
  obtain ⟨⟨hdecoded, -, hself⟩, -⟩ := decoder_normalizes untidy
  obtain ⟨hnormalize, -, hagain⟩ := hdecoded node hnode
  refine ⟨hnode, hnormalize, fun hnormal => ?_, hagain⟩
  have hsame : encode node = untidy := Except.ok.inj (hnormalize.symm.trans (hself.2 hnormal))
  simp [encode, node, untidy] at hsame

end Lox.Document
