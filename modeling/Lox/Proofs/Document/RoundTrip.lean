import Lox.Document.Decode
import Lox.Document.Encode
import Lox.Proofs.Json.RoundTrip
import Lox.Proofs.Program.Operators
/-!
# Programs survive as documents

Every tree is decoded as it was encoded, in whatever place its parts stand (`decode_encode`), and
different programs are different trees. The document of a program has different names in every
object and no whole numbers but those of its operator tokens. If these have few enough digits, it is
written as a text that is parsed as the document itself, and otherwise not written
(`program_survives_document`).
-/

namespace Lox.Document

/-! ## Decoding what was encoded -/

/-- The first of some fields is found under its name. -/
theorem requirePart_cons_self (name : String) (value : Json) (fields : Keyed String Json) :
    requirePart ((name, value) :: fields) name = .ok ⟨value, by simp; omega⟩ := by
  have hfind : ((name, value) :: fields).find? (·.1 == name) = some (name, value) :=
    List.find?_cons_of_pos (by simp)
  unfold requirePart
  split <;> simp_all

/-- It is passed over under another one. -/
theorem requirePart_cons_ne {key name : String} (h : key ≠ name) (value : Json)
    (fields : Keyed String Json) :
    requirePart ((key, value) :: fields) name
      = (requirePart fields name).map fun part => ⟨part.1, by have := part.2; simp; omega⟩ := by
  have hfind : ((key, value) :: fields).find? (·.1 == name) = fields.find? (·.1 == name) :=
    List.find?_cons_of_neg (by simpa using h)
  unfold requirePart
  split <;> split <;> simp_all [Except.map]

/-- An atom is read as it is written. -/
theorem decodeAtom_encodeAtom (a : Atom) : decodeAtom (encodeAtom a) = .ok a := by
  cases a <;> rfl

section

attribute [local simp] requirePart_cons_self requirePart_cons_ne require formOf Keyed.get?
  Except.map Except.bind bind pure Except.pure

/-- A token is read as it is written. -/
theorem decodeToken_encodeToken (part : TokenPart) :
    decodeToken (encodeToken part) = .ok part := by
  obtain ⟨kind, lexeme, line, literal⟩ := part
  have hkind : decodeKind (.str kind.name) = .ok kind := by rw [decodeKind, Kind.ofName?_name]
  simp [encodeToken, decodeToken, fieldsOf, hkind, toInt]

/-- **A tree is read as it is written**, also if its parts are out of
place. -/
theorem decode_encode (node : Node) : decode (encode node) = .ok node := by
  induction node with
  | absent => rw [encode, decode]
  | atom value =>
    rw [encode, decode]
    simp [decodeAtom_encodeAtom]
  | token part =>
    rw [encode, decode]
    simp [decodeToken_encodeToken]
  | binary left operator right ihl iho ihr =>
    rw [encode, decode]
    simp [ihl, iho, ihr]
  | unary operator operand iho ih =>
    rw [encode, decode]
    simp [iho, ih]
  | grouping inner ih | literal inner ih | exprStmt inner ih | printStmt inner ih =>
    rw [encode, decode]
    simp [ih]
  | var name =>
    rw [encode, decode]
    simp
  | varStmt name initializer ih =>
    rw [encode, decode]
    simp [ih]

/-- Trees are read one after another. -/
theorem mapM_decode_encode (body : List Node) : body.mapM (decode ∘ encode) = .ok body := by
  induction body with
  | nil => rfl
  | cons node body ih => simp [List.mapM_cons, decode_encode, ih]

/-- **A list of trees is read as it is written.** -/
theorem decodeProgram_encodeProgram (body : List Node) :
    decodeProgram (encodeProgram body) = .ok body := by
  simp [encodeProgram, decodeProgram, mapM_decode_encode]

end

end Lox.Document

namespace Lox

/-! ## Different programs are different trees -/

/-- Different tokens are different parts. -/
theorem Token.toPart_inj {s t : Token} : s.toPart = t.toPart ↔ s = t := by
  obtain ⟨kind, lexeme, line, literal⟩ := s
  obtain ⟨kind', lexeme', line', literal'⟩ := t
  simp [Token.toPart]

/-- Different expressions are different trees. -/
theorem Expr.toNode_inj {e f : Expr} : e.toNode = f.toNode ↔ e = f := by
  induction e generalizing f with
  | binary left operator right ihl ihr =>
    cases f <;> simp [toNode, Token.toNode, Token.toPart_inj, *]
  | unary operator operand ih => cases f <;> simp [toNode, Token.toNode, Token.toPart_inj, *]
  | grouping inner ih => cases f <;> simp [toNode, *]
  | literal value => cases f <;> simp [toNode]
  | var name => cases f <;> simp [toNode]

/-- **Different statements are different trees.** -/
theorem Stmt.toNode_injective : Function.Injective Stmt.toNode := by
  intro s t h
  cases s <;> cases t <;> simp_all [toNode, Expr.toNode_inj]

/-! ## The whole numbers and names of a document -/

/-- Whether the whole numbers that a token holds have few enough digits for
text. -/
def Token.fits (t : Token) : Bool :=
  (Json.int t.line).fits && t.literal.fits

namespace Document

open Json (Distinct DistinctItems fits fitsItems)

/-- The document of an expression holds no whole numbers but those of its
operators. -/
theorem fits_encode_expr (e : Expr) : (encode e.toNode).fits = e.operators.all Token.fits := by
  induction e with
  | binary left operator right ihl ihr =>
    simp [Expr.toNode, Token.toNode, Token.toPart, encode, encodeToken, Expr.operators, fits,
      Json.fitsFields, Token.fits, ihl, ihr]
  | unary operator operand ih =>
    simp [Expr.toNode, Token.toNode, Token.toPart, encode, encodeToken, Expr.operators, fits,
      Json.fitsFields, Token.fits, ih]
  | grouping inner ih => simp [Expr.toNode, encode, Expr.operators, fits, Json.fitsFields, ih]
  | literal value =>
    cases value <;>
      simp [Expr.toNode, encode, encodeAtom, Expr.operators, fits, Json.fitsFields]
  | var name => simp [Expr.toNode, encode, Expr.operators, fits, Json.fitsFields]

/-- Nor does that of a statement. -/
theorem fits_encode_stmt (s : Stmt) : (encode s.toNode).fits = s.operators.all Token.fits := by
  cases s <;> simp [Stmt.toNode, encode, Stmt.operators, fits, Json.fitsFields, fits_encode_expr]

/-- **The document of a program holds no whole numbers but those of its
operators.** -/
theorem fits_encodeProgram (ss : List Stmt) :
    (encodeProgram (ss.map Stmt.toNode)).fits = ss.all fun s => s.operators.all Token.fits := by
  have hitems : fitsItems (ss.map fun s => encode s.toNode)
      = ss.all fun s => s.operators.all Token.fits := by
    induction ss with
    | nil => rfl
    | cons s ss ih => rw [List.map_cons, fitsItems, fits_encode_stmt, ih, List.all_cons]
  simp [encodeProgram, fits, Json.fitsFields, hitems, Function.comp_def]

/-- The names in the document of an expression differ as far as they do
in the literals of its operators. -/
theorem distinct_encode_expr (e : Expr) :
    (encode e.toNode).Distinct ↔ ∀ t ∈ e.operators, t.literal.Distinct := by
  induction e with
  | binary left operator right ihl ihr =>
    simp [Expr.toNode, Token.toNode, Token.toPart, encode, encodeToken, Expr.operators, Distinct,
      Json.DistinctFields, Keyed.keys, ihl, ihr, or_imp, forall_and, and_left_comm]
  | unary operator operand ih =>
    simp [Expr.toNode, Token.toNode, Token.toPart, encode, encodeToken, Expr.operators, Distinct,
      Json.DistinctFields, Keyed.keys, ih]
  | grouping inner ih =>
    simp [Expr.toNode, encode, Expr.operators, Distinct, Json.DistinctFields, Keyed.keys, ih]
  | literal value =>
    cases value <;> simp [Expr.toNode, encode, encodeAtom, Expr.operators, Distinct,
      Json.DistinctFields, Keyed.keys]
  | var name =>
    simp [Expr.toNode, encode, Expr.operators, Distinct, Json.DistinctFields, Keyed.keys]

/-- The same goes for a statement. -/
theorem distinct_encode_stmt (s : Stmt) :
    (encode s.toNode).Distinct ↔ ∀ t ∈ s.operators, t.literal.Distinct := by
  cases s <;> simp [Stmt.toNode, encode, Stmt.operators, Distinct, Json.DistinctFields,
    Keyed.keys, distinct_encode_expr]

/-- **The names in the document of a program differ** as far as they do in
the literals of its operators. -/
theorem distinct_encodeProgram (ss : List Stmt) :
    (encodeProgram (ss.map Stmt.toNode)).Distinct
      ↔ ∀ s ∈ ss, ∀ t ∈ s.operators, t.literal.Distinct := by
  have hitems : DistinctItems (ss.map fun s => encode s.toNode)
      ↔ ∀ s ∈ ss, ∀ t ∈ s.operators, t.literal.Distinct := by
    induction ss with
    | nil => simp [DistinctItems]
    | cons s ss ih =>
      rw [List.map_cons, DistinctItems, distinct_encode_stmt, ih, List.forall_mem_cons]
  simp [encodeProgram, Distinct, Json.DistinctFields, Keyed.keys, hitems, Function.comp_def]

/-- A program is decoded from its document, and no other one is. -/
theorem decodeProgram_eq_iff {ss ss' : List Stmt} :
    decodeProgram (encodeProgram (ss.map Stmt.toNode)) = .ok (ss'.map Stmt.toNode) ↔ ss = ss' := by
  rw [decodeProgram_encodeProgram, Except.ok.injEq]
  exact (List.map_injective_iff.2 Stmt.toNode_injective).eq_iff

/-- **A program survives as a document and as its text.** Every program is
decoded from its document, and no other program is. If no line and no literal
of an operator holds a whole number of more than `Decimal.maxDigits` digits,
the document has a text, over several lines or on one, which is parsed as the
document itself where every object in the literals has different names. The
document of any other program is not written. -/
theorem program_survives_document (ss : List Stmt) :
    (∀ ss', decodeProgram (encodeProgram (ss.map Stmt.toNode)) = .ok (ss'.map Stmt.toNode)
      ↔ ss = ss')
    ∧ ∀ written ∈ [(encodeProgram (ss.map Stmt.toNode)).pretty,
          (encodeProgram (ss.map Stmt.toNode)).compact],
        if ss.all fun s => s.operators.all Token.fits then
          ∃ text, written = .ok text ∧
            ((∀ s ∈ ss, ∀ t ∈ s.operators, t.literal.Distinct) →
              Json.parse text = .ok (encodeProgram (ss.map Stmt.toNode)))
        else written = .error .tooManyDigits := by
  refine ⟨fun ss' => decodeProgram_eq_iff, fun written hwritten => ?_⟩
  rw [← fits_encodeProgram, ← distinct_encodeProgram]
  simp only [List.mem_cons, List.not_mem_nil, or_false] at hwritten
  split_ifs with hfits
  · rcases hwritten with rfl | rfl
    · exact ⟨_, (Json.pretty_eq _).trans (if_pos hfits),
        fun hd => Json.parse_pretty hd ((Json.pretty_eq _).trans (if_pos hfits))⟩
    · exact ⟨_, (Json.compact_eq _).trans (if_pos hfits),
        fun hd => Json.parse_compact hd ((Json.compact_eq _).trans (if_pos hfits))⟩
  · rcases hwritten with rfl | rfl
    · exact (Json.pretty_eq _).trans (if_neg hfits)
    · exact (Json.compact_eq _).trans (if_neg hfits)

/-- A program with a literal that is an object, a line below zero, and a
string that holds a quote and a line feed. -/
def nestedProgram : List Stmt :=
  [.var "a" (.binary (.unary ⟨.minus, "-", 1, .obj [("k", .int 2)]⟩ (.var "b"))
    ⟨.plus, "+", -3, .null⟩ (.grouping (.literal (.string "\"\n"))))]

/-- It survives as text. -/
theorem nestedProgram_survives :
    (∀ s ∈ nestedProgram, ∀ t ∈ s.operators, t.literal.Distinct)
    ∧ ∃ text, (encodeProgram (nestedProgram.map Stmt.toNode)).pretty = .ok text
      ∧ Json.parse text = .ok (encodeProgram (nestedProgram.map Stmt.toNode)) := by
  have hd : ∀ s ∈ nestedProgram, ∀ t ∈ s.operators, t.literal.Distinct := by
    simp [nestedProgram, Stmt.operators, Expr.operators, Distinct, Json.DistinctFields, Keyed.keys]
  have hfits : (nestedProgram.all fun s => s.operators.all Token.fits) = true := by decide
  have hsurvives := (program_survives_document nestedProgram).2 _ List.mem_cons_self
  rw [if_pos hfits] at hsurvives
  obtain ⟨text, hwritten, hparse⟩ := hsurvives
  exact ⟨hd, text, hwritten, hparse hd⟩

/-- A program whose operator stands in a line with a number of 4301 digits
has a document, but no text to be read back from. -/
theorem long_line_not_written :
    let program : List Stmt := [.print (.unary ⟨.minus, "-", 10 ^ 4300, .null⟩
      (.literal (.number 1)))]
    (encodeProgram (program.map Stmt.toNode)).pretty = .error .tooManyDigits
      ∧ (encodeProgram (program.map Stmt.toNode)).compact = .error .tooManyDigits := by
  have hline : Json.intFits (10 ^ 4300) = false := Json.intFits_ten_pow (le_refl 4300)
  generalize (10 : Int) ^ 4300 = line at hline ⊢
  intro program
  have hfits : ¬ (encodeProgram (program.map Stmt.toNode)).fits = true := by
    rw [fits_encodeProgram]
    simp [program, Stmt.operators, Expr.operators, Token.fits, fits, hline]
  exact ⟨(Json.pretty_eq _).trans (if_neg hfits), (Json.compact_eq _).trans (if_neg hfits)⟩

end Document

end Lox
