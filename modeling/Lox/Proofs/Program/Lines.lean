import Lox.Proofs.Program.Exact
/-!
# Lines of a program

The line of a token has no part in what its list derives. Wherever the
tokens of a program are moved to, they derive the program with its operators
moved there (`DerivesProgram.mapLine`), and two lists of tokens, one after
the other, derive both programs (`DerivesProgram.append`).
-/

namespace Lox

/-- A token on another line. -/
def Token.mapLine (f : Int → Int) (t : Token) : Token :=
  { t with line := f t.line }

/-- An expression with its operators on other lines. -/
def Expr.mapLine (f : Int → Int) : Expr → Expr
  | binary left operator right => binary (left.mapLine f) (operator.mapLine f) (right.mapLine f)
  | unary operator operand => unary (operator.mapLine f) (operand.mapLine f)
  | grouping inner => grouping (inner.mapLine f)
  | literal value => literal value
  | var name => var name

/-- A statement with its operators on other lines. -/
def Stmt.mapLine (f : Int → Int) : Stmt → Stmt
  | expr e => expr (e.mapLine f)
  | print e => print (e.mapLine f)
  | var name e => var name (e.mapLine f)

@[simp]
theorem Token.mapLine_id (t : Token) : t.mapLine id = t :=
  rfl

@[simp]
theorem Expr.mapLine_id (e : Expr) : e.mapLine id = e := by
  induction e with
  | binary left operator right ihl ihr => rw [mapLine, ihl, ihr, Token.mapLine_id]
  | unary operator operand ih => rw [mapLine, ih, Token.mapLine_id]
  | grouping inner ih => rw [mapLine, ih]
  | literal | var => rfl

@[simp]
theorem Stmt.mapLine_id : mapLine id = id := by
  funext s
  cases s <;> simp [mapLine]

@[simp]
theorem Expr.mapLine_mapLine (f g : Int → Int) (e : Expr) :
    (e.mapLine f).mapLine g = e.mapLine (g ∘ f) := by
  induction e with
  | binary left operator right ihl ihr => simp [mapLine, Token.mapLine, ihl, ihr]
  | unary operator operand ih => simp [mapLine, Token.mapLine, ih]
  | grouping inner ih => simp [mapLine, ih]
  | literal | var => rfl

@[simp]
theorem Stmt.mapLine_mapLine (f g : Int → Int) (s : Stmt) :
    (s.mapLine f).mapLine g = s.mapLine (g ∘ f) := by
  cases s <;> simp [mapLine]

namespace Program

variable (f : Int → Int)

/-- An expression is derived wherever its tokens stand. -/
theorem Derives.mapLine {layer : Layer} {ts : List Token} {e : Expr} (h : Derives layer ts e) :
    Derives layer (ts.map (Token.mapLine f)) (e.mapLine f) := by
  induction h with
  | operand hnext _ ih => exact .operand hnext ih
  | binary hnext hop _ _ ihl ihr =>
    rw [List.map_append, List.map_cons]
    exact .binary hnext hop ihl ihr
  | unary hop _ ih => exact .unary hop ih
  | kwTrue h => exact .kwTrue h
  | kwFalse h => exact .kwFalse h
  | kwNil h => exact .kwNil h
  | @number t h => exact @Derives.number (t.mapLine f) h
  | @string t h => exact @Derives.string (t.mapLine f) h
  | @name t h => exact @Derives.name (t.mapLine f) h
  | grouping hopen hclose _ ih =>
    rw [List.map_append, List.map_cons]
    exact .grouping hopen hclose ih

/-- So is a declaration. -/
theorem DerivesStmt.mapLine {ts : List Token} {s : Stmt} (h : DerivesStmt ts s) :
    DerivesStmt (ts.map (Token.mapLine f)) (s.mapLine f) := by
  cases h with
  | @bare word name semicolon hword hname hsemi =>
    exact @DerivesStmt.bare (word.mapLine f) (name.mapLine f) (semicolon.mapLine f) hword hname
      hsemi
  | @var word name equal semicolon ts e hword hname hequal hder hsemi =>
    simp only [List.map_append, List.map_cons, List.map_nil]
    exact @DerivesStmt.var (word.mapLine f) (name.mapLine f) (equal.mapLine f) (semicolon.mapLine f)
      _ _ hword hname hequal (hder.mapLine f) hsemi
  | @print word semicolon ts e hword hder hsemi =>
    simp only [List.map_append, List.map_cons, List.map_nil]
    exact @DerivesStmt.print (word.mapLine f) (semicolon.mapLine f) _ _ hword (hder.mapLine f) hsemi
  | @expr semicolon ts e hder hsemi =>
    simp only [List.map_append, List.map_cons, List.map_nil]
    exact @DerivesStmt.expr (semicolon.mapLine f) _ _ (hder.mapLine f) hsemi

/-- **A program is derived wherever its tokens stand**, with its operators
where they stand. -/
theorem DerivesProgram.mapLine {ts : List Token} {ss : List Stmt} (h : DerivesProgram ts ss) :
    DerivesProgram (ts.map (Token.mapLine f)) (ss.map (Stmt.mapLine f)) := by
  induction h with
  | done => exact .done
  | step hs _ ih =>
    rw [List.map_append]
    exact .step (hs.mapLine f) ih

/-- **Two programs, one after the other, are a program.** -/
theorem DerivesProgram.append {ts us : List Token} {ss ss' : List Stmt}
    (h : DerivesProgram ts ss) (h' : DerivesProgram us ss') :
    DerivesProgram (ts ++ us) (ss ++ ss') := by
  induction h with
  | done => exact h'
  | step hs _ ih =>
    rw [List.append_assoc]
    exact .step hs ih

end Program

end Lox
