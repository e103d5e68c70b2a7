import Lox.Program.Parse
import Mathlib
/-!
# The grammar of programs

What a token list derives, said by the productions and not by a reader.
Every layer of expressions but the last two is a chain of the next
tighter one that associates to the left, so its production recurs on the
left. A derivation holds each token of its list in the place that the
token has there.
-/

namespace Lox.Program

/-- The layers of expressions, loosest first. -/
inductive Layer where
  | equality
  | comparison
  | term
  | factor
  | unary
  | primary

namespace Layer

/-- The layer that binds next tighter. -/
def next? : Layer → Option Layer
  | equality => some comparison
  | comparison => some term
  | term => some factor
  | factor => some unary
  | unary => some primary
  | primary => none

/-- The operators that join the operands of a layer. -/
def Joins : Layer → Kind → Prop
  | equality, k => k = .bangEqual ∨ k = .equalEqual
  | comparison, k => k = .greater ∨ k = .greaterEqual ∨ k = .less ∨ k = .lessEqual
  | term, k => k = .minus ∨ k = .plus
  | factor, k => k = .slash ∨ k = .star
  | unary, _ => False
  | primary, _ => False

end Layer

/-- **The grammar of expressions**: a token list is an expression of a
layer. -/
inductive Derives : Layer → List Token → Expr → Prop
  /-- A layer may be one operand of the next tighter layer. -/
  | operand {layer tighter : Layer} {ts : List Token} {e : Expr} :
      layer.next? = some tighter → Derives tighter ts e → Derives layer ts e
  /-- Or it goes on after an operator with one more operand. -/
  | binary {layer tighter : Layer} {ts us : List Token} {op : Token} {e f : Expr} :
      layer.next? = some tighter → layer.Joins op.kind → Derives layer ts e →
      Derives tighter us f → Derives layer (ts ++ op :: us) (.binary e op f)
  | unary {op : Token} {ts : List Token} {e : Expr} :
      op.kind = .bang ∨ op.kind = .minus → Derives .unary ts e →
      Derives .unary (op :: ts) (.unary op e)
  | kwTrue {t : Token} : t.kind = .kwTrue → Derives .primary [t] (.literal (.bool true))
  | kwFalse {t : Token} : t.kind = .kwFalse → Derives .primary [t] (.literal (.bool false))
  | kwNil {t : Token} : t.kind = .kwNil → Derives .primary [t] (.literal .nil)
  | number {t : Token} : t.kind = .number → Derives .primary [t] (.literal (.number t.number))
  | string {t : Token} : t.kind = .string → Derives .primary [t] (.literal (.string t.text))
  | name {t : Token} : t.kind = .identifier → Derives .primary [t] (.var t.lexeme)
  | grouping {opening closing : Token} {ts : List Token} {e : Expr} :
      opening.kind = .leftParen → closing.kind = .rightParen → Derives .equality ts e →
      Derives .primary (opening :: ts ++ [closing]) (.grouping e)

/-- **The grammar of declarations and statements.** -/
inductive DerivesStmt : List Token → Stmt → Prop
  /-- A name without initializer is declared as nil. -/
  | bare {word name semicolon : Token} :
      word.kind = .kwVar → name.kind = .identifier → semicolon.kind = .semicolon →
      DerivesStmt [word, name, semicolon] (.var name.lexeme (.literal .nil))
  | var {word name equal semicolon : Token} {ts : List Token} {e : Expr} :
      word.kind = .kwVar → name.kind = .identifier → equal.kind = .equal →
      Derives .equality ts e → semicolon.kind = .semicolon →
      DerivesStmt (word :: name :: equal :: ts ++ [semicolon]) (.var name.lexeme e)
  | print {word semicolon : Token} {ts : List Token} {e : Expr} :
      word.kind = .kwPrint → Derives .equality ts e → semicolon.kind = .semicolon →
      DerivesStmt (word :: ts ++ [semicolon]) (.print e)
  | expr {semicolon : Token} {ts : List Token} {e : Expr} :
      Derives .equality ts e → semicolon.kind = .semicolon →
      DerivesStmt (ts ++ [semicolon]) (.expr e)

/-- **The grammar of programs**: one declaration after another. -/
inductive DerivesProgram : List Token → List Stmt → Prop
  | done : DerivesProgram [] []
  | step {ts us : List Token} {s : Stmt} {ss : List Stmt} :
      DerivesStmt ts s → DerivesProgram us ss → DerivesProgram (ts ++ us) (s :: ss)

/-! ## What an expression starts with, and that it has an end -/

/-- An operator that joins operands ends no token list. -/
theorem Layer.Joins.ne_eof {layer : Layer} {k : Kind} (h : layer.Joins k) : k ≠ .eof := by
  rintro rfl
  cases layer <;> simp [Layer.Joins] at h

/-- An expression holds no end token. -/
theorem Derives.ne_eof {layer : Layer} {ts : List Token} {e : Expr} (h : Derives layer ts e) :
    ∀ t ∈ ts, t.kind ≠ .eof := by
  induction h with
  | operand _ _ ih => exact ih
  | binary _ hop _ _ ihl ihr =>
    intro t ht
    rcases List.mem_append.1 ht with ht | ht
    · exact ihl t ht
    · rcases List.mem_cons.1 ht with rfl | ht
      · exact hop.ne_eof
      · exact ihr t ht
  | unary hop _ ih =>
    intro t ht
    rcases List.mem_cons.1 ht with rfl | ht
    · rcases hop with h | h <;> simp [h]
    · exact ih t ht
  | kwTrue h | kwFalse h | kwNil h | number h | string h | name h => simp [h]
  | grouping ho hc _ ih =>
    intro t ht
    rcases List.mem_cons.1 ht with rfl | ht
    · simp [ho]
    · rcases List.mem_append.1 ht with ht | ht
      · exact ih t ht
      · obtain rfl := List.mem_singleton.1 ht
        simp [hc]

/-- Nor does a declaration. -/
theorem DerivesStmt.ne_eof {ts : List Token} {s : Stmt} (h : DerivesStmt ts s) :
    ∀ t ∈ ts, t.kind ≠ .eof := by
  cases h with
  | bare hw hn hs => simp [hw, hn, hs]
  | var hw hn he h hs =>
    have := h.ne_eof
    simp only [List.cons_append, List.forall_mem_cons, List.forall_mem_append]
    simp_all
  | print hw h hs =>
    have := h.ne_eof
    simp only [List.cons_append, List.forall_mem_cons, List.forall_mem_append]
    simp_all
  | expr h hs =>
    have := h.ne_eof
    simp only [List.forall_mem_append]
    simp_all

/-- Nor does a program. -/
theorem DerivesProgram.ne_eof {ts : List Token} {ss : List Stmt} (h : DerivesProgram ts ss) :
    ∀ t ∈ ts, t.kind ≠ .eof := by
  induction h with
  | done => simp
  | step hs _ ih =>
    rw [List.forall_mem_append]
    exact ⟨hs.ne_eof, ih⟩

/-- A primary starts with no unary operator. -/
theorem Derives.exists_primary {ts : List Token} {e : Expr} (h : Derives .primary ts e) :
    ∃ t rest, ts = t :: rest ∧ isUnary t.kind = false := by
  cases h with
  | operand h => simp [Layer.next?] at h
  | binary h => simp [Layer.next?] at h
  | kwTrue h | kwFalse h | kwNil h | number h | string h | name h =>
    exact ⟨_, _, rfl, by simp [h, isUnary]⟩
  | grouping h => exact ⟨_, _, rfl, by simp [h, isUnary]⟩

/-- An expression starts with a token that starts no other declaration. -/
theorem Derives.exists_cons {layer : Layer} {ts : List Token} {e : Expr} (h : Derives layer ts e) :
    ∃ t rest, ts = t :: rest ∧ t.kind ≠ .kwVar ∧ t.kind ≠ .kwPrint := by
  induction h with
  | operand _ _ ih => exact ih
  | binary _ _ _ _ ih =>
    obtain ⟨t, rest, rfl, ht⟩ := ih
    exact ⟨t, _, rfl, ht⟩
  | unary h => exact ⟨_, _, rfl, by rcases h with h | h <;> simp [h]⟩
  | kwTrue h | kwFalse h | kwNil h | number h | string h | name h => exact ⟨_, _, rfl, by simp [h]⟩
  | grouping h => exact ⟨_, _, rfl, by simp [h]⟩

/-- A declaration has a first token, and it is no end token. -/
theorem DerivesStmt.exists_cons {ts : List Token} {s : Stmt} (h : DerivesStmt ts s) :
    ∃ t rest, ts = t :: rest ∧ t.kind ≠ .eof := by
  obtain ⟨t, rest, rfl⟩ : ∃ t rest, ts = t :: rest := by
    cases h with
    | bare | var | print => exact ⟨_, _, rfl⟩
    | expr hder =>
      obtain ⟨t, rest, rfl, -⟩ := hder.exists_cons
      exact ⟨t, _, rfl⟩
  exact ⟨t, rest, rfl, h.ne_eof t List.mem_cons_self⟩

end Lox.Program
