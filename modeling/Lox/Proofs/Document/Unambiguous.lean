import Lox.Proofs.Document.Render
import Lox.Proofs.Json.Number
import Lox.Proofs.Json.Quote
import Lox.Proofs.Program.Alike
import Lox.Proofs.Text.Line
/-!
# Trees in parentheses are unambiguous

The text of a tree in parentheses determines the tree, and where it ends in a
longer text (`Expr.Legible.text_append_inj`). The first character tells
parentheses, strings, numbers and words apart; strings and numbers can be read
again, words are names unless they are keywords, and in parentheses the operands
are counted. All that does not show are the lines of operators. That needs the
operators and names to be those of a source and the numbers to be finite
(`Expr.Legible`): infinity is displayed like a name. So programs that were read
from sources are determined by their texts (`Frontend.map_renderStmt_eq_iff`).
-/

namespace Lox

open Document Program Source
open Json (signText EndsNumber)

/-! ## What a source has in a tree -/

/-- Whether a token is a sign, as sources have them. -/
def Token.IsSign (t : Token) : Prop :=
  (t.lexeme, t.kind) ∈ Kind.signs ∧ t.literal = .null

/-- **Names as sources have them**: letters and what may stand in a word. -/
structure IsName (name : String) : Prop where
  exists_cons : ∃ c w, name.toList = c :: w ∧ Unicode.isLetter c = true ∧
    ∀ d ∈ w, Unicode.isWordChar d = true
  notMem_keywords : ∀ kind, (name, kind) ∉ Kind.keywords

/-- There is no space in a name. -/
theorem IsName.space_notMem {name : String} (h : IsName name) : ' ' ∉ name.toList := by
  obtain ⟨c, w, htext, hc, hw⟩ := h.exists_cons
  rw [htext]
  intro hmem
  rcases List.mem_cons.1 hmem with rfl | hmem
  · exact absurd hc (by decide)
  · exact absurd (hw _ hmem) (by decide)

/-- **An expression that can be told from its text**: operators are signs, names
are names of a source, and numbers are finite. -/
def Expr.Legible : Expr → Prop
  | binary left operator right => left.Legible ∧ operator.IsSign ∧ right.Legible
  | unary operator operand => operator.IsSign ∧ operand.Legible
  | grouping inner => inner.Legible
  | literal (.number x) => x.isFinite = true
  | literal _ => True
  | var name => IsName name

/-- The numbers in an expression. -/
def Expr.numbers : Expr → List Float
  | binary left _ right => left.numbers ++ right.numbers
  | unary _ operand => operand.numbers
  | grouping inner => inner.numbers
  | literal (.number x) => [x]
  | literal _ | var _ => []

/-- A sign is determined by its text, apart from its line. -/
theorem Token.IsSign.mapLine_eq {t u : Token} (h : t.IsSign) (h' : u.IsSign)
    (heq : t.lexeme = u.lexeme) : t.mapLine anyLine = u.mapLine anyLine := by
  have hunique : ∀ p ∈ Kind.signs, ∀ q ∈ Kind.signs, p.1 = q.1 → p.2 = q.2 := by decide
  have hkind := hunique _ h.1 _ h'.1 heq
  rw [Token.mapLine, Token.mapLine, h.2, h'.2, heq, show t.kind = u.kind from hkind]
  rfl

/-- There is no space in a sign. -/
theorem Token.IsSign.space_notMem {t : Token} (h : t.IsSign) : ' ' ∉ t.lexeme.toList := by
  have hall : ∀ p ∈ Kind.signs, ' ' ∉ p.1.toList := by decide
  exact hall _ h.1

/-- A sign is not the word that stands before a grouping. -/
theorem Token.IsSign.ne_group {t : Token} (h : t.IsSign) : t.lexeme.toList ≠ "group".toList := by
  have hall : ∀ p ∈ Kind.signs, p.1.toList ≠ "group".toList := by decide
  exact hall _ h.1

/-! ## What a text starts with -/

/-- What the first character of an expression's text tells. -/
inductive Lead where
  | paren
  | quote
  | number
  | word
  deriving DecidableEq

/-- What a character tells. -/
def Lead.ofChar (c : Char) : Lead :=
  if c = '(' then paren
  else if c = '"' then quote
  else if c = '-' ∨ c.isDigit = true then number
  else word

/-- What the text of an expression starts with. -/
def Expr.lead : Expr → Lead
  | binary .. | unary .. | grouping _ => .paren
  | literal (.string _) => .quote
  | literal (.number _) => .number
  | literal (.bool _) | literal .nil | var _ => .word

/-- The text of an expression in parentheses. -/
def Expr.text (e : Expr) : List Char :=
  e.render.toList

namespace Expr

theorem text_binary (left right : Expr) (operator : Token) (rest : List Char) :
    (binary left operator right).text ++ rest = '(' :: (operator.lexeme.toList
      ++ ' ' :: (left.text ++ ' ' :: (right.text ++ ')' :: rest))) := by
  simp [text, render, inParens]

theorem text_unary (operator : Token) (operand : Expr) (rest : List Char) :
    (unary operator operand).text ++ rest
      = '(' :: (operator.lexeme.toList ++ ' ' :: (operand.text ++ ')' :: rest)) := by
  simp [text, render, inParens]

theorem text_grouping (inner : Expr) (rest : List Char) :
    (grouping inner).text ++ rest
      = '(' :: ("group".toList ++ ' ' :: (inner.text ++ ')' :: rest)) := by
  simp [text, render, inParens]

theorem text_string (s : String) : (literal (.string s)).text = Json.quote s.toList :=
  String.toList_ofList

end Expr

/-- **A finite number is displayed as a numeral** of its value. -/
theorem exists_numeral_display {x : Float} (h : x.isFinite = true) :
    ∃ negative, ∃ n : Decimal.Numeral,
      (Atom.displayLayout.write x).toList = signText negative ++ n.text Atom.displayLayout ∧
        Binary64.signed negative n.decimal.toFloat = x := by
  obtain ⟨m, q, hform⟩ := Binary64.exists_form_of_isFinite h
  obtain ⟨n, htext, hvalue, -⟩ := Json.exists_numeral_write Atom.displayLayout hform
  exact ⟨_, n, htext, hvalue⟩

/-- **The first character of a text tells its kind.** -/
theorem Expr.Legible.exists_cons {e : Expr} (h : e.Legible) :
    ∃ c w, e.text = c :: w ∧ Lead.ofChar c = e.lead := by
  cases e with
  | binary left operator right =>
    exact ⟨'(', _, by simpa using text_binary left right operator [], rfl⟩
  | unary operator operand => exact ⟨'(', _, by simpa using text_unary operator operand [], rfl⟩
  | grouping inner => exact ⟨'(', _, by simpa using text_grouping inner [], rfl⟩
  | literal value =>
    cases value with
    | string s => exact ⟨'"', _, String.toList_ofList, rfl⟩
    | number x =>
      obtain ⟨negative, n, htext, -⟩ := exists_numeral_display h
      have htext : (literal (.number x)).text = _ := htext
      rw [htext]
      cases negative with
      | true => exact ⟨'-', _, rfl, rfl⟩
      | false =>
        obtain ⟨c, w, hn, hc⟩ := Json.exists_cons_text Atom.displayLayout n
        have hne : ∀ d : Char, d.isDigit = false → c ≠ d := by
          intro d hd
          exact ne_of_apply_ne Char.isDigit (by rw [hc, hd]; decide)
        refine ⟨c, w, hn, ?_⟩
        rw [Lead.ofChar, if_neg (hne '(' rfl), if_neg (hne '"' rfl), if_pos (.inr hc)]
        rfl
    | bool b => cases b <;> exact ⟨_, _, rfl, rfl⟩
    | nil => exact ⟨'n', _, rfl, rfl⟩
  | var name =>
    obtain ⟨c, w, hname, hc, -⟩ := IsName.exists_cons h
    have hne : ∀ d : Char, Unicode.isLetter d = false → c ≠ d := by
      intro d hd
      exact ne_of_apply_ne Unicode.isLetter (by rw [hc, hd]; decide)
    have hsign : ¬ (c = '-' ∨ c.isDigit = true) := by
      rw [Piece.isDigit_of_isLetter hc]
      simpa using hne '-' (by decide)
    refine ⟨c, w, hname, ?_⟩
    rw [Lead.ofChar, if_neg (hne '(' (by decide)), if_neg (hne '"' (by decide)), if_neg hsign]
    rfl

/-! ## Where a text ends -/

/-- Text after which a part of a tree does not go on. -/
def EndsPart (rest : List Char) : Prop :=
  ∀ c ∈ rest.head?, c = ' ' ∨ c = ')'

theorem endsPart_space (rest : List Char) : EndsPart (' ' :: rest) := by
  simp [EndsPart]

theorem endsPart_paren (rest : List Char) : EndsPart (')' :: rest) := by
  simp [EndsPart]

/-- It ends a number. -/
theorem EndsPart.endsNumber {rest : List Char} (h : EndsPart rest) : EndsNumber rest := by
  intro c hc
  rcases h c hc with rfl | rfl <;> decide

/-- It ends a word. -/
theorem EndsPart.isWordChar {rest : List Char} (h : EndsPart rest) :
    ∀ c ∈ rest.head?, Unicode.isWordChar c = false := by
  intro c hc
  rcases h c hc with rfl | rfl <;> decide

/-- What a word is: one of three keywords, or a name. -/
theorem Expr.Legible.word_cases {e : Expr} (h : e.Legible) (hlead : e.lead = .word) :
    (e ∈ [literal (.bool true), literal (.bool false), literal .nil] ∧
        ∃ kind, (e.render, kind) ∈ Kind.keywords) ∨
      ∃ name, e = var name ∧ IsName name := by
  cases e with
  | binary | unary | grouping => cases hlead
  | literal value =>
    cases value with
    | string | number => cases hlead
    | bool b =>
      cases b with
      | true => exact .inl ⟨by simp, .kwTrue, by decide⟩
      | false => exact .inl ⟨by simp, .kwFalse, by decide⟩
    | nil => exact .inl ⟨by simp, .kwNil, by decide⟩
  | var name => exact .inr ⟨name, rfl, h⟩

/-- Words are made of word characters. -/
theorem Expr.Legible.isWordChar {e : Expr} (h : e.Legible) (hlead : e.lead = .word) :
    ∀ c ∈ e.text, Unicode.isWordChar c = true := by
  rcases h.word_cases hlead with ⟨-, kind, hkind⟩ | ⟨name, rfl, hname⟩
  · exact fun c hc =>
      Unicode.isWordChar_of_isLetter ((isLetter_of_mem_keywords _ hkind).2 c hc)
  · obtain ⟨c, w, htext, hc, hw⟩ := hname.exists_cons
    rw [show (var name).text = c :: w from htext]
    exact List.forall_mem_cons.2 ⟨Unicode.isWordChar_of_isLetter hc, hw⟩

/-- **A word tells the expression**: no name is a keyword. -/
theorem Expr.Legible.eq_of_word {e e' : Expr} (h : e.Legible) (h' : e'.Legible)
    (hlead : e.lead = .word) (hlead' : e'.lead = .word) (heq : e.render = e'.render) : e = e' := by
  rcases h.word_cases hlead with ⟨he, kind, hkind⟩ | ⟨name, rfl, hname⟩ <;>
    rcases h'.word_cases hlead' with ⟨he', kind', hkind'⟩ | ⟨name', rfl, hname'⟩
  · simp only [List.mem_cons, List.not_mem_nil, or_false] at he he'
    rcases he with rfl | rfl | rfl <;> rcases he' with rfl | rfl | rfl <;>
      first | rfl | exact absurd heq (by decide)
  · rw [heq] at hkind
    exact absurd hkind (hname'.notMem_keywords kind)
  · rw [← heq] at hkind'
    exact absurd hkind' (hname.notMem_keywords kind')
  · exact congrArg var heq

/-- A word is determined by a text that it starts. -/
theorem Expr.Legible.word_append_inj {e e' : Expr} (h : e.Legible) (h' : e'.Legible)
    (hlead : e.lead = .word) (hlead' : e'.lead = .word) {rest rest' : List Char}
    (hrest : EndsPart rest) (hrest' : EndsPart rest') (heq : e.text ++ rest = e'.text ++ rest') :
    e = e' ∧ rest = rest' := by
  obtain ⟨htake, hdrop⟩ := takeWhile_append_of_head hrest.isWordChar e.text
  obtain ⟨htake', hdrop'⟩ := takeWhile_append_of_head hrest'.isWordChar e'.text
  have hword := h.isWordChar hlead
  have hword' := h'.isWordChar hlead'
  rw [heq, htake', List.takeWhile_eq_self_iff.2 hword, List.takeWhile_eq_self_iff.2 hword'] at htake
  rw [heq, hdrop', List.dropWhile_eq_nil_iff.2 hword, List.dropWhile_eq_nil_iff.2 hword'] at hdrop
  exact ⟨h.eq_of_word h' hlead hlead' (String.toList_inj.1 htake.symm), hdrop.symm⟩

/-- A number is determined by a text that it starts. -/
theorem display_append_inj {x y : Float} (hx : x.isFinite = true) (hy : y.isFinite = true)
    {rest rest' : List Char} (hrest : EndsPart rest) (hrest' : EndsPart rest')
    (heq : (Atom.displayLayout.write x).toList ++ rest
      = (Atom.displayLayout.write y).toList ++ rest') : x = y ∧ rest = rest' := by
  have hhead (n : Decimal.Numeral) (rest : List Char) :=
    Json.head_text_ne Atom.displayLayout n rest (c := '-') rfl
  obtain ⟨negative, n, htext, rfl⟩ := exists_numeral_display hx
  obtain ⟨negative', n', htext', rfl⟩ := exists_numeral_display hy
  rw [htext, htext', List.append_assoc, List.append_assoc] at heq
  obtain ⟨rfl, hnumeral⟩ := Json.signText_append_inj (hhead n rest) (hhead n' rest') heq
  obtain ⟨rfl, rfl⟩ := Json.text_append_inj hrest.endsNumber hrest'.endsNumber hnumeral
  exact ⟨rfl, rfl⟩

/-! ## Trees -/

/-- Texts that are the same start with the same. -/
theorem Expr.Legible.lead_eq {e e' : Expr} (h : e.Legible) (h' : e'.Legible)
    {rest rest' : List Char} (heq : e.text ++ rest = e'.text ++ rest') : e'.lead = e.lead := by
  obtain ⟨c, w, htext, hc⟩ := h.exists_cons
  obtain ⟨c', w', htext', hc'⟩ := h'.exists_cons
  rw [htext, htext'] at heq
  obtain ⟨rfl, -⟩ := List.cons.inj heq
  exact hc'.symm.trans hc

/-- What stands in parentheses. -/
theorem Expr.paren_cases {e : Expr} (h : e.lead = .paren) :
    (∃ left operator right, e = binary left operator right) ∨
      (∃ operator operand, e = unary operator operand) ∨ ∃ inner, e = grouping inner := by
  cases e with
  | binary left operator right => exact .inl ⟨left, operator, right, rfl⟩
  | unary operator operand => exact .inr (.inl ⟨operator, operand, rfl⟩)
  | grouping inner => exact .inr (.inr ⟨inner, rfl⟩)
  | literal value => cases value <;> cases h
  | var => cases h

/-- What is quoted. -/
theorem Expr.exists_string {e : Expr} (h : e.lead = .quote) : ∃ s, e = literal (.string s) := by
  cases e with
  | literal value =>
    cases value with
    | string s => exact ⟨s, rfl⟩
    | number | bool | nil => cases h
  | binary | unary | grouping | var => cases h

/-- What starts as a number does. -/
theorem Expr.exists_number {e : Expr} (h : e.lead = .number) : ∃ x, e = literal (.number x) := by
  cases e with
  | literal value =>
    cases value with
    | number x => exact ⟨x, rfl⟩
    | string | bool | nil => cases h
  | binary | unary | grouping | var => cases h

/-- **An expression is determined by a text that it starts**, apart from the
lines of its operators, and so is where it ends. -/
theorem Expr.Legible.text_append_inj {e e' : Expr} (h : e.Legible) (h' : e'.Legible)
    {rest rest' : List Char} (hrest : EndsPart rest) (hrest' : EndsPart rest')
    (heq : e.text ++ rest = e'.text ++ rest') :
    e.mapLine anyLine = e'.mapLine anyLine ∧ rest = rest' := by
  have hgroup : ' ' ∉ "group".toList := by decide
  -- What follows the two texts is general, since one operand may be followed by a space
  -- where the other is by a parenthesis. In each case the first character leaves the
  -- second expression few shapes.
  induction e generalizing e' rest rest' with
  | binary left operator right ihl ihr =>
    have hparen := paren_cases (h.lead_eq h' heq)
    obtain ⟨hleft, hop, hright⟩ := h
    rw [text_binary] at heq
    rcases hparen with
      ⟨left', operator', right', rfl⟩ | ⟨operator', operand', rfl⟩ | ⟨inner', rfl⟩
    · obtain ⟨hleft', hop', hright'⟩ := h'
      rw [text_binary] at heq
      obtain ⟨hlexeme, heq⟩ :=
        append_cons_inj hop.space_notMem hop'.space_notMem (List.cons.inj heq).2
      obtain ⟨hl, heq⟩ := ihl hleft hleft' (endsPart_space _) (endsPart_space _) heq
      obtain ⟨hr, heq⟩ :=
        ihr hright hright' (endsPart_paren _) (endsPart_paren _) (List.cons.inj heq).2
      have hoperator := hop.mapLine_eq hop' (String.toList_inj.1 hlexeme)
      exact ⟨by rw [mapLine, mapLine, hl, hoperator, hr], (List.cons.inj heq).2⟩
    · -- After the first operand there is a second one, or a closing parenthesis.
      obtain ⟨hop', hoperand'⟩ := h'
      rw [text_unary] at heq
      obtain ⟨-, heq⟩ := append_cons_inj hop.space_notMem hop'.space_notMem (List.cons.inj heq).2
      obtain ⟨-, heq⟩ := ihl hleft hoperand' (endsPart_space _) (endsPart_paren _) heq
      cases (List.cons.inj heq).1
    · rw [text_grouping] at heq
      obtain ⟨hlexeme, -⟩ := append_cons_inj hop.space_notMem hgroup (List.cons.inj heq).2
      exact absurd hlexeme hop.ne_group
  | unary operator operand ih =>
    have hparen := paren_cases (h.lead_eq h' heq)
    obtain ⟨hop, hoperand⟩ := h
    rw [text_unary] at heq
    rcases hparen with
      ⟨left', operator', right', rfl⟩ | ⟨operator', operand', rfl⟩ | ⟨inner', rfl⟩
    · obtain ⟨hleft', hop', -⟩ := h'
      rw [text_binary] at heq
      obtain ⟨-, heq⟩ := append_cons_inj hop.space_notMem hop'.space_notMem (List.cons.inj heq).2
      obtain ⟨-, heq⟩ := ih hoperand hleft' (endsPart_paren _) (endsPart_space _) heq
      cases (List.cons.inj heq).1
    · obtain ⟨hop', hoperand'⟩ := h'
      rw [text_unary] at heq
      obtain ⟨hlexeme, heq⟩ :=
        append_cons_inj hop.space_notMem hop'.space_notMem (List.cons.inj heq).2
      obtain ⟨hsame, heq⟩ := ih hoperand hoperand' (endsPart_paren _) (endsPart_paren _) heq
      have hoperator := hop.mapLine_eq hop' (String.toList_inj.1 hlexeme)
      exact ⟨by rw [mapLine, mapLine, hoperator, hsame], (List.cons.inj heq).2⟩
    · rw [text_grouping] at heq
      obtain ⟨hlexeme, -⟩ := append_cons_inj hop.space_notMem hgroup (List.cons.inj heq).2
      exact absurd hlexeme hop.ne_group
  | grouping inner ih =>
    have hparen := paren_cases (h.lead_eq h' heq)
    rw [text_grouping] at heq
    rcases hparen with
      ⟨left', operator', right', rfl⟩ | ⟨operator', operand', rfl⟩ | ⟨inner', rfl⟩
    · rw [text_binary] at heq
      obtain ⟨hlexeme, -⟩ := append_cons_inj hgroup h'.2.1.space_notMem (List.cons.inj heq).2
      exact absurd hlexeme.symm h'.2.1.ne_group
    · rw [text_unary] at heq
      obtain ⟨hlexeme, -⟩ := append_cons_inj hgroup h'.1.space_notMem (List.cons.inj heq).2
      exact absurd hlexeme.symm h'.1.ne_group
    · rw [text_grouping] at heq
      obtain ⟨-, heq⟩ := append_cons_inj hgroup hgroup (List.cons.inj heq).2
      have hinner' : inner'.Legible := h'
      obtain ⟨hsame, heq⟩ := ih h hinner' (endsPart_paren _) (endsPart_paren _) heq
      exact ⟨by rw [mapLine, mapLine, hsame], (List.cons.inj heq).2⟩
  | literal value =>
    have hlead := h.lead_eq h' heq
    cases value with
    | string s =>
      obtain ⟨s', rfl⟩ := exists_string hlead
      rw [text_string, text_string] at heq
      obtain ⟨htext, rfl⟩ := Json.quote_append_inj heq
      exact ⟨by rw [String.toList_inj.1 htext], rfl⟩
    | number x =>
      obtain ⟨y, rfl⟩ := exists_number hlead
      obtain ⟨rfl, rfl⟩ := display_append_inj h h' hrest hrest' heq
      exact ⟨rfl, rfl⟩
    | bool | nil =>
      obtain ⟨rfl, rfl⟩ := h.word_append_inj h' rfl hlead hrest hrest' heq
      exact ⟨rfl, rfl⟩
  | var name =>
    obtain ⟨rfl, rfl⟩ := h.word_append_inj h' rfl (h.lead_eq h' heq) hrest hrest' heq
    exact ⟨rfl, rfl⟩

/-! ## Statements -/

namespace Stmt

/-- **A statement that can be told from its text.** -/
def Legible : Stmt → Prop
  | expr e | print e => e.Legible
  | var name e => IsName name ∧ e.Legible

/-- What a statement starts with, in parentheses. -/
def head : Stmt → List Char
  | expr _ => [';']
  | print _ => ['p', 'r', 'i', 'n', 't']
  | var _ _ => ['v', 'a', 'r']

/-- What follows that. -/
def body : Stmt → List Char
  | expr e | print e => e.text ++ [')']
  | var name e => name.toList ++ ' ' :: (e.text ++ [')'])

theorem toList_render (s : Stmt) : s.render.toList = '(' :: (s.head ++ ' ' :: s.body) := by
  cases s <;> simp [render, inParens, head, body, Expr.text]

theorem space_notMem_head (s : Stmt) : ' ' ∉ s.head := by
  cases s <;> simp [head]

/-- **A statement is determined by its text**, apart from the lines of its
operators. -/
theorem Legible.render_inj {s s' : Stmt} (h : s.Legible) (h' : s'.Legible)
    (heq : s.render = s'.render) : s.mapLine anyLine = s'.mapLine anyLine := by
  have htext := congrArg String.toList heq
  rw [toList_render, toList_render] at htext
  obtain ⟨hhead, hbody⟩ :=
    append_cons_inj s.space_notMem_head s'.space_notMem_head (List.cons.inj htext).2
  have hend := endsPart_paren []
  cases s with
  | expr e =>
    cases s' with
    | expr e' => rw [mapLine, mapLine, (Expr.Legible.text_append_inj h h' hend hend hbody).1]
    | print | var => cases hhead
  | print e =>
    cases s' with
    | print e' => rw [mapLine, mapLine, (Expr.Legible.text_append_inj h h' hend hend hbody).1]
    | expr | var => cases hhead
  | var name e =>
    cases s' with
    | var name' e' =>
      obtain ⟨hname, hvalue⟩ := append_cons_inj h.1.space_notMem h'.1.space_notMem hbody
      rw [mapLine, mapLine, String.toList_inj.1 hname,
        (h.2.text_append_inj h'.2 hend hend hvalue).1]
    | expr | print => cases hhead

end Stmt

/-! ## Programs of a source -/

namespace Source

/-- The text of an identifier is a name. -/
theorem Lexeme.isName {text : List Char} {kind : Kind} {literal : Json}
    (h : Lexeme text kind literal) (hkind : kind = .identifier) : IsName (String.ofList text) := by
  have hsigns : ∀ p ∈ Kind.signs, p.2 ≠ .identifier := by decide
  have hwords : ∀ p ∈ Kind.keywords, p.2 ≠ .identifier := by decide
  cases h with
  | sign hmem => exact absurd hkind (hsigns _ hmem)
  | keyword hmem => exact absurd hkind (hwords _ hmem)
  | identifier hc hw hkey => exact ⟨⟨_, _, String.toList_ofList, hc, hw⟩, hkey⟩
  | string | number => cases hkind

end Source

/-- Whether a token is one that a source has. -/
def Token.IsLexeme (t : Token) : Prop :=
  Lexeme t.lexeme.toList t.kind t.literal

/-- An operator of a source is a sign. -/
theorem Token.IsLexeme.isSign {t : Token} (h : t.IsLexeme)
    (hkind : isBinary t.kind = true ∨ isUnary t.kind = true) : t.IsSign := by
  have hoperator : ∀ k : Kind, isBinary k = true ∨ isUnary k = true →
      k ∈ Kind.signs.map Prod.snd := by
    intro k
    cases k <;> decide
  have hmem := mem_signs_of_lexeme h (hoperator t.kind hkind)
  obtain ⟨-, hliteral⟩ := h.unique (.sign hmem)
  rw [String.ofList_toList] at hmem
  exact ⟨hmem, hliteral⟩

/-- An identifier of a source is a name. -/
theorem Token.IsLexeme.isName {t : Token} (h : t.IsLexeme) (hkind : t.kind = .identifier) :
    IsName t.lexeme := by
  have hname := Lexeme.isName h hkind
  rwa [String.ofList_toList] at hname

namespace Program

/-- **What is derived from the tokens of a source can be told from its text** if
its numbers are finite. -/
theorem Derives.legible {layer : Layer} {ts : List Token} {e : Expr} (h : Derives layer ts e)
    (hts : ∀ t ∈ ts, t.IsLexeme) (hfinite : ∀ x ∈ e.numbers, x.isFinite = true) : e.Legible := by
  induction h with
  | operand _ _ ih => exact ih hts hfinite
  | binary _ hop _ _ ihl ihr =>
    rw [List.forall_mem_append, List.forall_mem_cons] at hts
    rw [Expr.numbers, List.forall_mem_append] at hfinite
    exact ⟨ihl hts.1 hfinite.1, hts.2.1.isSign (.inl hop.isBinary), ihr hts.2.2 hfinite.2⟩
  | unary hop _ ih =>
    rw [List.forall_mem_cons] at hts
    exact ⟨hts.1.isSign (.inr (by simpa [isUnary] using hop)), ih hts.2 hfinite⟩
  | kwTrue | kwFalse | kwNil | string => trivial
  | number => exact hfinite _ List.mem_cons_self
  | name hname => exact (hts _ (List.mem_singleton_self _)).isName hname
  | grouping _ _ _ ih =>
    rw [List.cons_append, List.forall_mem_cons, List.forall_mem_append] at hts
    exact ih hts.2.1 hfinite

/-- So is a declaration. -/
theorem DerivesStmt.legible {ts : List Token} {s : Stmt} (h : DerivesStmt ts s)
    (hts : ∀ t ∈ ts, t.IsLexeme) (hfinite : ∀ x ∈ s.value.numbers, x.isFinite = true) :
    s.Legible := by
  cases h with
  | bare _ hname =>
    simp only [List.forall_mem_cons] at hts
    exact ⟨hts.2.1.isName hname, trivial⟩
  | var _ hname _ hder =>
    simp only [List.cons_append, List.forall_mem_cons, List.forall_mem_append] at hts
    exact ⟨hts.2.1.isName hname, hder.legible hts.2.2.2.1 hfinite⟩
  | print _ hder =>
    simp only [List.cons_append, List.forall_mem_cons, List.forall_mem_append] at hts
    exact hder.legible hts.2.1 hfinite
  | expr hder =>
    rw [List.forall_mem_append] at hts
    exact hder.legible hts.1 hfinite

end Program

/-- A program that was read from a source can be told from its text if its
numbers are finite. -/
theorem Frontend.legible_of_read {f : Frontend} (hf : f.grammar = false) {source : String}
    {ss : List Stmt} (h : f.read source = .ok ss)
    (hfinite : ∀ s ∈ ss, ∀ x ∈ s.value.numbers, x.isFinite = true) : ∀ s ∈ ss, s.Legible := by
  simp only [Frontend.read, hf, Bool.false_eq_true, if_false] at h
  rcases htokens : f.tokens source with rejection | ts <;> rw [htokens] at h
  · cases h
  · have hscan := tokens_of_result (eq_ok_of_mapError htokens)
    intro s hs
    obtain ⟨used, hder, hused⟩ := derived_of_parse (eq_ok_of_mapError h) s hs
    refine hder.legible (fun t ht => ?_) (hfinite s hs)
    have hmem : t ∈ (scan source).tokens := hscan.symm ▸ hused ht
    exact (tokenized_cut 1 source.toList).lexeme_of_mem t hmem (hder.ne_eof t ht)

/-- Lists that are mapped to the same are mapped to the same in another way, if
that holds of their members. -/
theorem map_eq_map_of_imp {α β γ : Type} {f : α → β} {g : α → γ} {l l' : List α}
    (h : ∀ a ∈ l, ∀ a' ∈ l', f a = f a' → g a = g a') (heq : l.map f = l'.map f) :
    l.map g = l'.map g := by
  induction l generalizing l' with
  | nil =>
    rw [List.map_eq_nil_iff.1 heq.symm]
  | cons a l ih =>
    rcases l' with _ | ⟨a', l'⟩
    · cases heq
    · obtain ⟨hhead, htail⟩ := List.cons.inj heq
      rw [List.map_cons, List.map_cons, h a List.mem_cons_self a' List.mem_cons_self hhead,
        ih (fun b hb b' hb' => h b (List.mem_cons_of_mem a hb) b' (List.mem_cons_of_mem a' hb'))
          htail]

/-- **The texts of a program determine the program.** Two programs that were
read from sources, whichever options they were read with, and whose numbers are
finite, have the same texts one by one exactly if they are equal up to the lines
of their operators. -/
theorem Frontend.map_renderStmt_eq_iff {f f' : Frontend} (hf : f.grammar = false)
    (hf' : f'.grammar = false) {source source' : String} {ss ss' : List Stmt}
    (h : f.read source = .ok ss) (h' : f'.read source' = .ok ss')
    (hfinite : ∀ s ∈ ss, ∀ x ∈ s.value.numbers, x.isFinite = true)
    (hfinite' : ∀ s ∈ ss', ∀ x ∈ s.value.numbers, x.isFinite = true) :
    ss.map (·.toNode.renderStmt) = ss'.map (·.toNode.renderStmt) ↔
      ss.map (Stmt.mapLine anyLine) = ss'.map (Stmt.mapLine anyLine) := by
  have hlegible := Frontend.legible_of_read hf h hfinite
  have hlegible' := Frontend.legible_of_read hf' h' hfinite'
  constructor
  · refine map_eq_map_of_imp fun s hs s' hs' heq => ?_
    rw [renderStmt_toNode, renderStmt_toNode] at heq
    exact (hlegible s hs).render_inj (hlegible' s' hs') (Except.ok.inj heq)
  · refine map_eq_map_of_imp fun s _ s' _ heq => ?_
    have hrender := congrArg Stmt.render heq
    rw [Stmt.render_mapLine, Stmt.render_mapLine] at hrender
    rw [renderStmt_toNode, renderStmt_toNode, hrender]

set_option maxRecDepth 2000 in
/-- A sum on one line, and on two with a longer numeral. -/
theorem render_sum :
    let ss (line : Int) : List Stmt :=
      [.print (.binary (.literal (.number 0)) ⟨.plus, "+", line, .null⟩ (.var "a"))]
    ({} : Frontend).read "print 0 + a;" = .ok (ss 1) ∧
      ({ lenient := true } : Frontend).read "print 0.0\n+ a;" = .ok (ss 2) ∧
      (ss 1).map (·.toNode.renderStmt) = (ss 2).map (·.toNode.renderStmt) ∧
      (ss 1).map (Stmt.mapLine anyLine) = (ss 2).map (Stmt.mapLine anyLine) := by
  intro ss
  have hread : ({} : Frontend).read "print 0 + a;" = .ok (ss 1) := by cbv
  have hread' : ({ lenient := true } : Frontend).read "print 0.0\n+ a;" = .ok (ss 2) := by
    cbv
  have hfinite (line : Int) : ∀ s ∈ ss line, ∀ x ∈ s.value.numbers, x.isFinite = true := by
    simp only [ss, List.forall_mem_singleton, Stmt.value, Expr.numbers, List.append_nil]
    decide +kernel
  have htexts : (ss 1).map (·.toNode.renderStmt) = (ss 2).map (·.toNode.renderStmt) := rfl
  have hiff := Frontend.map_renderStmt_eq_iff rfl rfl hread hread' (hfinite 1) (hfinite 2)
  exact ⟨hread, hread', htexts, hiff.1 htexts⟩

end Lox
