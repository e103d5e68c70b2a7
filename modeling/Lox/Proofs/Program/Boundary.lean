import Lox.Proofs.Program.Exact
/-!
# Boundaries between declarations

A declaration is read from the tokens that are left, and nothing is carried
over to the next one but where it ended (`entries_boundary`). So what is read
after a boundary is what is read from there alone, with the same statements and
the same faults, whether the declaration before it was read or given up, and
tokens that are a program can stand before any others (`parse_composes`).
-/

namespace Lox.Program

open TokenLike

/-! ## What is left after a declaration -/

section

variable {τ : Type} [TokenLike τ]

/-- **What follows a declaration** is read from what the declaration left, which
is a suffix of the list. -/
theorem entries_boundary {ts : List τ} {after : List (Entry τ)} {e : Entry τ}
    (before : List (Entry τ)) (h : entries ts = before ++ e :: after) :
    after = entries e.rest ∧ e.rest <:+ ts := by
  -- The list is all that is passed on from a declaration to the next, so it is
  -- general in the induction.
  induction before generalizing ts with
  | nil =>
    rw [entries] at h
    split at h
    · cases h
    · obtain ⟨rfl, rfl⟩ := List.cons.inj h
      exact ⟨rfl, (readStep ts).suffix⟩
  | cons first before ih =>
    rw [entries] at h
    split at h
    · cases h
    · obtain ⟨-, hrest⟩ := List.cons.inj h
      obtain ⟨hafter, hsuffix⟩ := ih hrest
      exact ⟨hafter, hsuffix.trans (readStep ts).suffix⟩

/-- A list and what is left of it end on one line, unless nothing is left. -/
theorem endLine_of_suffix {rest ts : List τ} (h : rest <:+ ts) (hne : rest ≠ []) :
    endLine rest = endLine ts := by
  obtain ⟨used, rfl⟩ := h
  rw [endLine, endLine, List.getLast?_append_of_ne_nil _ hne]

end

/-! ## What declarations come to -/

/-- What declarations come to that were read from a list which ends on the given
line: their statements, or all of their faults. -/
def outcome (endLine : Int) (read : List (Entry Token)) : Except (List Fault) (List Stmt) :=
  match (read.flatMap Entry.misses).map (Miss.fault endLine) with
  | [] => .ok ((read.filterMap Entry.clause).map Stmt.ofClause)
  | faults => .error faults

/-- What two parts of a list come to together: the statements of both, or the
faults of both. -/
def both : Except (List Fault) (List Stmt) → Except (List Fault) (List Stmt) →
    Except (List Fault) (List Stmt)
  | .ok ss, .ok ss' => .ok (ss ++ ss')
  | .ok _, .error faults => .error faults
  | .error faults, .ok _ => .error faults
  | .error faults, .error faults' => .error (faults ++ faults')

/-- A list comes to what its declarations come to. -/
theorem parse_eq_outcome (single : Bool) (ts : List Token) :
    parse single ts
      = outcome (endLine ts) (if single then (entries ts).take 1 else entries ts) := by
  simp only [parse, readAll, outcome]
  generalize (if single then (entries ts).take 1 else entries ts) = read
  rcases read.flatMap Entry.misses with _ | ⟨m, misses⟩ <;> rfl

/-- Declarations after others come to what both come to. -/
theorem outcome_append (endLine : Int) (read read' : List (Entry Token)) :
    outcome endLine (read ++ read') = both (outcome endLine read) (outcome endLine read') := by
  simp only [outcome, List.flatMap_append, List.filterMap_append, List.map_append]
  rcases (read.flatMap Entry.misses).map (Miss.fault endLine) with _ | ⟨f, faults⟩ <;>
    rcases (read'.flatMap Entry.misses).map (Miss.fault endLine) with _ | ⟨g, faults'⟩ <;>
      simp [both]

/-- What is left of a list comes to the same in the list and alone. -/
theorem outcome_entries_of_suffix {rest ts : List Token} (h : rest <:+ ts) :
    outcome (endLine ts) (entries rest) = parse false rest := by
  rw [parse_eq_outcome]
  obtain rfl | hne := eq_or_ne rest []
  · -- The line of an empty list is no token's, but an empty list has no faults either.
    simp [entries, atEnd, outcome]
  · rw [endLine_of_suffix h hne]
    rfl

/-! ## Tokens that are a program -/

/-- A derived declaration is read first, whatever follows it. -/
theorem DerivesStmt.entries_append {ts : List Token} {s : Stmt} (h : DerivesStmt ts s)
    (rest : List Token) :
    ∃ e : Entry Token, entries (ts ++ rest) = e :: entries rest ∧
      ∀ endLine, outcome endLine [e] = .ok [s] := by
  obtain ⟨clause, rfl, hclause, hrest, hmisses⟩ := h.readStep_is rest
  have hgoes : ¬ atEnd (ts ++ rest) = true := by
    obtain ⟨t, more, rfl, ht⟩ := h.exists_cons
    simp [atEnd, kind, ht]
  refine ⟨⟨some clause, rest, []⟩, ?_, fun _ => rfl⟩
  rw [entries, dif_neg hgoes]
  simp only [hclause, hrest, hmisses]

/-- So is a derived program, which has no faults. -/
theorem DerivesProgram.entries_append {ts : List Token} {ss : List Stmt}
    (h : DerivesProgram ts ss) (rest : List Token) :
    ∃ read, entries (ts ++ rest) = read ++ entries rest ∧
      ∀ endLine, outcome endLine read = .ok ss := by
  induction h with
  | done => exact ⟨[], rfl, fun _ => rfl⟩
  | @step ts us s ss hs _ ih =>
    obtain ⟨read, hread, houtcome⟩ := ih
    obtain ⟨e, he, hfirst⟩ := hs.entries_append (us ++ rest)
    refine ⟨e :: read, by rw [List.append_assoc, he, hread, List.cons_append], fun endLine => ?_⟩
    rw [← List.singleton_append, outcome_append, hfirst, houtcome]
    rfl

/-- A list without an end token is read as a program if it derives that
program. -/
theorem derivesProgram_of_parse {ts : List Token} (hts : ∀ t ∈ ts, t.kind ≠ .eof) {ss : List Stmt}
    (h : parse false ts = .ok ss) : DerivesProgram ts ss := by
  obtain ⟨hmisses, rfl⟩ := parse_eq_ok_iff.1 h
  obtain ⟨used, left, rfl, hleft, hder⟩ := derived_entries ts hmisses
  -- All of the list is read, since what is left starts with no end token.
  obtain rfl : left = [] := by
    rcases left with _ | ⟨t, left⟩
    · rfl
    · exact absurd (by simpa [atEnd, kind] using hleft) (hts t (by simp))
  rwa [List.append_nil] at hder ⊢

/-! ## Composition -/

/-- **Reading is compositional at the boundaries of declarations.** A program
before other tokens has no part in how those are read, and if it is one
declaration, that is the single statement of the list. Wherever a declaration
ends, read or given up, what comes after it is what the rest of the list comes to
alone, and the whole list comes to both parts. -/
theorem parse_composes :
    (∀ (ts : List Token) (ss : List Stmt), (∀ t ∈ ts, t.kind ≠ .eof) → parse false ts = .ok ss →
      ∀ rest, parse false (ts ++ rest) = (parse false rest).map (ss ++ ·) ∧
        ∀ s, ss = [s] → parse true (ts ++ rest) = .ok [s]) ∧
    ∀ (ts : List Token) (before after : List (Entry Token)) (e : Entry Token),
      entries ts = before ++ e :: after →
        let position := ts.length - e.rest.length
        e.rest = ts.drop position ∧ after = entries (ts.drop position) ∧
          outcome (endLine ts) after = parse false (ts.drop position) ∧
          parse false ts
            = both (outcome (endLine ts) (before ++ [e])) (parse false (ts.drop position)) := by
  constructor
  · intro ts ss hts hparse rest
    have hder := derivesProgram_of_parse hts hparse
    obtain ⟨read, hread, houtcome⟩ := hder.entries_append rest
    constructor
    · have hrest := outcome_entries_of_suffix (List.suffix_append ts rest)
      rw [parse_eq_outcome, if_neg Bool.false_ne_true, hread, outcome_append, houtcome, hrest]
      cases parse false rest <;> rfl
    · rintro s rfl
      cases hder with
      | @step us _ _ _ hs hnone =>
        cases hnone
        obtain ⟨e, he, hfirst⟩ := hs.entries_append rest
        rw [parse_eq_outcome, if_pos rfl, List.append_nil, he]
        exact hfirst _
  · intro ts before after e h position
    obtain ⟨hafter, hsuffix⟩ := entries_boundary before h
    have hrest : e.rest = ts.drop position := List.suffix_iff_eq_drop.1 hsuffix
    -- A fault at the end of the list has the same line in what is left of it.
    have hparse := outcome_entries_of_suffix hsuffix
    rw [← hafter] at hparse
    refine ⟨hrest, hrest ▸ hafter, hrest ▸ hparse, ?_⟩
    rw [← hrest, ← hparse, ← outcome_append, parse_eq_outcome, if_neg Bool.false_ne_true, h,
      List.append_assoc, List.singleton_append]

/-- A statement before a declaration that is given up at a parenthesis, and one
after that. -/
theorem parse_around_stray_paren :
    let first : List Token := [⟨.kwPrint, "print", 1, .null⟩, ⟨.kwNil, "nil", 1, .null⟩,
      ⟨.semicolon, ";", 1, .null⟩]
    let last : List Token := [⟨.kwTrue, "true", 2, .null⟩, ⟨.semicolon, ";", 2, .null⟩]
    let rest : List Token := ⟨.rightParen, ")", 1, .null⟩ :: ⟨.semicolon, ";", 1, .null⟩ :: last
    let fault : Fault := ⟨.expression, some "')'", 1, 4⟩
    parse false (first ++ rest) = .error [fault] ∧
      parse true (first ++ rest) = .ok [.print (.literal .nil)] ∧
      parse false rest = both (.error [fault]) (parse false last) := by
  intro first last rest fault
  -- The declaration that is given up leaves the tokens after its semicolon.
  have hentries : entries rest = [] ++ ⟨none, last, [⟨.expression, rest⟩]⟩ :: entries last := by
    have hstep : readStep rest = .giveUp rest [⟨.expression, rest⟩] (List.suffix_refl _) := by cbv
    have hleft : resume rest = last := by cbv
    rw [entries, dif_neg (by decide), hstep]
    simp only [Step.giveUp, hleft, List.nil_append]
  obtain ⟨hbefore, hboundary⟩ := parse_composes
  have hfirst : parse false first = .ok [.print (.literal .nil)] := by cbv
  obtain ⟨hall, hsingle⟩ := hbefore first _ (by simp [first]) hfirst rest
  have hrest : parse false rest = .error [fault] := by cbv
  obtain ⟨-, -, -, hboth⟩ := hboundary rest [] (entries last) _ hentries
  exact ⟨by rw [hall, hrest]; rfl, hsingle _ rfl, hboth⟩

end Lox.Program
