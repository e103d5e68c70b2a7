import Lox.Proofs.Source.Layout
/-!
# Lexemes with separators between them

The lexemes of a source may be written anew with anything between neighbours
that starts with a blank and holds blanks and comments
(`Joins`). The new text has the same tokens, on other lines
(`scan_joins`): a lexeme is the longest match before a blank, whatever
comes after that (`Lexeme.isLongest_before_blank`), and what separates the
lexemes is passed over (`Filler.spells`).
-/

namespace Lox

/-- A token but for its line. -/
def Token.content (t : Token) : Kind × String × Json :=
  (t.kind, t.lexeme, t.literal)

namespace Source

/-- Blanks and comments, each comment with a line feed after it. -/
inductive Filler : List Char → Prop
  | nil : Filler []
  | blank {c : Char} {rest : List Char} :
      Piece.isBlank c = true → Filler rest → Filler (c :: rest)
  | comment {text rest : List Char} :
      IsComment text → Filler rest → Filler (text ++ '\n' :: rest)

/-- **A separator**: a blank, and then blanks and comments. -/
def IsSeparator (text : List Char) : Prop :=
  ∃ c rest, text = c :: rest ∧ Piece.isBlank c = true ∧ Filler rest

/-- **The lexemes of some tokens in order**, with a separator between
neighbours. -/
inductive Joins : List Token → List Char → Prop
  | nil : Joins [] []
  | single (t : Token) : Joins [t] t.lexeme.toList
  | cons {t u : Token} {ts : List Token} {separator text : List Char} :
      IsSeparator separator → Joins (u :: ts) text →
      Joins (t :: u :: ts) (t.lexeme.toList ++ (separator ++ text))

variable {line : Int} {text : List Char} {ts : List Token}

/-- What is filled in is passed over. -/
theorem Filler.spells {filler : List Char} (h : Filler filler)
    (hspells : Spells (line + filler.count '\n') text ts) : Spells line (filler ++ text) ts := by
  induction h generalizing line with
  | nil => simpa using hspells
  | @blank c rest hc _ ih =>
    refine .blank hc (ih ?_)
    rwa [← List.singleton_append (x := c), List.count_append, Nat.cast_add, ← add_assoc]
      at hspells
  | @comment comment rest hcomment _ ih =>
    rw [List.append_assoc]
    refine .comment hcomment (by simp) (.blank rfl (ih ?_))
    rw [List.count_append, count_comment hcomment, ← List.singleton_append (x := '\n'),
      List.count_append] at hspells
    simpa [add_assoc] using hspells

/-- So is a separator. -/
theorem IsSeparator.spells {separator : List Char} (h : IsSeparator separator)
    (hspells : Spells (line + separator.count '\n') text ts) :
    Spells line (separator ++ text) ts := by
  obtain ⟨c, rest, rfl, hc, hrest⟩ := h
  exact (Filler.blank hc hrest).spells hspells

/-- A lexeme that starts with a slash is one slash. -/
theorem Lexeme.eq_nil_of_slash {rest : List Char} {kind : Kind} {value : Json}
    (h : Lexeme ('/' :: rest) kind value) : rest = [] := by
  obtain ⟨c, w, htext, hread, -⟩ := h.read_self
  obtain ⟨rfl, rfl⟩ := List.cons.inj htext
  change Piece.readSlash rest = _ at hread
  unfold Piece.readSlash at hread
  split at hread
  · cases hread
  · exact (Prod.mk.inj hread).2

/-- **A lexeme is the longest match** if no longer lexeme goes on from it and it is
not the first of two slashes, with which comments start. -/
theorem Lexeme.isLongest_append {lexeme after : List Char} {kind : Kind} {value : Json}
    (h : Lexeme lexeme kind value)
    (hlonger : ∀ beyond k v, beyond <+: after → Lexeme (lexeme ++ beyond) k v → beyond = [])
    (hslash : lexeme = ['/'] → '/' ∉ after.head?) : IsLongest lexeme (lexeme ++ after) := by
  intro other hother hkind
  rcases List.prefix_or_prefix_of_prefix hother (List.prefix_append _ _) with
    hwithin | ⟨beyond, rfl⟩
  · exact hwithin.length_le
  have hbeyond : beyond <+: after := (List.prefix_append_right_inj _).1 hother
  rcases hkind with ⟨k, v, hlexeme⟩ | ⟨body, heq, -⟩
  · rw [hlonger beyond k v hbeyond hlexeme, List.append_nil]
  · obtain ⟨c, w, rfl, -⟩ := h.isSpace_head
    obtain ⟨rfl, hw⟩ := List.cons.inj heq
    obtain rfl := h.eq_nil_of_slash
    obtain rfl : beyond = '/' :: body := hw
    obtain ⟨more, rfl⟩ := hbeyond
    exact absurd rfl (hslash rfl)

/-- **Before a blank a lexeme is the longest match**: what is longer would go on
over the blank. -/
theorem Lexeme.isLongest_before_blank {lexeme : List Char} {kind : Kind} {value : Json}
    (h : Lexeme lexeme kind value) {c : Char} (hc : Piece.isBlank c = true) (more : List Char) :
    IsLongest lexeme (lexeme ++ c :: more) := by
  refine h.isLongest_append (fun beyond k v hbeyond hlonger => ?_) fun _ hslash => ?_
  · rcases beyond with _ | ⟨d, beyond⟩
    · rfl
    · obtain ⟨rfl, -⟩ := List.cons_prefix_cons.1 hbeyond
      have hspace := h.isSpace_of_append hlonger d List.mem_cons_self
      exact absurd (isSpace_of_isBlank hc) (by simp [hspace])
  · obtain rfl : c = '/' := Option.some.inj hslash
    exact absurd hc (by decide)

/-- What a text spells are lexemes. -/
theorem Spells.lexeme_of_mem (h : Spells line text ts) :
    ∀ t ∈ ts, Lexeme t.lexeme.toList t.kind t.literal := by
  induction h with
  | done => exact List.forall_mem_nil _
  | blank _ _ ih | comment _ _ _ ih => exact ih
  | lexeme hlex _ _ ih => exact List.forall_mem_cons.2 ⟨by simpa using hlex, ih⟩

/-- **Lexemes with separators between them spell their tokens**, on whichever
lines. -/
theorem Joins.exists_spells (h : Joins ts text)
    (hts : ∀ t ∈ ts, Lexeme t.lexeme.toList t.kind t.literal) (line : Int) :
    ∃ us, Spells line text us ∧ us.map Token.content = ts.map Token.content := by
  induction h generalizing line with
  | nil => exact ⟨[], .done, rfl⟩
  | single t =>
    -- Nothing follows the last lexeme, so nothing longer can be read.
    have hlong : IsLongest t.lexeme.toList (t.lexeme.toList ++ []) :=
      fun other hother _ => by simpa using hother.length_le
    have hspells := Spells.lexeme (hts t List.mem_cons_self) hlong (Spells.done
      : Spells (line + t.lexeme.toList.count '\n') [] [])
    rw [List.append_nil, String.ofList_toList] at hspells
    exact ⟨_, hspells, rfl⟩
  | @cons t u ts separator text hseparator _ ih =>
    obtain ⟨hlex, hrest⟩ := List.forall_mem_cons.1 hts
    -- The lines of the other tokens are those after the lexeme and the separator.
    obtain ⟨us, hspells, hus⟩ := ih hrest
      (line + t.lexeme.toList.count '\n' + separator.count '\n')
    obtain ⟨c, filler, rfl, hc, -⟩ := id hseparator
    refine ⟨_, .lexeme hlex (hlex.isLongest_before_blank hc _) (hseparator.spells hspells), ?_⟩
    rw [List.map_cons, hus, String.ofList_toList]
    rfl

/-- **The lexemes of a source written anew** have its tokens, on other lines. -/
theorem scan_joins {source joined : String} (hscan : (scan source).result false = .ok ts)
    (hjoins : Joins ts.dropLast joined.toList) :
    ∃ us, (scan joined).result false = .ok us ∧
      us.map Token.content = ts.map Token.content := by
  obtain ⟨vs, rfl, hspells⟩ := scan_eq_ok_iff.1 hscan
  rw [List.dropLast_concat] at hjoins
  obtain ⟨us, hjoined, hus⟩ := hjoins.exists_spells hspells.lexeme_of_mem 1
  refine ⟨_, scan_eq_ok_iff.2 ⟨us, rfl, hjoined⟩, ?_⟩
  rw [List.map_append, List.map_append, hus]
  rfl

end Source

end Lox
