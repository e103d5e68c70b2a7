import Lox.Proofs.Source.Tokenized
/-!
# Where pieces stand

The pieces of a source in their places, each with the text before it. The
places of a source lie one after another and leave nothing out
(`append_of_mem_places`, `pairwise_placesFrom`). A line is one more than the
line feeds before it, so the lines that a scan counts as it goes are those of
the places (`tokensFrom_lineAfter`, `faultsFrom_lineAfter`), and they never
decrease (`inOrder_tokens`, `inOrder_faults`).
-/

namespace Lox.Source

/-! ## Lines -/

/-- **The line after a text**: one more than its line feeds. -/
def lineAfter (text : List Char) : Int :=
  1 + text.count '\n'

/-- Lines that do not decrease, from the first line of a text to its last. -/
structure InOrder (text : List Char) (lines : List Int) : Prop where
  pairwise : lines.Pairwise (· ≤ ·)
  within : ∀ line ∈ lines, 1 ≤ line ∧ line ≤ lineAfter text

/-- The line with which a fault is reported. -/
def Fault.line : Fault → Int
  | stray _ line | unterminated line => line

/-- The errors of a scan are its faults, but for the characters that a lenient
one passes over. -/
theorem Scan.errors_eq_filter (lenient : Bool) (s : Scan) :
    s.errors lenient = s.faults.filter (fun f => !(lenient && f.isStray)) := by
  cases lenient
  · exact (List.filter_eq_self.2 fun _ _ => rfl).symm
  · rfl

/-- A line is the first one or a later one. -/
theorem one_le_lineAfter (text : List Char) : 1 ≤ lineAfter text :=
  Int.le_add_of_nonneg_right (Int.natCast_nonneg _)

/-- More text has no fewer lines. -/
theorem lineAfter_le {text longer : List Char} (h : text <+: longer) :
    lineAfter text ≤ lineAfter longer := by
  have := h.sublist.count_le '\n'
  unfold lineAfter
  omega

/-- A piece ends on the line after the text up to its end. -/
theorem endLine_lineAfter (before : List Char) (p : Piece) :
    p.endLine (lineAfter before) = lineAfter (before ++ p.text) := by
  rw [Piece.endLine, lineAfter, lineAfter, List.count_append]
  omega

/-! ## Places -/

/-- **A piece in its place**: with the text before it. -/
structure Place where
  before : List Char
  piece : Piece

/-- Pieces after a text, each in its place. -/
def placesFrom (before : List Char) : List Piece → List Place
  | [] => []
  | p :: ps => ⟨before, p⟩ :: placesFrom (before ++ p.text) ps

/-- The pieces of a source, each in its place. -/
def places (source : String) : List Place :=
  placesFrom [] (cut source.toList)

namespace Place

/-- The text up to the end of a piece. -/
def through (x : Place) : List Char :=
  x.before ++ x.piece.text

/-- The token that a piece is, on the line after the text up to its end. -/
def token? (x : Place) : Option Token :=
  match x.piece with
  | .token kind text => some ⟨kind, String.ofList text, lineAfter x.through, literal kind text⟩
  | _ => none

/-- The fault that a piece of a text is: a character that begins nothing on
the line after the text before it, an unterminated string on the last line of
the text. -/
def fault? (text : List Char) (x : Place) : Option Fault :=
  match x.piece with
  | .stray c => some (.stray c (lineAfter x.before))
  | .unterminated _ => some (.unterminated (lineAfter text))
  | _ => none

end Place

variable {before text : List Char} {ps : List Piece} {x : Place}

/-- The first place is before all others. -/
theorem before_prefix_of_mem (h : x ∈ placesFrom before ps) : before <+: x.before := by
  induction ps generalizing before with
  | nil => exact absurd h List.not_mem_nil
  | cons p ps ih =>
    rcases List.mem_cons.1 h with rfl | hrest
    · exact List.prefix_rfl
    · exact (List.prefix_append before p.text).trans (ih hrest)

/-- **Places lie one after another.** -/
theorem pairwise_placesFrom (before : List Char) (ps : List Piece) :
    (placesFrom before ps).Pairwise fun x y => x.through <+: y.before := by
  induction ps generalizing before with
  | nil => exact .nil
  | cons p ps ih => exact .cons (fun y hy => before_prefix_of_mem hy) (ih _)

/-- A piece of a cut fits what follows its place. -/
theorem append_of_mem_placesFrom (h : x ∈ placesFrom before (cut text)) :
    ∃ after, before ++ text = x.through ++ after ∧ x.piece.Fits after := by
  fun_induction cut text generalizing before with
  | case1 => exact absurd h List.not_mem_nil
  | case2 c rest ih =>
    rcases hread : Piece.read c rest with ⟨p, after⟩
    rw [hread] at ih h
    rw [← Piece.append_of_read hread, ← List.append_assoc]
    rcases List.mem_cons.1 h with rfl | hrest
    · exact ⟨after, rfl, .of_read hread⟩
    · exact ih hrest

/-- **The places of a source leave nothing out**: a piece stands between the
text before it and what follows, and it fits there. -/
theorem append_of_mem_places {source : String} (h : x ∈ places source) :
    ∃ after, source.toList = x.through ++ after ∧ x.piece.Fits after :=
  append_of_mem_placesFrom h

/-! ## What a scan finds -/

/-- **The tokens after a text** are those in their places, and the end token
on the line after all of them. -/
theorem tokensFrom_lineAfter (before : List Char) (ps : List Piece) :
    tokensFrom (lineAfter before) ps
      = (placesFrom before ps).filterMap Place.token?
        ++ [Token.eof (lineAfter (before ++ ps.flatMap Piece.text))] := by
  induction ps generalizing before with
  | nil => simp [tokensFrom, placesFrom]
  | cons p ps ih =>
    rw [placesFrom, List.filterMap_cons, List.flatMap_cons, ← List.append_assoc]
    cases p <;> simp [tokensFrom, endLine_lineAfter, ih, Place.token?, Place.through, Piece.text]

/-- **The faults after a text** are those in their places. -/
theorem faultsFrom_lineAfter (before text : List Char) :
    faultsFrom (lineAfter before) (cut text)
      = (placesFrom before (cut text)).filterMap (Place.fault? (before ++ text)) := by
  fun_induction cut text generalizing before with
  | case1 => rfl
  | case2 c rest ih =>
    rcases hread : Piece.read c rest with ⟨p, after⟩
    rw [hread] at ih
    rw [placesFrom, List.filterMap_cons, ← Piece.append_of_read hread, ← List.append_assoc, ← ih]
    cases Piece.Fits.of_read hread with
    | blank | comment | token | stray => simp only [faultsFrom, endLine_lineAfter, Place.fault?]
    | unterminated =>
      -- Nothing follows it, so the line on which it ends is the last one.
      simp only [faultsFrom, endLine_lineAfter, Place.fault?, List.append_nil]

/-- The tokens of a source. -/
theorem tokens_eq_places (source : String) :
    (scan source).tokens = (places source).filterMap Place.token?
      ++ [Token.eof (lineAfter source.toList)] := by
  have h := tokensFrom_lineAfter [] (cut source.toList)
  rwa [flatMap_text_cut] at h

/-- The faults of a source. -/
theorem faults_eq_places (source : String) :
    (scan source).faults = (places source).filterMap (Place.fault? source.toList) :=
  faultsFrom_lineAfter [] source.toList

/-! ## Their order -/

/-- Fewer lines are in order as well. -/
theorem InOrder.sublist {lines fewer : List Int} (h : InOrder text lines)
    (hfewer : fewer.Sublist lines) : InOrder text fewer :=
  ⟨h.pairwise.sublist hfewer, fun line hline => h.within line (hfewer.mem hline)⟩

/-- The last line of a text comes last. -/
theorem InOrder.concat {lines : List Int} (h : InOrder text lines) :
    InOrder text (lines ++ [lineAfter text]) where
  pairwise := List.pairwise_append.2 ⟨h.pairwise, List.pairwise_singleton _ _,
    fun line hline _ hlast => List.mem_singleton.1 hlast ▸ (h.within line hline).2⟩
  within := List.forall_mem_append.2
    ⟨h.within, List.forall_mem_singleton.2 ⟨one_le_lineAfter text, le_refl _⟩⟩

/-- **What is found in places is in order**, if it is on a line from where its
piece starts to where that ends. -/
theorem inOrder_filterMap {source : String} {α : Type} {found? : Place → Option α} {line : α → Int}
    (h : ∀ x ∈ places source, ∀ a ∈ found? x,
      lineAfter x.before ≤ line a ∧ line a ≤ lineAfter x.through) :
    InOrder source.toList (((places source).filterMap found?).map line) where
  pairwise := by
    rw [List.pairwise_map, List.pairwise_filterMap]
    refine (pairwise_placesFrom [] (cut source.toList)).imp_of_mem fun hx hy hxy a ha b hb => ?_
    calc line a ≤ _ := (h _ hx a ha).2
      _ ≤ _ := lineAfter_le hxy
      _ ≤ line b := (h _ hy b hb).1
  within := by
    simp only [List.mem_map, List.mem_filterMap]
    rintro _ ⟨a, ⟨x, hx, ha⟩, rfl⟩
    obtain ⟨after, happend, -⟩ := append_of_mem_places hx
    obtain ⟨hstart, hend⟩ := h x hx a ha
    exact ⟨(one_le_lineAfter _).trans hstart, hend.trans (lineAfter_le ⟨after, happend.symm⟩)⟩

/-- **The lines of the tokens of a source are in order.** -/
theorem inOrder_tokens (source : String) :
    InOrder source.toList ((scan source).tokens.map Token.line) := by
  rw [tokens_eq_places, List.map_append]
  refine (inOrder_filterMap fun x _ t ht => ?_).concat
  unfold Place.token? at ht
  split at ht
  · obtain rfl := Option.some.inj ht
    exact ⟨lineAfter_le (List.prefix_append _ _), le_refl _⟩
  · cases ht

/-- **So are those of its faults.** -/
theorem inOrder_faults (source : String) :
    InOrder source.toList ((scan source).faults.map Fault.line) := by
  rw [faults_eq_places]
  refine inOrder_filterMap fun x hx f hf => ?_
  have hthrough : lineAfter x.before ≤ lineAfter x.through := lineAfter_le (List.prefix_append _ _)
  unfold Place.fault? at hf
  split at hf
  · obtain rfl := Option.some.inj hf
    exact ⟨le_refl _, hthrough⟩
  · next hpiece =>
    -- An unterminated string goes on to the end of the source.
    obtain rfl := Option.some.inj hf
    obtain ⟨after, happend, hfits⟩ := append_of_mem_places hx
    rw [hpiece] at hfits
    cases hfits
    rw [List.append_nil] at happend
    rw [Fault.line, happend]
    exact ⟨hthrough, le_refl _⟩
  · cases hf

end Lox.Source
