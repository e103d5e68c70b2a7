import Lox.Proofs.Program.Operators
import Lox.Proofs.Source.Layout
import Lox.Proofs.Source.Place
/-!
# Texts with a line feed between them

A line feed ends every piece but a string that is never closed
(`Piece.Fits.before_lineFeed`), so a text of closed pieces is cut the same
before it, and what follows it is cut as if it stood alone
(`cut_append_lineFeed`). The places of the joined text are those of the first
one and then those of the second one further down (`places_append_lineFeed`):
a scan finds the same in both, on later lines in the second
(`scan_append_lineFeed`).
-/

namespace Lox.Source

/-! ## Pieces before a line feed -/

/-- All pieces have an end but a string that is never closed. -/
def Piece.IsClosed : Piece → Prop
  | unterminated _ => False
  | _ => True

/-- **A line feed ends a piece**: what fits at the end of a text fits before
a line feed as well. -/
theorem Piece.Fits.before_lineFeed {p : Piece} {after : List Char} (h : p.Fits after)
    (hclosed : p.IsClosed) (more : List Char) : p.Fits (after ++ '\n' :: more) := by
  cases h with
  | blank hblank => exact .blank hblank
  | comment hcomment hend =>
    refine .comment hcomment fun c hc => ?_
    rcases after with _ | ⟨d, after⟩
    · exact (Option.some.inj hc).symm
    · exact hend c hc
  | token hlex hlong => exact .token hlex (hlong.before_lineFeed hlex more)
  | stray hc => exact .stray hc
  | unterminated => exact hclosed.elim

/-- **Two texts with a line feed between them are cut apart there.** -/
theorem cut_append_lineFeed {text : List Char} (h : ∀ p ∈ cut text, p.IsClosed)
    (more : List Char) : cut (text ++ '\n' :: more) = cut text ++ .gap ['\n'] :: cut more := by
  fun_induction cut text with
  | case1 => exact cut_of_fits (.blank rfl) rfl
  | case2 c rest ih =>
    rcases hread : Piece.read c rest with ⟨p, after⟩
    rw [hread] at ih h
    obtain ⟨hp, hps⟩ := List.forall_mem_cons.1 h
    have htext : p.text ++ (after ++ '\n' :: more) = c :: (rest ++ '\n' :: more) := by
      rw [← List.append_assoc, Piece.append_of_read hread, List.cons_append]
    rw [List.cons_append, List.cons_append, ← ih hps]
    exact cut_of_fits ((Piece.Fits.of_read hread).before_lineFeed hp more) htext

/-! ## Places further down -/

/-- A place in a text that more text was put before. -/
def Place.after (before : List Char) (x : Place) : Place :=
  ⟨before ++ x.before, x.piece⟩

/-- A fault on another line. -/
def Fault.mapLine (f : Int → Int) : Fault → Fault
  | stray c line => stray c (f line)
  | unterminated line => unterminated (f line)

/-- What a scan finds, on other lines. -/
def Scan.mapLine (f : Int → Int) (s : Scan) : Scan :=
  ⟨s.tokens.map (Token.mapLine f), s.faults.map (Fault.mapLine f)⟩

/-- Some pieces in their places, and then the others in theirs. -/
theorem placesFrom_append (before : List Char) (ps qs : List Piece) :
    placesFrom before (ps ++ qs)
      = placesFrom before ps ++ placesFrom (before ++ ps.flatMap Piece.text) qs := by
  induction ps generalizing before with
  | nil => rw [List.flatMap_nil, List.append_nil, List.nil_append, placesFrom, List.nil_append]
  | cons p ps ih =>
    rw [List.cons_append, placesFrom, placesFrom, ih, List.flatMap_cons, List.cons_append,
      List.append_assoc]

/-- More text before pieces moves all their places. -/
theorem placesFrom_after (before text : List Char) (ps : List Piece) :
    placesFrom (before ++ text) ps = (placesFrom text ps).map (Place.after before) := by
  induction ps generalizing text with
  | nil => rfl
  | cons p ps ih => rw [placesFrom, placesFrom, List.map_cons, List.append_assoc, ih, Place.after]

/-- A line in a text that more text was put before. -/
theorem lineAfter_append (before text : List Char) :
    lineAfter (before ++ text) = lineAfter text + before.count '\n' := by
  rw [lineAfter, lineAfter, List.count_append]
  omega

/-- A token further down is on a later line. -/
theorem Place.token?_after (before : List Char) (x : Place) :
    (x.after before).token? = x.token?.map (Token.mapLine (· + before.count '\n')) := by
  obtain ⟨start, p⟩ := x
  cases p <;>
    simp [Place.token?, Place.after, Place.through, Token.mapLine, lineAfter_append before]

/-- So is a fault. -/
theorem Place.fault?_after (before text : List Char) (x : Place) :
    (x.after before).fault? (before ++ text)
      = (x.fault? text).map (Fault.mapLine (· + before.count '\n')) := by
  obtain ⟨start, p⟩ := x
  cases p <;> simp [Place.fault?, Place.after, Fault.mapLine, lineAfter_append before]

/-- The fault that a closed piece is does not depend on where the text ends. -/
theorem Place.fault?_of_isClosed {x : Place} (h : x.piece.IsClosed) (text text' : List Char) :
    x.fault? text = x.fault? text' := by
  obtain ⟨start, p⟩ := x
  cases p with
  | unterminated => exact h.elim
  | gap | token | stray => rfl

/-! ## Joined sources -/

/-- The pieces in their places are the pieces. -/
theorem map_piece_placesFrom (before : List Char) (ps : List Piece) :
    (placesFrom before ps).map Place.piece = ps := by
  induction ps generalizing before with
  | nil => rfl
  | cons p ps ih => rw [placesFrom, List.map_cons, ih]

variable {a : String}

/-- **The places of two sources with a line feed between them** are those of
the first, the line feed, and those of the second, further down. -/
theorem places_append_lineFeed (h : ∀ p ∈ cut a.toList, p.IsClosed) (b : String) :
    places (a ++ "\n" ++ b) = places a ++ ⟨a.toList, .gap ['\n']⟩
      :: (places b).map (Place.after (a.toList ++ ['\n'])) := by
  have hjoined : (a ++ "\n" ++ b).toList = a.toList ++ '\n' :: b.toList := by
    rw [String.toList_append, String.toList_append, List.append_assoc]
    rfl
  rw [places, hjoined, cut_append_lineFeed h, placesFrom_append, flatMap_text_cut, placesFrom,
    places, places, ← placesFrom_after, List.append_nil]
  rfl

/-- So what is found in the places of the joined source is what is found in
those of the first, and what is found in those of the second, moved. -/
theorem filterMap_places_append_lineFeed {α : Type} {found? first? second? : Place → Option α}
    {move : α → α} (h : ∀ p ∈ cut a.toList, p.IsClosed) (b : String)
    (hfirst : ∀ x ∈ places a, found? x = first? x)
    (hlineFeed : found? ⟨a.toList, .gap ['\n']⟩ = none)
    (hsecond : ∀ x, found? (Place.after (a.toList ++ ['\n']) x) = (second? x).map move) :
    (places (a ++ "\n" ++ b)).filterMap found?
      = (places a).filterMap first? ++ ((places b).filterMap second?).map move := by
  rw [places_append_lineFeed h, List.filterMap_append, List.filterMap_cons_none hlineFeed,
    List.filterMap_congr hfirst, List.filterMap_map, List.map_filterMap]
  exact congrArg _ (List.filterMap_congr fun x _ => hsecond x)

/-- The characters of the joined source. -/
theorem toList_append_lineFeed (a b : String) :
    (a ++ "\n" ++ b).toList = a.toList ++ ['\n'] ++ b.toList := by
  rw [String.toList_append, String.toList_append]
  rfl

/-- The line feed leaves as many line feeds before the second source as the
line on which the first one ends. -/
theorem count_concat_lineFeed (text : List Char) :
    ((text ++ ['\n']).count '\n' : Int) = lineAfter text := by
  rw [lineAfter, List.count_append, List.count_singleton_self]
  omega

/-- **The tokens of two sources with a line feed between them** are those of
the first up to its end token, and those of the second on the lines after
it. -/
theorem tokens_append_lineFeed (h : ∀ p ∈ cut a.toList, p.IsClosed) (b : String) :
    (scan (a ++ "\n" ++ b)).tokens = (scan a).tokens.dropLast
      ++ (scan b).tokens.map (Token.mapLine (· + lineAfter a.toList)) := by
  have hfound := filterMap_places_append_lineFeed h b (fun _ _ => rfl) rfl
    (Place.token?_after (a.toList ++ ['\n']))
  have hend : Token.eof (lineAfter (a ++ "\n" ++ b).toList)
      = (Token.eof (lineAfter b.toList)).mapLine (· + lineAfter a.toList) := by
    rw [toList_append_lineFeed, lineAfter_append, count_concat_lineFeed]
    rfl
  rw [tokens_eq_places, hfound, hend, count_concat_lineFeed, tokens_eq_places, tokens_eq_places,
    List.dropLast_concat, List.map_append, List.append_assoc, List.map_singleton]

/-- **So are its faults.** -/
theorem faults_append_lineFeed (h : ∀ p ∈ cut a.toList, p.IsClosed) (b : String) :
    (scan (a ++ "\n" ++ b)).faults = (scan a).faults
      ++ (scan b).faults.map (Fault.mapLine (· + lineAfter a.toList)) := by
  have hclosed : ∀ x ∈ places a, x.piece.IsClosed := fun x hx =>
    h _ (map_piece_placesFrom [] (cut a.toList) ▸ List.mem_map_of_mem hx)
  rw [faults_eq_places, toList_append_lineFeed, filterMap_places_append_lineFeed h b
    (fun x hx => Place.fault?_of_isClosed (hclosed x hx) _ a.toList) rfl
    (Place.fault?_after (a.toList ++ ['\n']) b.toList), count_concat_lineFeed, faults_eq_places,
    faults_eq_places]

/-! ## Sources without errors -/

variable {lenient : Bool} {ts : List Token}

/-- A scan with a result has no errors. -/
theorem Scan.errors_of_result {s : Scan} (h : s.result lenient = .ok ts) :
    s.errors lenient = [] := by
  rw [Scan.result] at h
  split at h
  · assumption
  · cases h

/-- A scan fails with its errors, if it has any. -/
theorem Scan.result_eq_error_iff {s : Scan} {faults : List Fault} :
    s.result lenient = .error faults ↔ s.errors lenient = faults ∧ faults ≠ [] := by
  rw [Scan.result]
  split
  · next hnone => simp [hnone, eq_comm]
  · next hne =>
    rw [Except.error.injEq]
    exact (and_iff_left_of_imp fun heq => heq ▸ hne).symm

/-- Where a scan has a result, no string is left open: that is an error in either
mode. -/
theorem isClosed_of_result (h : (scan a).result lenient = .ok ts) :
    ∀ p ∈ cut a.toList, p.IsClosed := by
  intro p hp
  rw [← map_piece_placesFrom [] (cut a.toList)] at hp
  obtain ⟨x, hx, rfl⟩ := List.mem_map.1 hp
  rcases hpiece : x.piece with text | ⟨kind, text⟩ | c | text
  case unterminated =>
    have hfault : .unterminated (lineAfter a.toList) ∈ (scan a).faults := by
      rw [faults_eq_places]
      exact List.mem_filterMap.2 ⟨x, hx, by rw [Place.fault?, hpiece]⟩
    have hnone := Scan.errors_of_result h
    rw [Scan.errors_eq_filter, List.filter_eq_nil_iff] at hnone
    exact absurd (hnone _ hfault) (by simp [Fault.isStray])
  all_goals trivial

/-- A fault is an error on any line or on none. -/
theorem Fault.isStray_mapLine (f : Int → Int) (fault : Fault) :
    (fault.mapLine f).isStray = fault.isStray := by
  cases fault <;> rfl

/-- **Scanning goes over line feeds**, in either mode: if a source has a result,
then with a line feed and another source after it the tokens are its own up to
its end token, and those of the other one on later lines. Only the other one
has errors, and they are on later lines as well; the notices are those of the
first, and then those of the other one on later lines. -/
theorem scan_append_lineFeed (h : (scan a).result lenient = .ok ts) (b : String) :
    let later : Int → Int := (· + (1 + a.toList.count '\n'))
    let joined := scan (a ++ "\n" ++ b)
    ∃ init, ts = init ++ [Token.eof (1 + a.toList.count '\n')] ∧
      joined.tokens = init ++ (scan b).tokens.map (Token.mapLine later) ∧
      joined.errors lenient = ((scan b).errors lenient).map (Fault.mapLine later) ∧
      joined.notices lenient = (scan a).notices lenient
        ++ ((scan b).mapLine later).notices lenient ∧
      (∀ us, (scan b).result lenient = .ok us →
        joined.result lenient = .ok (init ++ us.map (Token.mapLine later))) ∧
      ∀ faults, (scan b).result lenient = .error faults →
        joined.result lenient = .error (faults.map (Fault.mapLine later)) := by
  intro later joined
  have hclosed := isClosed_of_result h
  have hnone := Scan.errors_of_result h
  obtain rfl := tokens_of_result h
  have htokens : joined.tokens = (scan a).tokens.dropLast
      ++ (scan b).tokens.map (Token.mapLine later) := tokens_append_lineFeed hclosed b
  have hfaults : joined.faults = (scan a).faults ++ (scan b).faults.map (Fault.mapLine later) :=
    faults_append_lineFeed hclosed b
  have herrors : joined.errors lenient = ((scan b).errors lenient).map (Fault.mapLine later) := by
    rw [Scan.errors_eq_filter] at hnone
    rw [Scan.errors_eq_filter, Scan.errors_eq_filter, hfaults, List.filter_append, hnone,
      List.nil_append, List.filter_map]
    simp only [Function.comp_def, Fault.isStray_mapLine]
  refine ⟨(scan a).tokens.dropLast, ?_, htokens, herrors, ?_, fun us hb => ?_, fun faults hb => ?_⟩
  · rw [tokens_eq_places, List.dropLast_concat]
    rfl
  · cases lenient
    · rfl
    · exact (congrArg (List.filterMap Fault.notice?) hfaults).trans List.filterMap_append
  · obtain rfl := tokens_of_result hb
    rw [Scan.result, herrors, Scan.errors_of_result hb]
    exact congrArg Except.ok htokens
  · obtain ⟨rfl, hne⟩ := Scan.result_eq_error_iff.1 hb
    exact Scan.result_eq_error_iff.2 ⟨herrors, fun hmap => hne (List.map_eq_nil_iff.1 hmap)⟩

set_option maxRecDepth 2000 in
/-- A lenient scan of a comment without line feed after a rejected character,
and then a string that is never closed. -/
theorem scan_append_lineFeed_open_string :
    let joined := scan ("a @ // b" ++ "\n" ++ "#\n=\"")
    (scan "a @ // b").result true = .ok [⟨.identifier, "a", 1, .str "a"⟩, .eof 1] ∧
      joined.notices true
        = ["[line 1] Unexpected character '@'", "[line 2] Unexpected character '#'"] ∧
      joined.result true = .error [.unterminated 3] := by
  have hscan : (scan "a @ // b").result true = .ok [⟨.identifier, "a", 1, .str "a"⟩, .eof 1] := by
    cbv
  have hopen : (scan "#\n=\"").result true = .error [.unterminated 2] := by cbv
  obtain ⟨init, -, -, -, hnotices, -, hfails⟩ := scan_append_lineFeed hscan "#\n=\""
  exact ⟨hscan, hnotices.trans (by cbv), hfails _ hopen⟩

end Lox.Source
