import Lox.Frontend
import Lox.Proofs.Source.Layout
/-!
# Programs and the layout of their source

A source is a program if it spells tokens that derive it
(`Frontend.read_eq_ok_iff`), so what is known of the tokens of a source is
known of its program: without the white space around it a source is the same
program on other lines (`Frontend.read_trim`), and sources joined by line
feeds are their programs, one after the other (`Frontend.read_lines`).
-/

namespace Lox

open Program Source

/-- A line with its program, and its place among other lines: how many line
feeds there are before it. -/
structure Passage where
  line : String
  own : List Stmt
  before : Int
  read : ({} : Frontend).read line = .ok own

namespace Passage

/-- The part of a longer program that a passage is. -/
def part (p : Passage) : List Stmt :=
  p.own.map (Stmt.mapLine (· + p.before))

/-- A passage with more lines before it. -/
def moveDown (k : Int) (p : Passage) : Passage :=
  { p with before := p.before + k }

theorem part_moveDown (k : Int) (p : Passage) :
    (p.moveDown k).part = p.part.map (Stmt.mapLine (· + k)) := by
  rw [part, part, List.map_map]
  refine List.map_congr_left fun s _ => ?_
  simp only [Function.comp_apply, Stmt.mapLine_mapLine]
  congr 1
  funext l
  exact (add_assoc l p.before k).symm

end Passage

namespace Frontend

/-- Reading is scanning and then parsing. -/
theorem read_eq_ok_iff_parse {source : String} {ss : List Stmt} :
    ({} : Frontend).read source = .ok ss ↔
      ∃ ts, (scan source).result false = .ok ts ∧ parse false ts = .ok ss := by
  simp only [read, tokens, Bool.false_eq_true, if_false]
  rcases (scan source).result false with faults | ts
  · simp [Except.mapError, bind, Except.bind]
  · rcases hparse : parse false ts with faults | ss'
    · simp [Except.mapError, bind, Except.bind, hparse]
    · simp [Except.mapError, bind, Except.bind, hparse]

/-- **A source is a program** if it spells tokens that derive it, and only
then. -/
theorem read_eq_ok_iff {source : String} {ss : List Stmt} :
    ({} : Frontend).read source = .ok ss ↔
      ∃ ts, Spells 1 source.toList ts ∧ DerivesProgram ts ss := by
  rw [read_eq_ok_iff_parse]
  constructor
  · rintro ⟨ts, hscan, hparse⟩
    obtain ⟨us, rfl, hspells⟩ := scan_eq_ok_iff.1 hscan
    exact ⟨us, hspells, (parse_concat_eq_ok_iff hspells.ne_eof rfl).1 hparse⟩
  · rintro ⟨us, hspells, hder⟩
    exact ⟨_, scan_eq_ok_iff.2 ⟨us, rfl, hspells⟩,
      (parse_concat_eq_ok_iff hspells.ne_eof rfl).2 hder⟩

/-- **Two programs with a line feed between them are one**, the second of
them on the lines after the first. -/
theorem read_append_line {source source' : String} {ss ss' : List Stmt}
    (h : ({} : Frontend).read source = .ok ss) (h' : ({} : Frontend).read source' = .ok ss') :
    ({} : Frontend).read (source ++ "\n" ++ source')
      = .ok (ss ++ ss'.map (Stmt.mapLine (· + (source.toList.count '\n' + 1)))) := by
  obtain ⟨ts, hspells, hder⟩ := read_eq_ok_iff.1 h
  obtain ⟨us, hspells', hder'⟩ := read_eq_ok_iff.1 h'
  refine read_eq_ok_iff.2 ⟨_, ?_, hder.append (hder'.mapLine _)⟩
  have hmoved := hspells'.mapLine (source.toList.count '\n' + 1)
  rw [← add_assoc] at hmoved
  simpa using hspells.append_line hmoved

/-- **Without the white space around it a source is the same program**, on
other lines. -/
theorem read_trim {source : String} {ss : List Stmt} (h : ({} : Frontend).read source = .ok ss) :
    ({} : Frontend).read (String.ofList (Unicode.trim source.toList))
      = .ok (ss.map (Stmt.mapLine
          (· - (source.toList.takeWhile Unicode.isSpace).count '\n'))) := by
  obtain ⟨ts, hspells, hder⟩ := read_eq_ok_iff.1 h
  refine read_eq_ok_iff.2 ⟨_, ?_, hder.mapLine _⟩
  have hmoved := hspells.trim.mapLine
    (-((source.toList.takeWhile Unicode.isSpace).count '\n' : Int))
  rw [add_neg_cancel_right] at hmoved
  rwa [String.toList_ofList]

/-- **Lines that are programs are one program together**: each of them is a
passage of it. -/
theorem read_lines {lines : List String}
    (h : ∀ line ∈ lines, ∃ ss, ({} : Frontend).read line = .ok ss) :
    ∃ passages : List Passage, passages.map Passage.line = lines ∧
      ({} : Frontend).read ("\n".intercalate lines) = .ok (passages.flatMap Passage.part) := by
  induction lines with
  | nil => exact ⟨[], rfl, read_eq_ok_iff.2 ⟨[], .done, .done⟩⟩
  | cons line lines ih =>
    obtain ⟨⟨own, hread⟩, hlines⟩ := List.forall_mem_cons.1 h
    obtain ⟨passages, hmap, hrest⟩ := ih hlines
    have hpart : (Passage.mk line own 0 hread).part = own := by
      simp [Passage.part, ← Function.id_def]
    obtain rfl | hne := eq_or_ne lines []
    · obtain rfl := List.map_eq_nil_iff.1 hmap
      exact ⟨[⟨line, own, 0, hread⟩], rfl, by simpa [hpart] using hread⟩
    · have hjoin : "\n".intercalate (line :: lines) = line ++ "\n" ++ "\n".intercalate lines := by
        rw [← String.toList_inj]
        simp [String.toList_intercalate, List.intercalate_cons_of_ne_nil, hne]
      refine ⟨⟨line, own, 0, hread⟩ ::
        passages.map (Passage.moveDown (line.toList.count '\n' + 1)), ?_, ?_⟩
      · rw [List.map_cons, List.map_map, ← hmap]
        rfl
      · rw [hjoin, read_append_line hread hrest, List.flatMap_cons, hpart, List.map_flatMap,
          List.flatMap_map]
        simp only [Passage.part_moveDown]

end Frontend

end Lox
