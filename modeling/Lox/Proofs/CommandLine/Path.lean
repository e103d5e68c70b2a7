import Lox.CommandLine.Run
import Mathlib
/-!
# Paths in normal form

A path in normal form is at most two slashes and parts that matter, with a
slash between them (`normalize_joined`), and every path has such a normal form
(`exists_normalize`). The path of the document that is written for a source is
in normal form again, so it names the same file when it is given as a path
(`normalize_treePath`).
-/

namespace Lox.CommandLine

/-- A part of a path that is kept. -/
structure IsPart (part : List Char) : Prop where
  no_slash : '/' ∉ part
  ne_nil : part ≠ []
  ne_dot : part ≠ ['.']

/-- Slashes, and parts with a slash between them. -/
def joined (slashes : Nat) (parts : List (List Char)) : List Char :=
  List.replicate slashes '/' ++ ['/'].intercalate parts

/-- Parts hold no slash. -/
theorem no_slash_of_mem_splitOn (text : List Char) :
    ∀ part ∈ text.splitOn '/', '/' ∉ part := by
  induction text with
  | nil => simp
  | cons c text ih =>
    rw [List.splitOn_cons_eq_if_modifyHead]
    split
    · exact List.forall_mem_cons.2 ⟨List.not_mem_nil, ih⟩
    · next hc =>
      rcases hsplit : text.splitOn '/' with _ | ⟨part, parts⟩
      · exact absurd hsplit (List.splitOn_ne_nil _ _)
      · rw [hsplit] at ih
        obtain ⟨hpart, hparts⟩ := List.forall_mem_cons.1 ih
        refine List.forall_mem_cons.2 ⟨?_, hparts⟩
        rw [List.mem_cons, not_or]
        exact ⟨fun h => hc (beq_iff_eq.2 h.symm), hpart⟩

/-- Slashes in front make empty parts. -/
theorem splitOn_joined (slashes : Nat) {parts : List (List Char)}
    (hparts : ∀ part ∈ parts, IsPart part) (hne : parts ≠ []) :
    (joined slashes parts).splitOn '/' = List.replicate slashes [] ++ parts := by
  induction slashes with
  | zero => exact List.splitOn_intercalate '/' (fun part h => (hparts part h).no_slash) hne
  | succ slashes ih =>
    have hcons : joined (slashes + 1) parts = '/' :: joined slashes parts := rfl
    rw [hcons, List.splitOn_cons_eq_if_modifyHead, if_pos (by simp), ih]
    rfl

/-- After the slashes in front comes something else. -/
theorem exists_cons_intercalate {parts : List (List Char)} (hparts : ∀ part ∈ parts, IsPart part)
    (hne : parts ≠ []) : ∃ c rest, ['/'].intercalate parts = c :: rest ∧ c ≠ '/' := by
  obtain ⟨part, parts, rfl⟩ := List.exists_cons_of_ne_nil hne
  obtain ⟨hslash, hnil, -⟩ := hparts part List.mem_cons_self
  obtain ⟨c, w, rfl⟩ := List.exists_cons_of_ne_nil hnil
  rw [List.mem_cons, not_or] at hslash
  cases parts with
  | nil => exact ⟨c, w, by simp, Ne.symm hslash.1⟩
  | cons next parts => exact ⟨c, _, List.intercalate_cons_cons, Ne.symm hslash.1⟩

/-- The slashes in front are those that are kept. -/
theorem rootOf_joined {slashes : Nat} (hslashes : slashes ≤ 2) {parts : List (List Char)}
    (hparts : ∀ part ∈ parts, IsPart part) (hne : parts ≠ []) :
    rootOf (joined slashes parts) = String.ofList (List.replicate slashes '/') := by
  obtain ⟨c, rest, hrest, hc⟩ := exists_cons_intercalate hparts hne
  have htake : (joined slashes parts).takeWhile (· == '/') = List.replicate slashes '/' := by
    rw [joined, hrest, List.takeWhile_append_of_pos fun d hd => by
      simp [List.eq_of_mem_replicate hd]]
    simp [hc]
  rw [rootOf, htake, List.length_replicate]
  interval_cases slashes <;> rfl

/-- The text of a root and parts. -/
theorem root_append_parts (slashes : Nat) (parts : List (List Char)) :
    String.ofList (List.replicate slashes '/') ++ "/".intercalate (parts.map String.ofList)
      = String.ofList (joined slashes parts) := by
  rw [← String.toList_inj, String.toList_append, String.toList_intercalate, List.map_map,
    String.toList_ofList, String.toList_ofList, joined]
  simp [Function.comp_def]

/-- Parts that are kept are the parts of a path. -/
theorem partsOf_joined (slashes : Nat) {parts : List (List Char)}
    (hparts : ∀ part ∈ parts, IsPart part) (hne : parts ≠ []) :
    partsOf (String.ofList (joined slashes parts)) = parts.map String.ofList := by
  have hempty : (List.replicate slashes "").filter (fun part => part != "" && part != ".") = [] :=
    List.filter_eq_nil_iff.2 fun part h => by simp [List.eq_of_mem_replicate h]
  have hkept : (parts.map String.ofList).filter (fun part => part != "" && part != ".")
      = parts.map String.ofList := by
    refine List.filter_eq_self.2 fun part h => ?_
    obtain ⟨part, hpart, rfl⟩ := List.mem_map.1 h
    obtain ⟨-, hnil, hdot⟩ := hparts part hpart
    simp only [Bool.and_eq_true, bne_iff_ne, ne_eq, ← String.toList_inj, String.toList_ofList]
    exact ⟨hnil, hdot⟩
  rw [partsOf, String.toList_ofList, splitOn_joined slashes hparts hne, List.map_append,
    List.map_replicate, List.filter_append, hkept]
  exact congrArg (· ++ parts.map String.ofList) hempty

/-- **What is in normal form is left as it is.** -/
theorem normalize_joined {slashes : Nat} (hslashes : slashes ≤ 2) {parts : List (List Char)}
    (hparts : ∀ part ∈ parts, IsPart part) (hne : parts ≠ []) :
    normalize (String.ofList (joined slashes parts)) = String.ofList (joined slashes parts) := by
  have hfull : String.ofList (joined slashes parts) ≠ "" := by
    obtain ⟨c, rest, hrest, -⟩ := exists_cons_intercalate hparts hne
    simp [joined, hrest, ← String.toList_inj]
  rw [normalize, String.toList_ofList, rootOf_joined hslashes hparts hne,
    partsOf_joined slashes hparts hne, root_append_parts]
  exact if_neg hfull

/-- **Every path has a normal form**: a dot, or slashes and parts. -/
theorem exists_normalize (path : String) :
    ∃ slashes parts, slashes ≤ 2 ∧ (∀ part ∈ parts, IsPart part) ∧
      normalize path = if joined slashes parts = [] then "." else
        String.ofList (joined slashes parts) := by
  obtain ⟨slashes, hslashes, hroot⟩ : ∃ slashes ≤ 2,
      rootOf path.toList = String.ofList (List.replicate slashes '/') := by
    rw [rootOf]
    split
    · exact ⟨0, by omega, rfl⟩
    · exact ⟨2, by omega, rfl⟩
    · exact ⟨1, by omega, rfl⟩
  let parts := (path.toList.splitOn '/').filter fun part => part != [] && part != ['.']
  have hparts : partsOf path = parts.map String.ofList := by
    rw [partsOf, List.filter_map]
    refine congrArg (List.map String.ofList) (List.filter_congr fun part _ => ?_)
    rw [Function.comp_apply, Bool.eq_iff_iff]
    simp [← String.toList_inj]
  refine ⟨slashes, parts, hslashes, fun part hpart => ?_, ?_⟩
  · obtain ⟨hmem, hkept⟩ := List.mem_filter.1 hpart
    simp only [Bool.and_eq_true, bne_iff_ne, ne_eq] at hkept
    exact ⟨no_slash_of_mem_splitOn _ part hmem, hkept.1, hkept.2⟩
  · rw [normalize, hroot, hparts, root_append_parts]
    simp [← String.toList_inj]

/-- What goes on after the last part is a part of it. -/
theorem joined_concat (slashes : Nat) (init : List (List Char)) (last more : List Char) :
    joined slashes (init ++ [last ++ more]) = joined slashes (init ++ [last]) ++ more := by
  have hinter : ['/'].intercalate (init ++ [last ++ more])
      = ['/'].intercalate (init ++ [last]) ++ more := by
    induction init with
    | nil => simp
    | cons part init ih =>
      rw [List.cons_append, List.cons_append, List.intercalate_cons_of_ne_nil (by simp),
        List.intercalate_cons_of_ne_nil (by simp), ih]
      simp
  rw [joined, hinter, ← List.append_assoc, joined]

/-- **The path of a written document is in normal form.** -/
theorem normalize_treePath (path : String) :
    normalize (Options.treePath path) = Options.treePath path := by
  obtain ⟨slashes, parts, hslashes, hparts, hnormal⟩ := exists_normalize path
  obtain ⟨parts', hparts', hne, htree⟩ : ∃ parts', (∀ part ∈ parts', IsPart part) ∧ parts' ≠ [] ∧
      Options.treePath path = String.ofList (joined slashes parts') := by
    rw [Options.treePath, hnormal]
    rcases List.eq_nil_or_concat' parts with rfl | ⟨init, last, rfl⟩
    · -- Nothing is left but slashes, or a dot, and the ending is all of the last part.
      obtain _ | slashes := slashes
      · refine ⟨["..ast.json".toList], ?_, by simp, rfl⟩
        simp only [List.forall_mem_singleton]
        exact ⟨by decide, by decide, by decide⟩
      · refine ⟨[".ast.json".toList], ?_, by simp, ?_⟩
        · simp only [List.forall_mem_singleton]
          exact ⟨by decide, by decide, by decide⟩
        · rw [if_neg (by simp [joined]), ← String.toList_inj]
          simp [joined]
    · obtain ⟨c, rest, hrest, -⟩ := exists_cons_intercalate hparts (by simp)
      obtain ⟨hinit, hlast⟩ := List.forall_mem_append.1 hparts
      obtain ⟨hslash, hnil, -⟩ := hlast last List.mem_cons_self
      refine ⟨init ++ [last ++ ".ast.json".toList], ?_, by simp, ?_⟩
      · refine List.forall_mem_append.2 ⟨hinit, ?_⟩
        simp only [List.forall_mem_singleton]
        refine ⟨?_, by simp, ?_⟩
        · rw [List.mem_append, not_or]
          exact ⟨hslash, by decide⟩
        · intro h
          have := congrArg List.length h
          simp at this
      · rw [joined_concat, if_neg (by simp [joined, hrest]), ← String.toList_inj]
        simp
  rw [htree, normalize_joined hslashes hparts' hne]

end Lox.CommandLine
