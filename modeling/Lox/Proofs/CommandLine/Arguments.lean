import Lox.CommandLine.Run
import Mathlib
/-!
# Options before a file

The options that say how a program is read and traced may stand in any
number and order before the option or the value that names a file. What such
a command line comes to is what the file alone would, with the options set
one after another (`parseArguments_append`).
-/

namespace Lox.CommandLine

/-- An option that names no file, as it is spelled in full. -/
inductive Flag where
  | verbose
  | lenient
  | single
  | frontend (grammar : Bool)

namespace Flag

/-- The texts of an option. -/
def texts : Flag → List String
  | verbose => ["-v"]
  | lenient => ["--lenient"]
  | single => ["--single-statement"]
  | frontend grammar => ["--frontend", if grammar then "lark" else "recursive"]

/-- The options with one more set. -/
def set (o : Options) : Flag → Options
  | verbose => { o with verbosity := o.verbosity + 1 }
  | lenient => { o with lenient := true }
  | single => { o with single := true }
  | frontend grammar => { o with grammar }

end Flag

/-- The texts of options, in order. -/
def flagTexts (flags : List Flag) : List String :=
  flags.flatMap Flag.texts

/-- Options set one after another. -/
def setFlags (flags : List Flag) (o : Options) : Options :=
  flags.foldl Flag.set o

/-- A text that fits no option is its own value, if it is one. -/
theorem ofOther_eq_value {text : List Char} {value : String}
    (h : Argument.ofOther text = .value value) : value = String.ofList text := by
  rw [Argument.ofOther] at h
  split at h
  · exact (Argument.value.inj h).symm
  · cases h

/-- A text that is taken as a value is that value. -/
theorem ofText_eq_value {text value : String} (h : Argument.ofText text = .value value) :
    value = text := by
  unfold Argument.ofText at h
  split at h
  · next c rest htext =>
    have hother : Argument.ofOther ('-' :: c :: rest) = .value value → value = text := fun h => by
      rw [ofOther_eq_value h, ← htext, String.ofList_toList]
    dsimp only at h
    repeat' split at h
    all_goals first | exact hother h | cases h
  · exact (Argument.value.inj h).symm

/-- The arguments of an option. -/
def Flag.arguments : Flag → List Argument
  | verbose => [.switch .verbose none]
  | lenient => [.switch .lenient none]
  | single => [.switch .single none]
  | frontend grammar => [.switch .frontend none, .value (if grammar then "lark" else "recursive")]

/-- The texts of options are taken for the options. -/
theorem map_ofText_flagTexts (flags : List Flag) :
    (flagTexts flags).map Argument.ofText = flags.flatMap Flag.arguments := by
  have hflag : ∀ flag : Flag, flag.texts.map Argument.ofText = flag.arguments := by
    rintro (_ | _ | _ | _ | _) <;> rfl
  rw [flagTexts, List.map_flatMap]
  exact congrArg (flags.flatMap ·) (funext hflag)

/-- None of the arguments of an option is two dashes, and none is
ambiguous. -/
theorem ne_separator_of_mem_arguments {flag : Flag} :
    ∀ argument ∈ flag.arguments, argument ≠ .separator ∧ argument ≠ .ambiguous := by
  cases flag <;> simp [Flag.arguments]

/-- Texts before two dashes are told from those that follow. -/
theorem splitSeparator_append {texts : List String}
    (h : ∀ text ∈ texts, Argument.ofText text ≠ .separator) (rest : List String) :
    Argument.splitSeparator (texts ++ rest)
      = (texts.map Argument.ofText ++ (Argument.splitSeparator rest).1,
          (Argument.splitSeparator rest).2) := by
  induction texts with
  | nil => rfl
  | cons text texts ih =>
    obtain ⟨htext, htexts⟩ := List.forall_mem_cons.1 h
    rw [List.cons_append, Argument.splitSeparator, ih htexts]
    split
    · contradiction
    · rfl

/-- An option is read before what follows it. -/
theorem readArguments_flag (flag : Flag) (o : Options) (rest : List Argument) :
    readArguments { options := o } (flag.arguments ++ rest)
      = readArguments { options := flag.set o } rest := by
  cases flag with
  | verbose | lenient | single =>
    rw [Flag.arguments, List.singleton_append, readArguments.eq_def]
    rfl
  | frontend grammar =>
    rw [Flag.arguments, List.cons_append, List.singleton_append, readArguments.eq_def]
    cases grammar <;> rfl

/-- Options are read before what follows them. -/
theorem readArguments_flags (flags : List Flag) (o : Options) (rest : List Argument) :
    readArguments { options := o } (flags.flatMap Flag.arguments ++ rest)
      = readArguments { options := setFlags flags o } rest := by
  induction flags generalizing o with
  | nil => rfl
  | cons flag flags ih =>
    rw [List.flatMap_cons, List.append_assoc, readArguments_flag, ih]
    rfl

/-- Whether an argument is an ambiguous abbreviation. -/
def Argument.isAmbiguous : Argument → Bool
  | .ambiguous => true
  | _ => false

/-- **Options come before a file**: what a command line that starts with
them comes to. -/
theorem parseArguments_flags (flags : List Flag) (rest : List String) :
    parseArguments (flagTexts flags ++ rest) =
      if (Argument.splitSeparator rest).1.any Argument.isAmbiguous then .error .usage
      else (readArguments { options := setFlags flags {} } (Argument.splitSeparator rest).1).bind
        (finish · (Argument.splitSeparator rest).2) := by
  have hflags : ∀ argument ∈ flags.flatMap Flag.arguments,
      argument ≠ .separator ∧ argument ≠ .ambiguous := by
    intro argument h
    obtain ⟨flag, -, h⟩ := List.mem_flatMap.1 h
    exact ne_separator_of_mem_arguments argument h
  have hsplit : Argument.splitSeparator (flagTexts flags ++ rest)
      = (flags.flatMap Flag.arguments ++ (Argument.splitSeparator rest).1,
          (Argument.splitSeparator rest).2) := by
    rw [splitSeparator_append, map_ofText_flagTexts]
    intro text htext
    refine (hflags _ ?_).1
    rw [← map_ofText_flagTexts]
    exact List.mem_map_of_mem htext
  have hambiguous : (flags.flatMap Flag.arguments).any Argument.isAmbiguous = false := by
    refine List.any_eq_false.2 fun argument h => ?_
    have := (hflags argument h).2
    cases argument <;> simp_all [Argument.isAmbiguous]
  have hparse : ∀ texts, parseArguments texts =
      if (Argument.splitSeparator texts).1.any Argument.isAmbiguous then .error .usage
      else (readArguments {} (Argument.splitSeparator texts).1).bind
        (finish · (Argument.splitSeparator texts).2) := fun _ => rfl
  rw [hparse, hsplit, List.any_append, hambiguous, Bool.false_or, readArguments_flags]

/-- Options name no file. -/
theorem file_setFlags (flags : List Flag) (o : Options) :
    (setFlags flags o).file = o.file ∧ (setFlags flags o).program = o.program := by
  induction flags generalizing o with
  | nil => exact ⟨rfl, rfl⟩
  | cons flag flags ih =>
    refine (ih (flag.set o)).imp (·.trans ?_) (·.trans ?_) <;> cases flag <;> rfl

/-- An option that takes a value is refused without one. -/
theorem readArguments_refused {s : Switch} (htakes : s.takesValue = true) (p : Progress)
    {rest : List Argument} (hrest : ∀ value more, rest ≠ .value value :: more) :
    readArguments p (.switch s none :: rest) = .error .usage := by
  rw [readArguments]
  · exact if_pos htakes
  · exact hrest

/-- **An option that names a file**, after others: the name must be a text
that is taken as a value. -/
theorem parseArguments_file (flags : List Flag) {spelling : String} {s : Switch}
    (hspelling : Argument.ofText spelling = .switch s none) (hs : s ≠ .frontend)
    (htakes : s.takesValue = true) (path : String) :
    parseArguments (flagTexts flags ++ [spelling, path])
      = match Argument.ofText path with
        | .value _ => .ok { setFlags flags {} with file := some (s, path) }
        | _ => .error .usage := by
  obtain ⟨hfile, -⟩ := file_setFlags flags {}
  have hset : (setFlags flags {}).setValue s path
      = .ok { setFlags flags {} with file := some (s, path) } := by
    cases s <;> first | exact absurd rfl hs | simp [Options.setValue, hfile]
  rw [parseArguments_flags, Argument.splitSeparator, hspelling, Argument.splitSeparator]
  cases hpath : Argument.ofText path with
  | value text =>
    obtain rfl := ofText_eq_value hpath
    have hread : readArguments { options := setFlags flags {} } [.switch s none, .value text]
        = .ok { options := { setFlags flags {} with file := some (s, text) } } := by
      rw [readArguments.eq_def]
      simp only [htakes, if_true, hset]
      rfl
    simp [Argument.isAmbiguous, Argument.splitSeparator, hread, Except.bind, finish]
  | separator | switch | group | unknown | ambiguous =>
    simp [Argument.isAmbiguous, Argument.splitSeparator, readArguments_refused htakes,
      Except.bind]

/-- **A value names the program**, after options. -/
theorem parseArguments_program (flags : List Flag) {path : String}
    (hpath : Argument.ofText path = .value path) :
    parseArguments (flagTexts flags ++ [path])
      = .ok { setFlags flags {} with program := some path } := by
  obtain ⟨-, hprogram⟩ := file_setFlags flags {}
  rw [parseArguments_flags, Argument.splitSeparator, hpath, Argument.splitSeparator]
  have hread : readArguments { options := setFlags flags {} } [.value path]
      = .ok ⟨{ setFlags flags {} with program := some path }, true, false⟩ := by
    rw [readArguments.eq_def]
    simp only [hprogram]
    rfl
  simp [Argument.isAmbiguous, hread, Except.bind, finish]

end Lox.CommandLine
