import Lox.Unicode.Numeric
/-!
# Command-line arguments

Options may be abbreviated to any prefix that fits one of them alone, may carry their value after an
equals sign, and, when they have a single letter, may be grouped behind one dash. Everything after
two dashes is a value. One free value names the program file; the options that name a file of
their own exclude one another. Arguments that are left over are an error only once all options have
been taken, so a request for help among them still counts.
-/

namespace Lox.CommandLine

/-- The options. -/
inductive Switch where
  | help
  | verbose
  | lenient
  | single
  | frontend
  | tokens
  | printTree
  | emitTree
  | runTree
  deriving DecidableEq, Repr

namespace Switch

/-- The spellings of the options. -/
def spellings : List (String × Switch) :=
  [("-h", help), ("--help", help), ("-v", verbose), ("--lenient", lenient),
   ("--single-statement", single), ("--frontend", frontend), ("--tokens", tokens),
   ("--print-ast", printTree), ("--emit-ast", emitTree), ("--ast", runTree)]

/-- Whether an option takes a value. -/
def takesValue : Switch → Bool
  | frontend | tokens | printTree | emitTree | runTree => true
  | help | verbose | lenient | single => false

end Switch

/-- What an argument is, before the options take their values. -/
inductive Argument where
  | value (text : String)
  /-- Two dashes alone. -/
  | separator
  /-- An option, with the value it carries. -/
  | switch (s : Switch) (given : Option String)
  /-- A letter option with more letters behind it. -/
  | group (s : Switch) (letters : List Char)
  /-- An option that is not known. -/
  | unknown
  /-- An abbreviation that fits several options. -/
  | ambiguous

/-- The part before the first equals sign, and the part after it. -/
def splitEquals (text : List Char) : List Char × Option (List Char) :=
  match text.dropWhile (· != '=') with
  | [] => (text, none)
  | _ :: after => (text.takeWhile (· != '='), some after)

/-- Whether a text is one decimal digit or more, with perhaps a line feed at its end. -/
def isDigits (text : List Char) : Bool :=
  let after := text.dropWhile Unicode.isDecimalDigit
  !(text.takeWhile Unicode.isDecimalDigit).isEmpty && (after == [] || after == ['\n'])

/-- Whether a text is a dash and a decimal number. -/
def isNegativeNumber : List Char → Bool
  | '-' :: rest =>
    isDigits rest || match rest.dropWhile Unicode.isDecimalDigit with
      | '.' :: fraction => isDigits fraction
      | _ => false
  | _ => false

namespace Argument

/-- An argument that fits no option: some look like options and are values all the same. -/
def ofOther (text : List Char) : Argument :=
  if isNegativeNumber text || text.contains ' ' then value (String.ofList text) else unknown

/-- What a text makes as an argument. -/
def ofText (text : String) : Argument :=
  match text.toList with
  | '-' :: c :: rest =>
    let chars := '-' :: c :: rest
    let (name, given) := splitEquals chars
    let given := given.map String.ofList
    if text = "--" then separator
    else match Switch.spellings.lookup text, Switch.spellings.lookup (String.ofList name) with
      | some s, _ => switch s none
      | none, some s => switch s given
      | none, none =>
        if c = '-' then
          match Switch.spellings.filter fun entry => name.isPrefixOf entry.1.toList with
          | [] => ofOther chars
          | [(_, s)] => switch s given
          | _ => ambiguous
        else match Switch.spellings.lookup (String.ofList ['-', c]) with
          | some s => group s rest
          | none => ofOther chars
  | _ => value text

/-- The arguments up to two dashes, and those after them, which are all values. -/
def splitSeparator : List String → List Argument × Option (List String)
  | [] => ([], none)
  | text :: texts =>
    match ofText text with
    | separator => ([], some texts)
    | argument =>
      let (arguments, rest) := splitSeparator texts
      (argument :: arguments, rest)

end Argument

/-- Why a command line is not carried out. -/
inductive Refusal where
  /-- Help was asked for. -/
  | help
  /-- The arguments do not fit the options. -/
  | usage
  deriving DecidableEq, Repr

/-- The options that a group of letters stands for, and whether all of its letters are options. A
value cannot be carried by a group. -/
def groupSwitches (s : Switch) : List Char → Except Refusal (List Switch × Bool)
  | [] => .ok ([s], true)
  | letter :: letters =>
    if letter = '-' ∨ letter = '=' then .error .usage
    else match Switch.spellings.lookup (String.ofList ['-', letter]) with
      | none => .ok ([s], false)
      | some next => do
        let (switches, complete) ← groupSwitches next letters
        return (s :: switches, complete)

/-- The options and values of a command line. -/
structure Options where
  verbosity : Nat := 0
  lenient : Bool := false
  single : Bool := false
  grammar : Bool := false
  /-- The option that names a file, and the name. -/
  file : Option (Switch × String) := none
  /-- The program file. -/
  program : Option String := none

namespace Options

/-- An option without a value. -/
def setFlag (o : Options) : Switch → Except Refusal Options
  | .help => .error .help
  | .verbose => .ok { o with verbosity := o.verbosity + 1 }
  | .lenient => .ok { o with lenient := true }
  | .single => .ok { o with single := true }
  | _ => .error .usage

/-- An option with its value. -/
def setValue (o : Options) (s : Switch) (value : String) : Except Refusal Options :=
  match s with
  | .frontend => match value with
    | "recursive" => .ok { o with grammar := false }
    | "lark" => .ok { o with grammar := true }
    | _ => .error .usage
  | s => match o.file with
    | some (other, _) => if other = s then .ok { o with file := some (s, value) } else .error .usage
    | none => .ok { o with file := some (s, value) }

/-- Options without values, one after another. -/
def setFlags (o : Options) : List Switch → Except Refusal Options
  | [] => .ok o
  | s :: rest => do (← o.setFlag s).setFlags rest

end Options

/-- Where the reading of a command line stands. -/
structure Progress where
  options : Options := {}
  /-- Whether the free value was the last argument read. -/
  adjacent : Bool := false
  /-- Whether an argument was left over. -/
  leftOver : Bool := false

/-- Reads the arguments before two dashes. -/
def readArguments (p : Progress) : List Argument → Except Refusal Progress
  | [] => .ok p
  | .value text :: rest =>
    match p.options.program with
    | none =>
      readArguments { p with options := { p.options with program := some text }, adjacent := true }
        rest
    | some _ => readArguments { p with leftOver := true, adjacent := false } rest
  | .switch s none :: rest =>
    if s.takesValue then
      match rest with
      | .value text :: rest => do
        readArguments { p with options := ← p.options.setValue s text, adjacent := false } rest
      | _ => .error .usage
    else do
      readArguments { p with options := ← p.options.setFlag s, adjacent := false } rest
  | .switch s (some text) :: rest =>
    if s.takesValue then do
      readArguments { p with options := ← p.options.setValue s text, adjacent := false } rest
    else .error .usage
  | .group s letters :: rest => do
    let (switches, complete) ← groupSwitches s letters
    readArguments ⟨← p.options.setFlags switches, false, p.leftOver || !complete⟩ rest
  | _ :: rest => readArguments { p with leftOver := true, adjacent := false } rest

/-- The options once all arguments are read. After two dashes one more value may name the program,
if none did; two dashes that follow another argument than the program are left over. -/
def finish (p : Progress) (separated : Option (List String)) : Except Refusal Options :=
  if p.leftOver then .error .usage
  else match separated, p.options.program with
    | none, _ => .ok p.options
    | some [], none => .ok p.options
    | some [text], none => .ok { p.options with program := some text }
    | some [], some _ => if p.adjacent then .ok p.options else .error .usage
    | some _, _ => .error .usage

/-- The options that arguments give. An ambiguous abbreviation is an error before any other. -/
def parseArguments (texts : List String) : Except Refusal Options := do
  let (arguments, separated) := Argument.splitSeparator texts
  let ambiguous := arguments.any fun
    | .ambiguous => true
    | _ => false
  if ambiguous then .error .usage
  else finish (← readArguments {} arguments) separated

end Lox.CommandLine
