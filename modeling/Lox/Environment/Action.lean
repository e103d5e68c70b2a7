import Lox.Atom
import Lox.Environment
import Lox.Interpreter.RuntimeError
import Lox.Name
/-!
# Actions on environments

The operations on environments as data, so that a history is a list of actions. Only looking up a
name can fail. It changes nothing, and neither does asking for one.
-/

namespace Lox.Environments

/-- An operation on environments, which are given by their numbers. -/
inductive Action where
  | create (parent : Option Nat)
  | define (number : Nat) (name : Name) (value : Atom)
  | lookup (number : Nat) (name : Name)
  | contains (number : Nat) (name : Name)

/-- What there is to tell about an action. -/
inductive Reply where
  | created (number : Nat)
  | defined
  | value (value : Atom)
  | contained (known : Bool)
  deriving DecidableEq

/-- Carries out an action. A name that has no value is an error if it is looked up. -/
def act (es : Environments Name Atom) :
    Action → Except RuntimeError Reply × Environments Name Atom
  | .create parent =>
    let (number, es) := es.create parent
    (.ok (.created number), es)
  | .define number name value => (.ok .defined, es.define number name value)
  | .lookup number name =>
    match es.lookup? number name with
    | some value => (.ok (.value value), es)
    | none => (.error (.undefinedVariable name.plain), es)
  | .contains number name => (.ok (.contained (es.contains number name)), es)

/-- The environments that a history leaves. -/
def after (history : List Action) : Environments Name Atom :=
  history.foldl (fun es action => (es.act action).2) []

end Lox.Environments
