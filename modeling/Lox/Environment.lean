import Lox.Keyed
/-!
# Environments

Environments are created one after another and numbered from zero. Each holds names of its own and
may have an older environment as its parent; a name is looked up in an environment first and then
along its parents. The newest environment comes first in the list, so its number is the number of
those after it.
-/

namespace Lox

/-- One environment: its parent, if it has one, and its own names. -/
structure Environment (κ α : Type) where
  parent : Option Nat
  own : Keyed κ α

/-- Environments that may be parents of one another, the newest first. -/
abbrev Environments (κ α : Type) := List (Environment κ α)

namespace Environments

variable {κ α : Type} [BEq κ]

/-- One more environment, with the number it gets. -/
def create (parent : Option Nat) (es : Environments κ α) : Nat × Environments κ α :=
  (es.length, ⟨parent, []⟩ :: es)

/-- Defines a name in the environment of the given number, where it replaces an older definition. -/
def define (number : Nat) (name : κ) (value : α) : Environments κ α → Environments κ α
  | [] => []
  | e :: older =>
    if number = older.length then { e with own := e.own.set name value } :: older
    else e :: define number name value older

/-- The value of a name in the environment of the given number or the nearest parent that has it. -/
def lookup? (number : Nat) (name : κ) : Environments κ α → Option α
  | [] => none
  | e :: older =>
    if number = older.length then
      match e.own.get? name, e.parent with
      | some value, _ => some value
      | none, some parent => lookup? parent name older
      | none, none => none
    else lookup? number name older

/-- Whether a name is known in the environment of the given number or one of its parents. -/
def contains (number : Nat) (name : κ) : Environments κ α → Bool
  | [] => false
  | e :: older =>
    if number = older.length then
      e.own.keys.contains name || match e.parent with
        | some parent => contains parent name older
        | none => false
    else contains number name older

/-- The own names of every environment, the oldest first, each list in the given order. -/
def ownNames (le : κ → κ → Bool) (es : Environments κ α) : List (List κ) :=
  es.reverse.map fun e => (e.own.sorted le).keys

end Environments

end Lox
