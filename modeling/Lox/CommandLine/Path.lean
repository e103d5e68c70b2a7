/-!
# Paths

A path without the parts that do not matter: empty parts and single dots are dropped, and nothing
else is resolved. Exactly two slashes at the start are kept as they are, any other number of them
counts as one.
-/

namespace Lox.CommandLine

/-- The slashes that a path starts with, as they are kept. -/
def rootOf (path : List Char) : String :=
  match (path.takeWhile (· == '/')).length with
  | 0 => ""
  | 2 => "//"
  | _ => "/"

/-- The parts of a path between its slashes, without those that do not matter. -/
def partsOf (path : String) : List String :=
  ((path.toList.splitOn '/').map String.ofList).filter fun part => part != "" && part != "."

/-- A path in its normal form. -/
def normalize (path : String) : String :=
  let text := rootOf path.toList ++ "/".intercalate (partsOf path)
  if text = "" then "." else text

end Lox.CommandLine
