/-!
# Paths

A path is a list of names with slashes between them. Some of it does not matter for where it leads.

## Main definitions

* `pathNames`: the names of a path.
* `NormalPath.ofString`: a path without empty names and without dots behind its start.
-/

namespace DepthGauge

/-- The pieces of a text between its slashes. There is always at least one. -/
def splitSlashes (text : List Char) : List (List Char) :=
  text.foldr
    (fun c names =>
      if c = '/' then [] :: names
      else match names with
        | [] => [[c]]
        | name :: names => (c :: name) :: names)
    [[]]

/-- The names of a path, the empty ones included. -/
def pathNames (path : String) : List String := (splitSlashes path.toList).map String.ofList

/-- Whether a path starts at the root. -/
def isAbsolutePath (path : String) : Bool := path.toList.head? = some '/'

/-- What of a path counts when two are compared. -/
structure NormalPath where
  isAbsolute : Bool
  names : List String
deriving DecidableEq, Repr

/-- Leaves out empty names and `.`, except a `.` that the path starts with. A slash at the end is
thus left out too, but `./a` differs from `a`, and `a/../b` from `b`. -/
def NormalPath.ofString (path : String) : NormalPath :=
  let names := pathNames path
  let start := if names.head? = some "." then ["."] else []
  ⟨isAbsolutePath path, start ++ names.filter fun name => name ≠ "" ∧ name ≠ "."⟩

end DepthGauge
