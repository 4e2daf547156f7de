import TokenForest.Text.Quoted

/-!
# Paths

A path as the names on the way to a file or directory. Repeated slashes and dots that stand for the same place are not
part of it, so two texts that differ only in these are the same path; two dots are a name like any other.
-/

namespace TokenForest

/-- A path: the slashes at its start, none for a relative path, and the names behind them. -/
structure Path where
  root : String
  names : List String
  deriving DecidableEq, Repr

namespace Path

/-- The parts of a text between its slashes. -/
def split (cs : List Char) : List (List Char) :=
  cs.foldr (fun c parts => match parts with
    | [] => [[c]]
    | part :: rest => if c = '/' then [] :: part :: rest else (c :: part) :: rest) [[]]

/-- The path that a text spells. Two slashes at the start stay, any other number of them is one. -/
def ofText (text : String) : Path :=
  let cs := text.toList
  let slashes := (cs.takeWhile (· = '/')).length
  { root := if slashes = 0 then "" else if slashes = 2 then "//" else "/"
    names := ((split cs).filter (fun part => part ≠ [] ∧ part ≠ ['.'])).map String.ofList }

/-- The text of a path; a dot for the one without any name. -/
def text (p : Path) : String :=
  let text := p.root ++ String.intercalate "/" p.names
  if text = "" then "." else text

/-- The path without its last name. -/
def parent (p : Path) : Path := { p with names := p.names.dropLast }

/-- The path starts at the root of the tree. -/
def isAbsolute (p : Path) : Bool := decide (p.root ≠ "")

end Path

end TokenForest
