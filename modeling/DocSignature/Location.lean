/-!
# Locations

A `Location` is a line, counted from one, and a column, counted from zero in characters. Numbers from
outside become one through `Location.ofInts`, which checks the line first. `Location.above` is where
the comment of a function that starts at a location is inserted.
-/

namespace DocSignature

/-- A position in a source. -/
structure Location where
  /-- The line, counted from one. -/
  line : Nat
  /-- The characters before the position on its line. -/
  column : Nat
  /-- There is no line before the first. -/
  one_le_line : 1 ≤ line := by omega
  deriving DecidableEq, Repr

/-- Why two numbers are no location. -/
inductive LocationError where
  /-- The line is less than one. -/
  | line
  /-- The column is less than zero. -/
  | column
  deriving DecidableEq, Repr

/-- The text of the error. -/
def LocationError.message : LocationError → String
  | .line => "line must be >= 1"
  | .column => "column must be >= 0"

namespace Location

/-- The location with these numbers. -/
def ofInts (line column : Int) : Except LocationError Location :=
  if h : line < 1 then .error .line
  else if column < 0 then .error .column
  else .ok { line := line.toNat, column := column.toNat }

/-- The insertion point for a start on a given line and column: the line above, but never above the
first, and the same column. -/
def insertionPoint (line column : Int) : Except LocationError Location :=
  ofInts (max (line - 1) 1) column

/-- The insertion point for a start at a location. -/
def above (l : Location) : Location where
  line := max (l.line - 1) 1
  column := l.column

end Location

end DocSignature
