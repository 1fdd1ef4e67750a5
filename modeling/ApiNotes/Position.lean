/-
Positions in a source file.

Lines and columns are counted from one, columns in characters.  A position of zeros
stands for "nowhere in particular": it belongs to values that no annotation declared.
-/
namespace ApiNotes

/-- A line and a column of a source file. -/
structure Position where
  /-- Counted from one; zero when there is no place. -/
  line : Nat := 0
  /-- Counted from one, in characters; zero when there is no place. -/
  column : Nat := 0
deriving DecidableEq, Repr, Inhabited

end ApiNotes
