/-
Line folding.

Inside plain and quoted text, blanks around a line break mean nothing.  A single line feed
reads as a space, and of several line feeds the first one does not count; the breaks that
are not line feeds always count.  A line break behind a backslash is no break at all.
-/
import ApiNotes.Yaml.Chars

namespace ApiNotes.Yaml

/-- A run of blanks and line breaks inside a text. -/
structure Gap where
  /-- The blanks on the first line, until there is a second one. -/
  blanks : List Char := []
  breaks : List Char := []
  /-- Whether an escaped line break started the gap. -/
  escaped : Bool := false
  /-- How far the line is indented that the gap ends on, if it is not the first one. -/
  indent : Option Nat := none
deriving Repr

namespace Gap

/-- The gap behind an escaped line break. -/
def ofEscaped : Gap := { escaped := true, indent := some 0 }

/-- The gap with one more blank or line break. -/
def add (gap : Gap) (c : Char) : Gap :=
  if isBreak c then { gap with blanks := [], breaks := gap.breaks ++ [c], indent := some 0 }
  else
    match gap.indent with
    | none => { gap with blanks := gap.blanks ++ [c] }
    | some n => { gap with indent := some (n + 1) }

/-- What a gap reads as. -/
def folded (gap : Gap) : List Char :=
  if gap.escaped then gap.breaks
  else
    match gap.breaks with
    | [] => gap.blanks
    | ['\n'] => [' ']
    | '\n' :: more => more
    | breaks => breaks

/-- Whether there is nothing in the gap. -/
def isEmpty (gap : Gap) : Bool := gap.blanks.isEmpty && gap.indent.isNone

/-- Whether the gap ends at the very start of a line. -/
def atLineStart (gap : Gap) : Bool := gap.indent == some 0

/-- Whether the gap ends on a line that is indented less than `column`. -/
def isBelow (gap : Gap) (column : Nat) : Bool := gap.indent.any (· < column)

end Gap

example : (("  \n ".toList).foldl Gap.add {}).folded = [' '] := by decide

example : (("\n\n\n".toList).foldl Gap.add {}).folded = ['\n', '\n'] := by decide

end ApiNotes.Yaml
