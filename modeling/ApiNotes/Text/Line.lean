/-
Lines of a text.

A line ends at a line feed, and one carriage return just before that line feed
belongs to the line's end.  Text after the last line feed is a line only when there
is some, and a carriage return at its end stays: nothing marks it as part of a line
break.
-/
namespace ApiNotes.Text

/-- A line without the carriage return that its line break may carry. -/
def dropReturn (line : List Char) : List Char :=
  if line.getLast? = some '\r' then line.dropLast else line

/-- The lines of a text, without their line breaks. -/
def lines (s : List Char) : List (List Char) :=
  let pieces := s.splitOn '\n'
  let last := pieces.getLastD []
  pieces.dropLast.map dropReturn ++ if last.isEmpty then [] else [last]

/-- Lines joined by line feeds, with none after the last. -/
def joinLines (ls : List (List Char)) : List Char := ['\n'].intercalate ls

example : lines "a\r\nb\n\n\rc\r".toList = ["a".toList, "b".toList, [], "\rc\r".toList] := by
  decide +kernel

end ApiNotes.Text
