/-
A place in a text that is read.

Carriage returns and next-line characters are line feeds to a reader, so they become
line feeds before anything else is looked at.  A place knows its line and its column: what
a character means depends on how far its line is indented.
-/
import ApiNotes.Yaml.Chars

namespace ApiNotes.Yaml

/-- The text with all line breaks of one kind made line feeds. -/
def unifyBreaks : List Char → List Char
  | [] => []
  | '\r' :: '\n' :: rest => '\n' :: unifyBreaks rest
  | c :: rest => (if c == '\r' || c.toNat == 0x85 then '\n' else c) :: unifyBreaks rest

/-- A place in a text, and the text from there on. -/
structure Cursor where
  rest : List Char
  line : Nat := 0
  column : Nat := 0
  /-- The number of characters before the place. -/
  index : Nat := 0

namespace Cursor

/-- The place behind the next character. -/
def next (cursor : Cursor) : Cursor :=
  match cursor.rest with
  | [] => cursor
  | c :: rest =>
    if isBreak c then ⟨rest, cursor.line + 1, 0, cursor.index + 1⟩
    else ⟨rest, cursor.line, cursor.column + 1, cursor.index + 1⟩

/-- The place behind a number of characters. -/
def skip : Nat → Cursor → Cursor
  | 0, cursor => cursor
  | n + 1, cursor => skip n cursor.next

end Cursor

/-- What can stand between two tokens: how many characters of it there are, and whether it ends on
another line than it starts.  A comment goes on to the end of its line.  Tabs may stand there if
`tabs` allows it, and in block context no longer once a new line has started; a byte order mark
may start a line. -/
def gapLength (tabs flow : Bool) (lineStart comment : Bool) : List Char → Nat × Bool
  | [] => (0, false)
  | c :: rest =>
    if isBreak c then
      let (n, _) := gapLength flow flow true false rest
      (n + 1, true)
    else if comment || c == ' ' || (c == '\t' && tabs) || (lineStart && c.toNat == 0xFEFF) then
      let (n, broken) := gapLength tabs flow false comment rest
      (n + 1, broken)
    else if c == '#' then
      let (n, broken) := gapLength tabs flow false true rest
      (n + 1, broken)
    else (0, false)

/-- The length of the rest of a line, its break included, where only blanks and a comment may
stand. -/
def lineEnd? (comment : Bool) : List Char → Option Nat
  | [] => some 0
  | c :: rest =>
    if isBreak c then some 1
    else if comment || isBlank c then (lineEnd? comment rest).map (· + 1)
    else if c == '#' then (lineEnd? true rest).map (· + 1)
    else none

end ApiNotes.Yaml
