/-
Trees as JSON text.

There are two layouts: one without any blanks, and one with a line per value, two blanks
per level and empty lists and tables on one line.  Quotes, backslashes and controls are
escaped, everything else stands for itself.
-/
import ApiNotes.Tree

namespace ApiNotes.Json

/-- A hexadecimal digit in small letters. -/
def hexDigit (n : Nat) : Char := if n < 10 then Char.ofNat (48 + n) else Char.ofNat (87 + n)

/-- A character inside a string. -/
def escapeChar (c : Char) : List Char :=
  if c = '"' then ['\\', '"']
  else if c = '\\' then ['\\', '\\']
  else if c = '\x08' then ['\\', 'b']
  else if c = '\x0c' then ['\\', 'f']
  else if c = '\n' then ['\\', 'n']
  else if c = '\r' then ['\\', 'r']
  else if c = '\t' then ['\\', 't']
  else if c.toNat < 0x20 then
    ['\\', 'u', '0', '0', hexDigit (c.toNat / 16), hexDigit (c.toNat % 16)]
  else [c]

/-- A string in quotes. -/
def quote (s : String) : String := "\"" ++ String.ofList (s.toList.flatMap escapeChar) ++ "\""

/-- A flag. -/
def flagText (b : Bool) : String := if b then "true" else "false"

/-- Pieces with a separator between them. -/
def sepBy (separator : String) (pieces : List String) : String := separator.intercalate pieces

/-! ### The dense layout -/

mutual

/-- A tree without blanks. -/
def dense : Tree → String
  | .text value => quote value
  | .flag value => flagText value
  | .list items => "[" ++ sepBy "," (denseItems items) ++ "]"
  | .table entries => "\x7b" ++ sepBy "," (denseEntries entries) ++ "\x7d"

/-- The elements of a list. -/
def denseItems : List Tree → List String
  | [] => []
  | t :: rest => dense t :: denseItems rest

/-- The entries of a table. -/
def denseEntries : List (String × Tree) → List String
  | [] => []
  | (key, t) :: rest => (quote key ++ ":" ++ dense t) :: denseEntries rest

end

/-! ### The layout with a line per value -/

/-- The start of a line at a level. -/
def newLine (level : Nat) : String := String.ofList ('\n' :: List.replicate (2 * level) ' ')

/-- The pieces of a list or table between its brackets. -/
def enclose (level : Nat) (start stop : String) (pieces : List String) : String :=
  if pieces.isEmpty then start ++ stop
  else
    start ++ newLine (level + 1) ++ sepBy ("," ++ newLine (level + 1)) pieces ++
      newLine level ++ stop

mutual

/-- A tree whose lines start at the given level. -/
def pretty (level : Nat) : Tree → String
  | .text value => quote value
  | .flag value => flagText value
  | .list items => enclose level "[" "]" (prettyItems (level + 1) items)
  | .table entries => enclose level "\x7b" "\x7d" (prettyEntries (level + 1) entries)

/-- The elements of a list. -/
def prettyItems (level : Nat) : List Tree → List String
  | [] => []
  | t :: rest => pretty level t :: prettyItems level rest

/-- The entries of a table. -/
def prettyEntries (level : Nat) : List (String × Tree) → List String
  | [] => []
  | (key, t) :: rest => (quote key ++ ": " ++ pretty level t) :: prettyEntries level rest

end

/-- A tree on several lines, without a line break at the end. -/
def write (t : Tree) : String := pretty 0 t

end ApiNotes.Json
