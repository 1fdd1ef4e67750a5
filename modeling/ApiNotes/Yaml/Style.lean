/-
How a text is written as a YAML scalar.

Text with line breaks wants to be a literal block, text that would be read as something
else wants single quotes, and all other text wants to stand plain.  Each wish gives way
where the text would not come back as it was: blanks at the ends, characters that start
something else, and characters that cannot be printed all ask for quotes, and what
single quotes or blocks cannot hold goes into double quotes with escapes.
-/
import ApiNotes.Yaml.Chars
import ApiNotes.Yaml.Plain

namespace ApiNotes.Yaml

/-- The forms of a written scalar. -/
inductive Style
  | plain
  | singleQuoted
  | doubleQuoted
  | literal
deriving DecidableEq, Repr

/-- Whether two neighbours of a text satisfy a condition. -/
def hasPair (p : Char → Char → Bool) : List Char → Bool
  | a :: b :: rest => p a b || hasPair p (b :: rest)
  | _ => false

/-- Whether a space follows a line break somewhere. -/
def hasBreakSpace : List Char → Bool := hasPair fun a b => isBreak a && b == ' '

/-- Whether a line break follows a space somewhere. -/
def hasSpaceBreak : List Char → Bool := hasPair fun a b => a == ' ' && isBreak b

/-- The characters that start something other than a plain scalar. -/
def isIndicator (c : Char) : Bool := "#,[]\x7b\x7d&*!|>'\"%@`".toList.contains c

/-- Whether the text behind a first character holds `: ` or ` #`, or a colon at its end. -/
def hasInnerIndicator : Char → List Char → Bool
  | _, [] => false
  | previous, c :: rest =>
    (c == ':' && blankNext rest) || (c == '#' && blankNext [previous]) ||
      hasInnerIndicator c rest

/-- Whether a text would start something else, or end early, if it stood plain. -/
def hasIndicator : List Char → Bool
  | [] => false
  | c :: rest =>
    let s := c :: rest
    "---".toList.isPrefixOf s || "...".toList.isPrefixOf s || isIndicator c ||
      ((c == '?' || c == ':' || c == '-') && blankNext rest) || hasInnerIndicator c rest

/-- Whether a condition holds of the first or of the last character. -/
def atEnds (p : Char → Bool) (s : List Char) : Bool := s.head?.any p || s.getLast?.any p

/-- Whether all of a text can be printed. -/
def allPrintable (s : List Char) : Bool := s.all isPrintable

/-- Whether a text may stand without quotes. -/
def plainAllowed (s : List Char) : Bool :=
  !atEnds (fun c => c == ' ' || isBreak c) s && !s.any isBreak && allPrintable s && !hasIndicator s

/-- Whether a text may stand between single quotes. -/
def singleAllowed (s : List Char) : Bool :=
  !hasBreakSpace s && !hasSpaceBreak s && allPrintable s

/-- Whether a text may be a block. -/
def literalAllowed (s : List Char) : Bool :=
  !s.isEmpty && s.getLast? != some ' ' && !hasSpaceBreak s && allPrintable s

/-- The form that a text wants. -/
def wantedStyle (value : String) : Style :=
  if value.toList.contains '\n' then .literal
  else if plainKind value != .text || isPaddedDigits value.toList then .singleQuoted
  else .plain

/-- The form that a text gets. -/
def styleOf (value : String) : Style :=
  let s := value.toList
  match wantedStyle value with
  | .literal => if literalAllowed s then .literal else .doubleQuoted
  | .plain =>
    if plainAllowed s then .plain
    else if singleAllowed s then .singleQuoted
    else .doubleQuoted
  | _ => if singleAllowed s then .singleQuoted else .doubleQuoted

/-! ### Double quotes -/

/-- A hexadecimal digit in capitals. -/
def capitalDigit (n : Nat) : Char := if n < 10 then Char.ofNat (48 + n) else Char.ofNat (55 + n)

/-- A number in hexadecimal, with a fixed number of digits. -/
def hexDigits : Nat → Nat → List Char
  | 0, _ => []
  | width + 1, n => hexDigits width (n / 16) ++ [capitalDigit (n % 16)]

/-- The letter behind the backslash for characters that have one. -/
def shortEscape? (n : Nat) : Option Char :=
  match n with
  | 0x00 => some '0'
  | 0x07 => some 'a'
  | 0x08 => some 'b'
  | 0x09 => some 't'
  | 0x0A => some 'n'
  | 0x0B => some 'v'
  | 0x0C => some 'f'
  | 0x0D => some 'r'
  | 0x1B => some 'e'
  | 0x22 => some '"'
  | 0x5C => some '\\'
  | 0x85 => some 'N'
  | 0xA0 => some '_'
  | 0x2028 => some 'L'
  | 0x2029 => some 'P'
  | _ => none

/-- A character between double quotes. -/
def escapeChar (c : Char) : List Char :=
  if isPrintable c && !isBreak c && c != '"' && c != '\\' then [c]
  else
    let n := c.toNat
    match shortEscape? n with
    | some letter => ['\\', letter]
    | none =>
      if n ≤ 0xFF then '\\' :: 'x' :: hexDigits 2 n
      else if n ≤ 0xFFFF then '\\' :: 'u' :: hexDigits 4 n
      else '\\' :: 'U' :: hexDigits 8 n

/-- A text between double quotes. -/
def doubleQuote (s : List Char) : List Char := '"' :: s.flatMap escapeChar ++ ['"']

/-! ### Single quotes and blocks -/

/-- Lines are continued at an indentation. -/
def indentation (width : Nat) : List Char := List.replicate width ' '

/-- A text between single quotes, from a place on that may be the start of a line. -/
def singleQuoteFrom (width : Nat) : Bool → List Char → List Char
  | fresh, [] => (if fresh then indentation width else []) ++ ['\'']
  | fresh, c :: rest =>
    if isBreak c then c :: singleQuoteFrom width true rest
    else
      let written := if c == '\'' then ['\'', '\''] else [c]
      (if fresh && c != ' ' then indentation width else []) ++ written ++
        singleQuoteFrom width (fresh && c == ' ') rest

/-- A text between single quotes. -/
def singleQuote (width : Nat) (s : List Char) : List Char := '\'' :: singleQuoteFrom width false s

/-- What the header of a block says about the line breaks at the end of its text. -/
def chomping (s : List Char) : List Char :=
  match s.reverse with
  | [] => ['-']
  | last :: before =>
    if !isBreak last then ['-']
    else if before.isEmpty || before.head?.any isBreak then ['+']
    else []

/-- The lines of a block, from a place on that may be the start of a line. -/
def literalLines (width : Nat) : Bool → List Char → List Char
  | _, [] => []
  | fresh, c :: rest =>
    if isBreak c then c :: literalLines width true rest
    else (if fresh then indentation width else []) ++ c :: literalLines width false rest

/-- A text as a block.  The header gives the width of an indentation where the first line starts
with a blank or a break and would hide it. -/
def literal (width : Nat) (s : List Char) : List Char :=
  let hint := if s.head?.any fun c => c == ' ' || isBreak c then ['2'] else []
  '|' :: hint ++ chomping s ++ '\n' :: literalLines width true s

/-- A text as a scalar whose further lines are indented by `width`. -/
def scalarText (width : Nat) (value : String) : List Char :=
  let s := value.toList
  match styleOf value with
  | .plain => s
  | .singleQuoted => singleQuote width s
  | .doubleQuoted => doubleQuote s
  | .literal => literal width s

/-- Whether a text can be a key on one line with its value: it has no line breaks and at most 128
bytes. -/
def isShortKey (key : String) : Bool := !key.toList.any isBreak && key.utf8ByteSize ≤ 128

end ApiNotes.Yaml
