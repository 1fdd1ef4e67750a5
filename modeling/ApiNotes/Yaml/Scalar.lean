/-
Scalars in read text.

Each reader here starts behind the mark that announces its form, and answers with the text
of the scalar and the number of characters that it takes.
-/
import ApiNotes.Text.Digits
import ApiNotes.Yaml.Cursor
import ApiNotes.Yaml.Folding

namespace ApiNotes.Yaml

/-- Whether the marks between documents stand here. -/
def isBoundary (s : List Char) : Bool := isDocumentMark '-' s || isDocumentMark '.' s

/-- Counts one more character. -/
def counting (text : List Char) (n : Nat) (tail : List Char × Nat) : List Char × Nat :=
  (text ++ tail.1, tail.2 + n)

/-! ### Plain text -/

/-- The characters that end plain text between brackets. -/
def isFlowMark (c : Char) : Bool := ",[]\x7b\x7d".toList.contains c

/-- Whether plain text stops in front of a character that is neither blank nor break. -/
def endsPlain (flow : Bool) (indent : Nat) (gap : Gap) (c : Char) (rest : List Char) : Bool :=
  (c == ':' && blankNext rest) || (flow && isFlowMark c) || (c == '#' && !gap.isEmpty) ||
    (!flow && gap.isBelow indent) || (gap.atLineStart && isBoundary (c :: rest))

/-- Plain text behind a gap: the text, the number of characters, and whether the text ends in front
of a line break.  Lines behind the first one are indented by `indent` at least.  The gap at the end
is taken along, and does not belong to the text. -/
def plainText (flow : Bool) (indent : Nat) : Gap → List Char → Option ((List Char × Nat) × Bool)
  | gap, [] => some (([], 0), gap.indent.isSome)
  | gap, c :: rest =>
    if isBlank c || isBreak c then
      if c == '\t' && gap.isBelow indent then none
      else (plainText flow indent (gap.add c) rest).map fun (tail, broken) =>
        (counting [] 1 tail, broken)
    else if endsPlain flow indent gap c rest then some (([], 0), gap.indent.isSome)
    else if flow && c == ':' && rest.head?.any fun d => d == '?' || isFlowMark d then none
    else (plainText flow indent {} rest).map fun (tail, broken) =>
      (counting (gap.folded ++ [c]) 1 tail, broken)

/-! ### Quotes -/

/-- Text between single quotes, behind a gap. -/
def singleQuoted : Gap → List Char → Option (List Char × Nat)
  | _, [] => none
  | gap, '\'' :: '\'' :: rest =>
    (singleQuoted {} rest).map (counting (gap.folded ++ ['\'']) 2)
  | gap, '\'' :: _ => some (gap.folded, 1)
  | gap, c :: rest =>
    if isBlank c || isBreak c then (singleQuoted (gap.add c) rest).map (counting [] 1)
    else if gap.atLineStart && isBoundary (c :: rest) then none
    else (singleQuoted {} rest).map (counting (gap.folded ++ [c]) 1)

/-- The character that a letter behind a backslash stands for. -/
def escaped? : Char → Option Char
  | '0' => some '\x00'
  | 'a' => some '\x07'
  | 'b' => some '\x08'
  | 't' => some '\t'
  | '\t' => some '\t'
  | 'n' => some '\n'
  | 'v' => some '\x0b'
  | 'f' => some '\x0c'
  | 'r' => some '\r'
  | 'e' => some '\x1b'
  | ' ' => some ' '
  | '"' => some '"'
  | '/' => some '/'
  | '\\' => some '\\'
  | 'N' => some '\u0085'
  | '_' => some '\u00a0'
  | 'L' => some '\u2028'
  | 'P' => some '\u2029'
  | _ => none

/-- The character with a number that is given in hexadecimal digits. -/
def numbered? (digits : List Char) : Option Char := do
  let n ← Text.digits? 16 digits
  if n.isValidChar then some (Char.ofNat n) else none

/-- Text between double quotes, behind a gap. -/
def doubleQuoted : Gap → List Char → Option (List Char × Nat)
  | _, [] => none
  | gap, '"' :: _ => some (gap.folded, 1)
  | gap, '\\' :: 'x' :: a :: b :: rest => do
    let c ← numbered? [a, b]
    (doubleQuoted {} rest).map (counting (gap.folded ++ [c]) 4)
  | gap, '\\' :: 'u' :: a :: b :: c :: d :: rest => do
    let c ← numbered? [a, b, c, d]
    (doubleQuoted {} rest).map (counting (gap.folded ++ [c]) 6)
  | gap, '\\' :: 'U' :: a :: b :: c :: d :: e :: f :: g :: h :: rest => do
    let c ← numbered? [a, b, c, d, e, f, g, h]
    (doubleQuoted {} rest).map (counting (gap.folded ++ [c]) 10)
  | gap, '\\' :: c :: rest =>
    if isBreak c then (doubleQuoted .ofEscaped rest).map (counting gap.folded 2)
    else do
      let c ← escaped? c
      (doubleQuoted {} rest).map (counting (gap.folded ++ [c]) 2)
  | gap, c :: rest =>
    if isBlank c || isBreak c then (doubleQuoted (gap.add c) rest).map (counting [] 1)
    else if c == '\\' || (gap.atLineStart && isBoundary (c :: rest)) then none
    else (doubleQuoted {} rest).map (counting (gap.folded ++ [c]) 1)

/-! ### Blocks -/

/-- What becomes of the line breaks at the end of a block. -/
inductive Chomping
  | strip
  | clip
  | keep
deriving DecidableEq, Repr

/-- What stands behind the mark of a block. -/
structure BlockHeader where
  chomping : Chomping := .clip
  /-- The indentation of the block within what holds it, if it is given. -/
  indent : Option Nat := none

/-- The sign that says what becomes of the last line breaks. -/
def chomping? : Char → Option Chomping
  | '+' => some .keep
  | '-' => some .strip
  | _ => none

/-- The marks of a header, in either order, each once at most, and their number.  Zero is no
indentation. -/
def headerMarks? (s : List Char) : Option (BlockHeader × Nat) :=
  match s with
  | [] => some ({}, 0)
  | c :: rest =>
    match chomping? c, c.isDigit with
    | some chomping, _ =>
      match rest with
      | d :: _ =>
        if d == '0' then none
        else if d.isDigit then some ({ chomping, indent := some (d.toNat - '0'.toNat) }, 2)
        else some ({ chomping }, 1)
      | [] => some ({ chomping }, 1)
    | none, true =>
      if c == '0' then none
      else
        let indent := some (c.toNat - '0'.toNat)
        match rest.head?.bind chomping? with
        | some chomping => some ({ chomping, indent }, 2)
        | none => some ({ indent }, 1)
    | none, false => some ({}, 0)

/-- The greatest indentation of the lines before the first one that is not blank, and of that line;
`widest` is the greatest so far, and `column` the place on the line. -/
def leadingIndent? (widest column : Nat) : List Char → Option Nat
  | [] => some (max widest column)
  | c :: rest =>
    if c == ' ' then leadingIndent? widest (column + 1) rest
    else if c == '\t' then none
    else if isBreak c then leadingIndent? (max widest column) 0 rest
    else some (max widest column)

/-- The line breaks that stand between two lines of a block. -/
structure BlockBreaks where
  /-- The break at the end of the first line. -/
  first : List Char := []
  /-- The breaks of the blank lines behind it. -/
  more : List Char := []
  /-- Whether the first line starts with a blank. -/
  afterBlank : Bool := false

namespace BlockBreaks

/-- What the breaks read as in front of a line that starts with `c`.  In folded text a single line
feed is a space, and with blank lines behind it it is nothing, unless one of the two lines starts
with a blank. -/
def joined (folded : Bool) (breaks : BlockBreaks) (c : Char) : List Char :=
  if folded && breaks.first == ['\n'] && !breaks.afterBlank && !isBlank c then
    if breaks.more.isEmpty then [' '] else breaks.more
  else breaks.first ++ breaks.more

/-- What the breaks at the end of a block read as. -/
def chomped (chomping : Chomping) (breaks : BlockBreaks) : List Char :=
  match chomping with
  | .strip => []
  | .clip => breaks.first
  | .keep => breaks.first ++ breaks.more

end BlockBreaks

/-- The lines of a block with a given indentation.  `column` is the place in the margin, and without
it the place is inside a line that starts with a blank or not, as the breaks say. -/
def blockLines (folded : Bool) (chomping : Chomping) (indent : Nat) :
    BlockBreaks → Option Nat → List Char → Option (List Char × Nat)
  | breaks, _, [] => some (breaks.chomped chomping, 0)
  | breaks, none, c :: rest =>
    if isBreak c then
      (blockLines folded chomping indent { breaks with first := [c] } (some 0) rest).map
        (counting [] 1)
    else (blockLines folded chomping indent breaks none rest).map (counting [c] 1)
  | breaks, some column, c :: rest =>
    if isBreak c then
      (blockLines folded chomping indent { breaks with more := breaks.more ++ [c] } (some 0)
        rest).map (counting [] 1)
    else if column < indent then
      if c == ' ' then
        (blockLines folded chomping indent breaks (some (column + 1)) rest).map (counting [] 1)
      else if c == '\t' then none
      else some (breaks.chomped chomping, 0)
    else
      (blockLines folded chomping indent { afterBlank := isBlank c } none rest).map
        (counting (breaks.joined folded c ++ [c]) 1)

/-- A block behind its mark; `indent` is the least indentation that it can have, `0` where
nothing holds it. -/
def block (folded : Bool) (indent : Nat) (s : List Char) : Option (List Char × Nat) := do
  let (header, marks) ← headerMarks? s
  let ending ← lineEnd? false (s.drop marks)
  let lines := s.drop (marks + ending)
  let width ← match header.indent with
    | some n => some (indent - 1 + n)
    | none => (leadingIndent? 0 0 lines).map fun n => max n (max indent 1)
  (blockLines folded header.chomping width {} (some 0) lines).map
    (counting [] (marks + ending))

example : block false 0 "\n  a\n   b\n".toList = some ("a\n b\n".toList, 10) := by decide +kernel

example : block true 0 "-\n a\n b\n\n c\n".toList = some ("a b\nc".toList, 12) := by
  decide +kernel

end ApiNotes.Yaml
