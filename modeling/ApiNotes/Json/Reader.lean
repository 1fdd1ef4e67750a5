/-
JSON text as nodes.

A text is one value with blanks around it.  Numbers that no double holds and strings with
half a surrogate pair are well formed, so they can be passed over, but they have no value.
Values may be nested 127 deep.
-/
import ApiNotes.Node
import ApiNotes.Text.Decimal
import ApiNotes.Text.Digits

namespace ApiNotes.Json

/-- The characters that may stand between values. -/
def isBlank (c : Char) : Bool := c == ' ' || c == '\t' || c == '\n' || c == '\r'

/-- The text from its next value or mark on. -/
def skipBlanks (s : List Char) : List Char := s.dropWhile isBlank

/-! ### Strings -/

/-- A part of a string: a character, or a 16-bit unit given by its number. -/
inductive Piece
  | char (c : Char)
  | unit (value : Nat)
deriving DecidableEq, Repr

/-- The character behind a backslash. -/
def escaped? : Char → Option Char
  | '"' => some '"'
  | '\\' => some '\\'
  | '/' => some '/'
  | 'b' => some '\x08'
  | 'f' => some '\x0c'
  | 'n' => some '\n'
  | 'r' => some '\r'
  | 't' => some '\t'
  | _ => none

/-- The parts of a string up to its closing quote, and the text behind it.  Controls have to be
escaped. -/
def pieces? : List Char → Option (List Piece × List Char)
  | [] => none
  | '"' :: rest => some ([], rest)
  | '\\' :: 'u' :: a :: b :: c :: d :: rest => do
    let unit ← Text.digits? 16 [a, b, c, d]
    let (pieces, rest) ← pieces? rest
    some (.unit unit :: pieces, rest)
  | '\\' :: c :: rest => do
    let c ← escaped? c
    let (pieces, rest) ← pieces? rest
    some (.char c :: pieces, rest)
  | c :: rest =>
    if c == '\\' || c.toNat < 0x20 then none
    else do
      let (pieces, rest) ← pieces? rest
      some (.char c :: pieces, rest)

/-- Whether a unit is the first half of a pair. -/
def isHighHalf (unit : Nat) : Bool := 0xD800 ≤ unit && unit < 0xDC00

/-- Whether a unit is the second half of a pair. -/
def isLowHalf (unit : Nat) : Bool := 0xDC00 ≤ unit && unit < 0xE000

/-- The characters that the parts of a string stand for; halves of pairs only count together. -/
def ofPieces? : List Piece → Option (List Char)
  | [] => some []
  | .char c :: rest => (ofPieces? rest).map (c :: ·)
  | .unit high :: rest =>
    if isHighHalf high then
      match rest with
      | .unit low :: rest =>
        if isLowHalf low then
          let c := Char.ofNat (0x10000 + (high - 0xD800) * 0x400 + (low - 0xDC00))
          (ofPieces? rest).map (c :: ·)
        else none
      | _ => none
    else if isLowHalf high then none
    else (ofPieces? rest).map (Char.ofNat high :: ·)

/-- The string behind an opening quote. -/
def string? (s : List Char) : Option (Node × List Char) := do
  let (pieces, rest) ← pieces? s
  let node := match ofPieces? pieces with
    | some value => .text (String.ofList value)
    | none => .unreadable
  some (node, rest)

/-! ### Numbers -/

/-- The characters of a run of digits, and the text behind it; there is at least one. -/
def digitRun? (s : List Char) : Option (List Char × List Char) :=
  let run := s.takeWhile Char.isDigit
  if run.isEmpty then none else some (run, s.drop run.length)

/-- The part before the point: zero, or digits that do not start with one. -/
def wholePart? : List Char → Option (List Char × List Char)
  | '0' :: rest => if rest.head?.any Char.isDigit then none else some (['0'], rest)
  | s => digitRun? s

/-- The point and the digits behind it, if there is a point. -/
def fraction? : List Char → Option (List Char × List Char)
  | '.' :: rest => (digitRun? rest).map fun (run, rest) => ('.' :: run, rest)
  | s => some ([], s)

/-- The exponent, if there is one. -/
def exponent? : List Char → Option (List Char × List Char)
  | c :: rest =>
    if c == 'e' || c == 'E' then
      let (sign, rest) := match rest with
        | '+' :: rest => (['+'], rest)
        | '-' :: rest => (['-'], rest)
        | rest => ([], rest)
      (digitRun? rest).map fun (run, rest) => ('e' :: sign ++ run, rest)
    else some ([], c :: rest)
  | [] => some ([], [])

/-- A number without its sign. -/
def number? (s : List Char) : Option (Node × List Char) := do
  let (whole, rest) ← wholePart? s
  let (fraction, rest) ← fraction? rest
  let (exponent, rest) ← exponent? rest
  let value ← Text.Decimal.read? (whole ++ fraction ++ exponent)
  some (if value.isFinite then .number else .unreadable, rest)

/-! ### Values -/

/-- A word that has to stand next. -/
def word? (word : String) (node : Node) (s : List Char) : Option (Node × List Char) :=
  (word.toList.isPrefixOf? s).map fun rest => (node, rest)

mutual

/-- The value at the start of a text, and the text behind it. -/
def value? : Nat → List Char → Option (Node × List Char)
  | 0, _ => none
  | fuel + 1, s =>
    match s with
    | '\x7b' :: rest =>
      match skipBlanks rest with
      | '\x7d' :: rest => some (.table [], rest)
      | rest => (entries? fuel rest).map fun (entries, rest) => (.table entries, rest)
    | '[' :: rest =>
      match skipBlanks rest with
      | ']' :: rest => some (.row [], rest)
      | rest => (elements? fuel rest).map fun (items, rest) => (.row items, rest)
    | '"' :: rest => string? rest
    | 't' :: _ => word? "true" (.flag true) s
    | 'f' :: _ => word? "false" (.flag false) s
    | 'n' :: _ => word? "null" .null s
    | '-' :: rest => number? rest
    | s => number? s

/-- The elements of a list from one of them on, and the text behind the list. -/
def elements? : Nat → List Char → Option (List Node × List Char)
  | 0, _ => none
  | fuel + 1, s => do
    let (item, rest) ← value? fuel s
    match skipBlanks rest with
    | ']' :: rest => some ([item], rest)
    | ',' :: rest =>
      let (items, rest) ← elements? fuel (skipBlanks rest)
      some (item :: items, rest)
    | _ => none

/-- The entries of a table from one of them on, and the text behind the table. -/
def entries? : Nat → List Char → Option (List (Node × Node) × List Char)
  | 0, _ => none
  | fuel + 1, s => do
    let '"' :: rest := s | none
    let (key, rest) ← string? rest
    let ':' :: rest := skipBlanks rest | none
    let (value, rest) ← value? fuel (skipBlanks rest)
    match skipBlanks rest with
    | '\x7d' :: rest => some ([(key, value)], rest)
    | ',' :: rest =>
      let (entries, rest) ← entries? fuel (skipBlanks rest)
      some ((key, value) :: entries, rest)
    | _ => none

end

/-- Reads a text.  Every step takes a character off it, or is followed by one that does. -/
def read? (text : String) : Option Node := do
  let s := text.toList
  let (node, rest) ← value? (2 * s.length + 2) (skipBlanks s)
  if (skipBlanks rest).isEmpty then some (node.prune 127) else none

end ApiNotes.Json
