/-
YAML text as tokens.

What starts a table in block layout is seen only when its first key is over and a colon
follows, so every place where a key may start is remembered until it is known whether one
did: such a key has to end on its line, within 1024 characters.  A token that opens a table,
and the one that says that a key comes, are then put in behind all tokens before the key.

Indentation is a stack of columns, one for each list or table that is open outside of
brackets.  Text that starts left of a column ends what belongs to it.
-/
import ApiNotes.Yaml.Scalar
import ApiNotes.Yaml.Token

namespace ApiNotes.Yaml

/-- A place where a key may have started. -/
structure KeyStart where
  /-- Whether nothing but a key can stand there. -/
  required : Bool
  /-- The number of tokens before the place. -/
  position : Nat
  line : Nat
  column : Nat
  index : Nat

/-- Whether a key that started at a place cannot go on to the cursor. -/
def KeyStart.isStale (start : KeyStart) (cursor : Cursor) : Bool :=
  start.line < cursor.line || start.index + 1024 < cursor.index

/-- Text that has been split into tokens up to a place. -/
structure Layout where
  cursor : Cursor
  /-- The tokens so far, last one first. -/
  tokens : List Token := []
  /-- The columns of the open lists and tables, innermost first. -/
  columns : List Nat := []
  /-- Whether a key may start at the next token. -/
  keyAllowed : Bool := true
  /-- Where a key may have started inside the innermost brackets. -/
  key : Option KeyStart := none
  /-- The same for the brackets around, innermost first. -/
  outerKeys : List (Option KeyStart) := []

namespace Layout

/-- Whether the place is between brackets. -/
def inFlow (l : Layout) : Bool := !l.outerKeys.isEmpty

/-- The least column of text that belongs to something open. -/
def margin (l : Layout) : Nat :=
  match l.columns with
  | [] => 0
  | column :: _ => column + 1

/-- Adds a token. -/
def push (l : Layout) (token : Token) : Layout := { l with tokens := token :: l.tokens }

/-- Goes on by a number of characters. -/
def skip (l : Layout) (n : Nat) : Layout := { l with cursor := l.cursor.skip n }

/-- Puts tokens in behind the first `position` ones. -/
def insert (l : Layout) (position : Nat) (tokens : List Token) : Layout :=
  let later := l.tokens.length - position
  { l with tokens := l.tokens.take later ++ tokens.reverse ++ l.tokens.drop later }

/-! ### Keys that may have started -/

/-- A start without the key that can no longer follow; one that is required has to. -/
def dropStale (cursor : Cursor) : Option KeyStart → Option (Option KeyStart)
  | none => some none
  | some start =>
    if start.isStale cursor then if start.required then none else some none
    else some (some start)

/-- Forgets the starts of keys that can no longer follow. -/
def dropStaleKeys (l : Layout) : Option Layout := do
  let key ← dropStale l.cursor l.key
  let outerKeys ← l.outerKeys.mapM (dropStale l.cursor)
  some { l with key, outerKeys }

/-- Forgets the start of a key at this level; one that is required has to follow. -/
def dropKey (l : Layout) : Option Layout :=
  if l.key.any (·.required) then none else some { l with key := none }

/-- Remembers that a key may start here. -/
def startKey (l : Layout) : Option Layout :=
  if l.keyAllowed then
    let start : KeyStart := {
      required := !l.inFlow && l.columns.head? == some l.cursor.column
      position := l.tokens.length
      line := l.cursor.line
      column := l.cursor.column
      index := l.cursor.index }
    l.dropKey.map fun l => { l with key := some start }
  else some l

/-! ### Indentation -/

/-- Whether something at a column is indented more than all that is open. -/
def isDeeper (l : Layout) (column : Nat) : Bool := !l.inFlow && l.margin ≤ column

/-- Opens a list or table at the place of the cursor, if it is indented more than the open ones. -/
def openAtCursor (l : Layout) (token : Token) : Layout :=
  if l.isDeeper l.cursor.column then
    { l.push token with columns := l.cursor.column :: l.columns }
  else l

/-- Ends the lists and tables that satisfy a condition on their columns. -/
def closeWhile (p : Nat → Bool) (l : Layout) : Layout :=
  if l.inFlow then l
  else
    let closed := l.columns.takeWhile p
    { l with
      tokens := List.replicate closed.length .blockEnd ++ l.tokens
      columns := l.columns.drop closed.length }

/-- Ends all lists and tables. -/
def closeAll (l : Layout) : Layout := l.closeWhile fun _ => true

/-! ### Single tokens -/

/-- A mark of some characters that ends every open block. -/
def breakMark (l : Layout) (token : Token) (n : Nat) : Option Layout := do
  let l ← l.closeAll.dropKey
  some ({ l with keyAllowed := false }.push token |>.skip n)

/-- A directive. -/
def directive (l : Layout) : Option Layout := do
  let (token, n) ← directive? (l.cursor.rest.drop 1)
  l.breakMark token (n + 1)

/-- An opening bracket. -/
def openBracket (l : Layout) (token : Token) : Option Layout := do
  let l ← l.startKey
  let l := l.push token
  some ({ l with key := none, outerKeys := l.key :: l.outerKeys, keyAllowed := true }.skip 1)

/-- A closing bracket. -/
def closeBracket (l : Layout) (token : Token) : Option Layout := do
  let l ← l.dropKey
  let l := match l.outerKeys with
    | [] => l
    | key :: outerKeys => { l with key, outerKeys }
  some ({ l with keyAllowed := false }.push token |>.skip 1)

/-- A comma. -/
def comma (l : Layout) : Option Layout := do
  let l ← l.dropKey
  some ({ l with keyAllowed := true }.push .comma |>.skip 1)

/-- The dash in front of an element. -/
def dash (l : Layout) : Option Layout := do
  guard (l.inFlow || l.keyAllowed)
  let l ← (l.openAtCursor .blockListStart).dropKey
  some ({ l with keyAllowed := true }.push .dash |>.skip 1)

/-- The mark of a key that may be long. -/
def longKey (l : Layout) : Option Layout := do
  guard (l.inFlow || l.keyAllowed)
  let l ← (l.openAtCursor .blockTableStart).dropKey
  some ({ l with keyAllowed := !l.inFlow }.push .key |>.skip 1)

/-- The colon between a key and its value. -/
def colon (l : Layout) : Option Layout :=
  match l.key with
  | some start =>
    let l := if l.isDeeper start.column then
        { l.insert start.position [.blockTableStart, .key] with
          columns := start.column :: l.columns }
      else l.insert start.position [.key]
    some ({ l with key := none, keyAllowed := false }.push .value |>.skip 1)
  | none =>
    if l.inFlow then some ({ l with keyAllowed := false }.push .value |>.skip 1)
    else if l.keyAllowed then some ((l.openAtCursor .blockTableStart).push .value |>.skip 1)
    else none

/-- A token that can start a key, or belong to one, behind a mark of one character. -/
def word (l : Layout) (read : List Char → Option (Token × Nat)) : Option Layout := do
  let l ← l.startKey
  let (token, n) ← read (l.cursor.rest.drop 1)
  some ({ l with keyAllowed := false }.push token |>.skip (n + 1))

/-- A scalar as a token. -/
def scalar (form : ScalarForm) (text : List Char × Nat) : Token × Nat :=
  (.scalar form (String.ofList text.1), text.2)

/-- A block behind its mark. -/
def blockText (l : Layout) (folded : Bool) : Option Layout := do
  let l ← l.dropKey
  let text ← block folded l.margin (l.cursor.rest.drop 1)
  let (token, n) := scalar (if folded then .quoted else .literal) text
  some ({ l with keyAllowed := true }.push token |>.skip (n + 1))

/-- Plain text. -/
def plain (l : Layout) : Option Layout := do
  let l ← l.startKey
  let (text, broken) ← plainText l.inFlow l.margin {} l.cursor.rest
  let (token, n) := scalar .plain text
  some ({ l with keyAllowed := broken }.push token |>.skip n)

/-- Whether plain text can start with a character. -/
def startsPlain (flow : Bool) (c : Char) (rest : List Char) : Bool :=
  if c == '-' then true
  else if c == '?' || c == ':' then !flow && !blankNext rest
  else !isBlank c && !",[]\x7b\x7d#&*!|>'\"%@\x60".toList.contains c

/-! ### Tokens in turn -/

/-- The token that starts with a given character. -/
def token (l : Layout) (c : Char) (rest : List Char) : Option Layout :=
  let flow := l.inFlow
  let column := l.cursor.column
  if column == 0 && c == '%' then l.directive
  else if column == 0 && isDocumentMark '-' (c :: rest) then l.breakMark .documentStart 3
  else if column == 0 && isDocumentMark '.' (c :: rest) then l.breakMark .documentEnd 3
  else
    match c with
    | '[' => l.openBracket .flowListStart
    | '\x7b' => l.openBracket .flowTableStart
    | ']' => l.closeBracket .flowListEnd
    | '\x7d' => l.closeBracket .flowTableEnd
    | ',' => l.comma
    | '*' => l.word fun s => (anchorName? s).map fun (name, n) => (.alias name, n)
    | '&' => l.word fun s => (anchorName? s).map fun (name, n) => (.anchor name, n)
    | '!' => l.word (tag? flow)
    | '\'' => l.word fun s => (singleQuoted {} s).map (scalar .quoted)
    | '"' => l.word fun s => (doubleQuoted {} s).map (scalar .quoted)
    | _ =>
      if c == '-' && blankNext rest then l.dash
      else if c == '?' && (flow || blankNext rest) then l.longKey
      else if c == ':' && (flow || blankNext rest) then l.colon
      else if c == '|' && !flow then l.blockText false
      else if c == '>' && !flow then l.blockText true
      else if startsPlain flow c rest then l.plain
      else none

/-- Goes to the next token; behind a line break a key may start in block layout. -/
def skipGap (l : Layout) : Layout :=
  let (n, broken) := gapLength (l.inFlow || !l.keyAllowed) l.inFlow (l.cursor.column == 0) false
    l.cursor.rest
  { l.skip n with keyAllowed := l.keyAllowed || (broken && !l.inFlow) }

/-- Reads all tokens; every step takes a character at least. -/
def finish : Nat → Layout → Option (List Token)
  | 0, _ => none
  | fuel + 1, l => do
    let l ← l.skipGap.dropStaleKeys
    match l.cursor.rest with
    | [] =>
      let l ← l.closeAll.dropKey
      some l.tokens.reverse
    | c :: rest => finish fuel (← (l.closeWhile (l.cursor.column < ·)).token c rest)

end Layout

/-- The tokens of a text. -/
def tokensOf? (s : List Char) : Option (List Token) :=
  Layout.finish (s.length + 1) { cursor := { rest := s } }

end ApiNotes.Yaml
