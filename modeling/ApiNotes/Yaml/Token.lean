/-
Tokens of YAML text.

Where text is laid out in blocks, its indentation says where lists and tables start and
end; the tokens say so outright.  This module also reads the tokens that carry names: anchors,
tags and directives.  As with scalars, a reader starts behind the mark of its token and answers
with the token and the number of characters it takes.
-/
import ApiNotes.Node
import ApiNotes.Text.Digits
import ApiNotes.Yaml.Cursor

namespace ApiNotes.Yaml

/-- A token. -/
inductive Token
  /-- A line that states the version of the format. -/
  | version (major minor : Nat)
  /-- A line that gives the meaning of a tag's handle. -/
  | handle (name meaning : String)
  | documentStart
  | documentEnd
  | blockListStart
  | blockTableStart
  /-- The end of a list or table that is laid out in a block. -/
  | blockEnd
  | flowListStart
  | flowListEnd
  | flowTableStart
  | flowTableEnd
  /-- The dash in front of an element. -/
  | dash
  | comma
  | key
  | value
  | alias (name : String)
  | anchor (name : String)
  | tag (handle suffix : String)
  | scalar (form : ScalarForm) (text : String)
deriving DecidableEq, Repr

/-! ### Names -/

/-- The characters of a name. -/
def isNameChar (c : Char) : Bool := c.isAlphanum || c == '_' || c == '-'

/-- Whether the name of an anchor can end here. -/
def endsName : List Char → Bool
  | [] => true
  | c :: rest => blankNext (c :: rest) || "?:,]\x7d%@\x60".toList.contains c

/-- The name of an anchor. -/
def anchorName? (s : List Char) : Option (String × Nat) :=
  let name := s.takeWhile isNameChar
  if name.isEmpty || !endsName (s.drop name.length) then none
  else some (String.ofList name, name.length)

/-! ### Tags -/

/-- The characters of a tag behind its handle.  Between angle brackets, and in the meaning of a
handle, commas and square brackets are among them. -/
def isTagChar (wide : Bool) (c : Char) : Bool :=
  isNameChar c || ";/?:@&=+$.!~*'()".toList.contains c || (wide && ",[]".toList.contains c)

/-- The value of an octet in hexadecimal, behind a percent sign. -/
def octet? : List Char → Option Nat
  | '%' :: a :: b :: _ => Text.digits? 16 [a, b]
  | _ => none

/-- The number of octets of a character whose first octet is given, and what that octet says of the
character. -/
def octetClass? (first : Nat) : Option (Nat × Nat) :=
  if first < 0x80 then some (1, first)
  else if first / 32 = 6 then some (2, first % 32)
  else if first / 16 = 14 then some (3, first % 16)
  else if first / 8 = 30 then some (4, first % 8)
  else none

/-- The octets that continue a character. -/
def moreOctets? : Nat → Nat → List Char → Option Nat
  | 0, n, _ => some n
  | count + 1, n, s => do
    let octet ← octet? s
    if octet / 64 = 2 then moreOctets? count (64 * n + octet % 64) (s.drop 3) else none

/-- A character of a tag that is given by its octets, and the number of characters it takes. -/
def tagOctets? (s : List Char) : Option (Char × Nat) := do
  let (count, n) ← octetClass? (← octet? s)
  let n ← moreOctets? (count - 1) n (s.drop 3)
  some (Char.ofNat n, 3 * count)

/-- The text of a tag, as far as it goes. -/
def tagText? (wide : Bool) : Nat → List Char → Option (List Char × Nat)
  | 0, _ => some ([], 0)
  | fuel + 1, s =>
    match s with
    | [] => some ([], 0)
    | c :: rest =>
      if c == '%' then do
        let (decoded, n) ← tagOctets? s
        (tagText? wide fuel (s.drop n)).map fun (text, m) => (decoded :: text, m + n)
      else if isTagChar wide c then
        (tagText? wide fuel rest).map fun (text, m) => (c :: text, m + 1)
      else some ([], 0)

/-- The text of a tag, which is not empty. -/
def filledTagText? (wide : Bool) (s : List Char) : Option (String × Nat) := do
  let (text, n) ← tagText? wide s.length s
  if text.isEmpty then none else some (String.ofList text, n)

/-- Whether a tag can end here. -/
def endsTag (flow : Bool) (s : List Char) : Bool :=
  blankNext s || (flow && s.head? == some ',')

/-- A tag: its text in angle brackets, a handle between exclamation marks and what stands behind
it, or a name that is private to its document. -/
def tag? (flow : Bool) (s : List Char) : Option (Token × Nat) := do
  let (token, n) ← match s with
    | '<' :: rest => do
      let (text, n) ← filledTagText? true rest
      if (rest.drop n).head? == some '>' then some (Token.tag "" text, n + 2) else none
    | _ => do
      let name := s.takeWhile isNameChar
      let rest := s.drop name.length
      if rest.head? == some '!' then
        let (text, n) ← filledTagText? false (rest.drop 1)
        some (Token.tag ("!" ++ String.ofList name ++ "!") text, name.length + 1 + n)
      else
        let (more, n) ← tagText? false rest.length rest
        let text := String.ofList (name ++ more)
        let token := if text.isEmpty then Token.tag "" "!" else Token.tag "!" text
        some (token, name.length + n)
  if endsTag flow (s.drop n) then some (token, n) else none

/-! ### Directives -/

/-- The number of blanks that come next. -/
def blankCount (s : List Char) : Nat := (s.takeWhile isBlank).length

/-- One of the numbers of a version, of nine digits at most. -/
def versionNumber? (s : List Char) : Option (Nat × Nat) :=
  let digits := s.takeWhile Char.isDigit
  if digits.isEmpty || digits.length > 9 then none
  else some (Text.decimalValue digits, digits.length)

/-- The version that a directive states. -/
def versionDirective? (s : List Char) : Option (Token × Nat) := do
  let (major, n) ← versionNumber? s
  let rest := s.drop n
  if rest.head? == some '.' then
    let (minor, m) ← versionNumber? (rest.drop 1)
    some (.version major minor, n + 1 + m)
  else none

/-- A handle with its exclamation marks. -/
def handleName? (s : List Char) : Option (String × Nat) :=
  match s with
  | '!' :: rest =>
    let name := rest.takeWhile isNameChar
    if (rest.drop name.length).head? == some '!' then
      some ("!" ++ String.ofList name ++ "!", name.length + 2)
    else if name.isEmpty then some ("!", 1)
    else none
  | _ => none

/-- The handle that a directive gives a meaning. -/
def handleDirective? (s : List Char) : Option (Token × Nat) := do
  let (name, n) ← handleName? s
  let gap := blankCount (s.drop n)
  if gap == 0 then none
  else
    let (meaning, m) ← filledTagText? true (s.drop (n + gap))
    if blankNext (s.drop (n + gap + m)) then some (.handle name meaning, n + gap + m) else none

/-- A directive, up to the end of its line. -/
def directive? (s : List Char) : Option (Token × Nat) := do
  let name := s.takeWhile isNameChar
  guard (blankNext (s.drop name.length))
  let start := name.length + blankCount (s.drop name.length)
  let (token, n) ←
    if name == "YAML".toList then versionDirective? (s.drop start)
    else if name == "TAG".toList then handleDirective? (s.drop start)
    else none
  let ending ← lineEnd? false (s.drop (start + n))
  some (token, start + n + ending)

end ApiNotes.Yaml
