/-
What a plain scalar stands for.

YAML text without quotes may be null, a flag, a number or just text.  The words and the
forms of numbers are those of the core schema: decimal numbers without leading zeros,
hexadecimal, octal and binary ones behind `0x`, `0o` and `0b`, and floats.  Readers use
this to settle a value, writers to know which texts need quotes.
-/
import ApiNotes.Text.Decimal

namespace ApiNotes.Yaml

/-- What a plain scalar stands for. -/
inductive PlainKind
  | null
  | flag (value : Bool)
  /-- A whole number of 64 bits without a sign. -/
  | natural (value : Nat)
  /-- Another number: a negative one, or a float. -/
  | number
  /-- A whole number that needs more than 64 bits and no more than 128. -/
  | wide
  | text
deriving DecidableEq, Repr

/-- Whether a text is one of the words for null. -/
def isNullWord (s : String) : Bool := ["null", "Null", "NULL", "~"].contains s

/-- The flag that a text spells. -/
def flagWord? (s : String) : Option Bool :=
  if ["true", "True", "TRUE"].contains s then some true
  else if ["false", "False", "FALSE"].contains s then some false
  else none

/-- Whether a text has digits only, the first of several being a zero; such text is no number. -/
def isPaddedDigits (s : List Char) : Bool :=
  let digits := match s with
    | '-' :: rest | '+' :: rest => rest
    | _ => s
  digits.length > 1 && digits.head? == some '0' && digits.all Char.isDigit

/-- The base that a text announces, and the digits behind it. -/
def based? : List Char → Option (Nat × List Char)
  | '0' :: 'x' :: digits => some (16, digits)
  | '0' :: 'o' :: digits => some (8, digits)
  | '0' :: 'b' :: digits => some (2, digits)
  | _ => none

/-- A whole number without a sign. -/
def magnitude? (s : List Char) : Option Nat :=
  match based? s with
  | some (base, digits) => Text.digits? base digits
  | none => if isPaddedDigits s then none else Text.digits? 10 s

/-- Whether a text is a float that a double can hold, or one of the words for infinity and for what
is no number. -/
def isFloat (s : List Char) : Bool :=
  let word := String.ofList s
  let unsigned := match s with
    | '-' :: rest | '+' :: rest => rest
    | _ => s
  [".inf", ".Inf", ".INF"].contains (String.ofList unsigned) ||
    [".nan", ".NaN", ".NAN"].contains word ||
    (match Text.Decimal.read? unsigned with
      | some d => d.isFinite
      | none => false)

/-- What a plain scalar stands for. -/
def plainKind (s : String) : PlainKind :=
  if s.isEmpty || isNullWord s then .null
  else
    match flagWord? s with
    | some value => .flag value
    | none =>
      let cs := s.toList
      let (negative, unsigned) := match cs with
        | '-' :: rest => (true, rest)
        | '+' :: rest => (false, rest)
        | _ => (false, cs)
      let whole : Option PlainKind := (magnitude? unsigned).bind fun n =>
        if negative then
          if n ≤ Nat.pow 2 63 then some .number else if n ≤ Nat.pow 2 127 then some .wide else none
        else if n < Nat.pow 2 64 then some (.natural n)
        else if n < Nat.pow 2 128 then some .wide
        else none
      match whole with
      | some kind => kind
      | none => if !isPaddedDigits cs && isFloat cs then .number else .text

end ApiNotes.Yaml
