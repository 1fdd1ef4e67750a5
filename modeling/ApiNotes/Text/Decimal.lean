/-
Decimal numbers, and which of them a double can hold.

A number is a whole mantissa and a power of ten.  Readers that turn numbers into doubles
refuse the ones that would become infinite; the largest double is
`(2 ^ 53 - 1) * 2 ^ 971`, and everything from half a step above it on is too large.
-/
import ApiNotes.Text.Digits

namespace ApiNotes.Text

/-- The number `mantissa * 10 ^ exponent`. -/
structure Decimal where
  mantissa : Nat
  exponent : Int
deriving DecidableEq, Repr

namespace Decimal

/-- The exponent that stands behind a number: nothing, or a letter and a whole number. -/
def exponent? : List Char → Option Int
  | [] => some 0
  | c :: rest =>
    if c != 'e' && c != 'E' then none
    else
      let (negative, digits) := match rest with
        | '-' :: digits => (true, digits)
        | '+' :: digits => (false, digits)
        | digits => (false, digits)
      if digits.isEmpty || !digits.all Char.isDigit then none
      else
        let n : Int := decimalValue digits
        some (if negative then -n else n)

/-- Reads a number without a sign: digits on either side of an optional point, at least one of
them, and an optional exponent. -/
def read? (s : List Char) : Option Decimal :=
  let whole := s.takeWhile Char.isDigit
  let rest := s.drop whole.length
  let (fraction, rest) := match rest with
    | '.' :: after =>
      let fraction := after.takeWhile Char.isDigit
      (fraction, after.drop fraction.length)
    | _ => ([], rest)
  if whole.isEmpty && fraction.isEmpty then none
  else
    (exponent? rest).map fun e => ⟨decimalValue (whole ++ fraction), e - (fraction.length : Int)⟩

/-- The number of digits of a positive number. -/
def digitCount (n : Nat) : Nat := (Nat.toDigits 10 n).length

/-- Whether the double next to the number is finite. -/
def isFinite (d : Decimal) : Bool :=
  let magnitude : Int := digitCount d.mantissa + d.exponent
  let bound := (Nat.pow 2 54 - 1) * Nat.pow 2 970
  if d.mantissa = 0 || magnitude ≤ 308 then true
  else if magnitude > 309 then false
  else if d.exponent ≥ 0 then d.mantissa * Nat.pow 10 d.exponent.toNat < bound
  else d.mantissa < bound * Nat.pow 10 (-d.exponent).toNat

end Decimal

end ApiNotes.Text
