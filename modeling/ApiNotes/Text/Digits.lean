/-
Digits and what they count.

Numbers turn up in many notations here: status codes, versions, escapes, plain scalars.
All of them are read digit by digit in some base up to sixteen.
-/
namespace ApiNotes.Text

/-- The value of a digit in bases up to sixteen. -/
def digitValue? (base : Nat) (c : Char) : Option Nat :=
  let n :=
    if c.isDigit then c.toNat - '0'.toNat
    else if 'a' ≤ c && c ≤ 'f' then c.toNat - 'a'.toNat + 10
    else if 'A' ≤ c && c ≤ 'F' then c.toNat - 'A'.toNat + 10
    else base
  if n < base then some n else none

/-- The value of one or more digits. -/
def digits? (base : Nat) (s : List Char) : Option Nat :=
  if s.isEmpty then none
  else s.foldlM (fun n c => (digitValue? base c).map (base * n + ·)) 0

/-- The value of decimal digits, where nothing else can stand. -/
def decimalValue (digits : List Char) : Nat :=
  digits.foldl (fun n c => 10 * n + (c.toNat - '0'.toNat)) 0

example : digits? 16 "fF".toList = some 255 ∧ digits? 10 "1a".toList = none := by decide +kernel

end ApiNotes.Text
