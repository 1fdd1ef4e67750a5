/-
Semantic versions.

A version is three numbers, then an optional pre-release behind `-` and an optional
build behind `+`, both lists of identifiers.  Numbers, and identifiers of a pre-release
that consist of digits, have no leading zeros; the three numbers fit 64 bits.
-/
import ApiNotes.Text.Digits
import ApiNotes.Text.Search

namespace ApiNotes.Version

/-- Whether a text is a number without leading zeros. -/
def isPlainNumber (s : List Char) : Bool :=
  !s.isEmpty && s.all Char.isDigit && (s.length == 1 || s.head? != some '0')

/-- Whether a text can be one of the three numbers. -/
def isCoreNumber (s : List Char) : Bool := isPlainNumber s && Text.decimalValue s < Nat.pow 2 64

/-- Whether a text can be an identifier of a build. -/
def isIdentifier (s : List Char) : Bool :=
  !s.isEmpty && s.all fun c => c.isAlphanum || c == '-'

/-- Whether a text can be an identifier of a pre-release. -/
def isPreIdentifier (s : List Char) : Bool :=
  isIdentifier s && (!s.all Char.isDigit || isPlainNumber s)

/-- Whether a text is a version. -/
def isValid (version : String) : Bool :=
  let (front, build) := match Text.cutAt ['+'] version.toList with
    | some (front, build) => (front, (build.splitOn '.').all isIdentifier)
    | none => (version.toList, true)
  let (core, pre) := match Text.cutAt ['-'] front with
    | some (core, pre) => (core, (pre.splitOn '.').all isPreIdentifier)
    | none => (front, true)
  let numbers := core.splitOn '.'
  build && pre && numbers.length == 3 && numbers.all isCoreNumber

example : isValid "1.0.0-rc.1+007" = true ∧ isValid "1.0" = false ∧ isValid "1.0.0-01" = false := by
  decide +kernel

end ApiNotes.Version
