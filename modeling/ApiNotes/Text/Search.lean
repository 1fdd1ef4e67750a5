/-
Looking for one text inside another.

`cutAt` is the one primitive: it splits a text around the first occurrence of a
pattern.  Whether a pattern occurs at all, and what stands before or after it, are
read off its answer.
-/
namespace ApiNotes.Text

/-- The text after `pattern`, when the text starts with it. -/
def stripPrefix? (pattern s : List Char) : Option (List Char) := pattern.isPrefixOf? s

/-- The text after one leading `c`, or the text itself when it starts with something else. -/
def dropChar (c : Char) : List Char → List Char
  | d :: rest => if d = c then rest else d :: rest
  | [] => []

/-- `cutAt` with the characters already passed over, last one first. -/
def cutAtFrom (pattern passed : List Char) : List Char → Option (List Char × List Char)
  | [] => if pattern.isEmpty then some (passed.reverse, []) else none
  | c :: rest =>
    match stripPrefix? pattern (c :: rest) with
    | some after => some (passed.reverse, after)
    | none => cutAtFrom pattern (c :: passed) rest

/-- What stands before and after the first occurrence of `pattern`. -/
def cutAt (pattern s : List Char) : Option (List Char × List Char) := cutAtFrom pattern [] s

/-- Whether `pattern` occurs in the text. -/
def occursIn (pattern s : List Char) : Bool := (cutAt pattern s).isSome

example : cutAt "*/".toList "a */ b */".toList = some ("a ".toList, " b */".toList) := by decide

end ApiNotes.Text
