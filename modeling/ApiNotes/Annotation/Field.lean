/-
Fields of a tag's body.

Every tag has a fixed number of fields.  All but the last are single words; the last
one takes the rest of the body as it stands, so that a description may hold blanks and
line breaks.
-/
import ApiNotes.Text.Blank
import ApiNotes.Text.Search

namespace ApiNotes.Annotation

/-- The first fields of a text: words, and in the last place all that is left. -/
def fieldsOf : Nat → List Char → List (List Char)
  | 0, _ => []
  | 1, s =>
    let rest := Text.trim s
    if rest.isEmpty then [] else [rest]
  | n + 2, s =>
    match Text.trimStart s with
    | [] => []
    | rest =>
      let word := Text.firstRun rest
      word :: fieldsOf (n + 1) (rest.drop word.length)

/-- At most `count` fields of a body. -/
def splitFields (body : String) (count : Nat) : List String :=
  (fieldsOf count body.toList).map String.ofList

/-- The field at an index, empty when the body ran out before. -/
def fieldAt (fields : List String) (index : Nat) : String := fields.getD index ""

/-- The first line of a body and the lines after it, both without outer blanks. -/
def headAndTail (body : String) : String × String :=
  match Text.cutAt ['\n'] body.toList with
  | some (head, tail) => (String.ofList (Text.trim head), String.ofList (Text.trim tail))
  | none => (String.ofList (Text.trim body.toList), "")

example : splitFields "  a  b c \n d " 2 = ["a", "b c \n d"] := by decide +kernel

end ApiNotes.Annotation
