/-
Tags: the units of an annotation.

A line whose first run of characters is `@` and ASCII letters opens a tag; the tag's
body is the rest of that line and all lines up to the next opener, kept verbatim but
for outer blanks.  Lines before the first opener belong to no tag.  A run that starts
like one of our own tags without being a tag name, such as `@api-param`, is a mistake
worth reporting rather than prose.
-/
import ApiNotes.Fault
import ApiNotes.Annotation.Field
import ApiNotes.Text.Line

namespace ApiNotes.Annotation

/-- A tag of an annotation. -/
structure Tag where
  /-- The name, without the `@`. -/
  name : String
  /-- All up to the next tag, without outer blanks. -/
  body : String
  /-- The place of the `@`. -/
  position : Position
deriving DecidableEq, Repr, Inhabited

/-- The fields of the tag's body. -/
def Tag.fields (tag : Tag) (count : Nat) : List String := splitFields tag.body count

/-- The tag name that a run of characters spells. -/
def tagName? : List Char → Option (List Char)
  | '@' :: name => if !name.isEmpty && name.all Char.isAlpha then some name else none
  | _ => none

/-- What a line is to the annotation around it. -/
inductive LineKind
  /-- Opens a tag: its name, and the line behind the name. -/
  | opener (name rest : List Char)
  /-- Starts like one of our tags without naming one. -/
  | malformed
  /-- Belongs to the tag before it. -/
  | prose
deriving DecidableEq, Repr

/-- The kind of a line. -/
def lineKind (line : List Char) : LineKind :=
  let text := Text.trimStart line
  let run := Text.firstRun text
  match tagName? run with
  | some name => .opener name (Text.trimStart (text.drop run.length))
  | none => if "@api".toList.isPrefixOf run then .malformed else .prose

/-- The place of the first character of a line that is not blank.  Only the first line of an
annotation starts somewhere inside its source line. -/
def linePosition (origin : Position) (index : Nat) (line : List Char) : Position :=
  { line := origin.line + index
    column := (if index = 0 then origin.column else 1) + (line.takeWhile Text.isBlank).length }

/-- Cuts lines, the first of which has the given index, into the prose before the first tag and
the tags. -/
def cutLines (origin : Position) :
    Nat → List (List Char) → Checked (List (List Char) × List Tag)
  | _, [] => .ok ([], [])
  | index, line :: rest =>
    match lineKind line with
    | .malformed =>
      .error ((Fault.of .malformedTag "").located (linePosition origin index line))
    | .prose => do
      let (prose, tags) ← cutLines origin (index + 1) rest
      .ok (line :: prose, tags)
    | .opener name first => do
      let (prose, tags) ← cutLines origin (index + 1) rest
      let tag : Tag :=
        { name := String.ofList name
          body := String.ofList (Text.trimEnd (Text.joinLines (first :: prose)))
          position := linePosition origin index line }
      .ok ([], tag :: tags)

/-- The tags of an annotation whose first character stands at `origin`. -/
def tagsOf (text : String) (origin : Position) : Checked (List Tag) := do
  let (_, tags) ← cutLines origin 0 (Text.lines text.toList)
  .ok tags

end ApiNotes.Annotation
