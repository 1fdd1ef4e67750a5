/-
What is wrong with an annotation or a document, and where.

A check that fails names the field it looked at; every level around it then puts its
own step in front, so that the finished fault carries the whole path from the root
of the document down to the field.  The path stays a list of steps until the fault is
shown, and the file and position are added by whoever knows them.
-/
import ApiNotes.Position

namespace ApiNotes

/-- The ways in which an annotation or a document can be wrong. -/
inductive FaultKind
  /-- A run that starts like one of our tags and is not a tag name. -/
  | malformedTag
  /-- A type token outside the type grammar. -/
  | invalidType
  /-- A status that is no number, or none that HTTP has. -/
  | invalidStatus
  /-- A field that has to be filled and is not. -/
  | missingField
  /-- A field whose value is malformed. -/
  | invalidFormat
  /-- Two entities under one name. -/
  | duplicate
deriving DecidableEq, Repr, Inhabited

/-- The words for a kind of fault. -/
def FaultKind.message : FaultKind → String
  | .malformedTag => "malformed tag"
  | .invalidType => "invalid type"
  | .invalidStatus => "invalid status"
  | .missingField => "missing required field"
  | .invalidFormat => "invalid format"
  | .duplicate => "duplicate reference"

/-- One step on the way to a field. -/
inductive Step
  /-- Into a named field. -/
  | field (name : String)
  /-- Into an element of a list. -/
  | index (position : Nat)
  /-- Into an entry of a table. -/
  | key (name : String)
deriving DecidableEq, Repr, Inhabited

/-- The way from the root of a document to a field, outermost step first. -/
abbrev FieldPath := List Step

namespace FieldPath

/-- The path to a field of the value at hand; the empty name means the value itself. -/
def ofField (name : String) : FieldPath := if name = "" then [] else [.field name]

/-- The text of a step that is not the first one. -/
def stepText : Step → String
  | .field name => "." ++ name
  | .index position => "[" ++ toString position ++ "]"
  | .key name => "[" ++ name ++ "]"

/-- The dotted text of a path. -/
def render : FieldPath → String
  | [] => ""
  | .field name :: rest => name ++ String.join (rest.map stepText)
  | step :: rest => stepText step ++ String.join (rest.map stepText)

end FieldPath

/-- A violated rule: its kind, the field, and the place of the annotation behind it. -/
structure Fault where
  kind : FaultKind
  path : FieldPath := []
  position : Position := {}
  file : Option String := none
deriving DecidableEq, Repr, Inhabited

/-- The outcome of a step that can run into a fault. -/
abbrev Checked (α : Type) := Except Fault α

namespace Fault

/-- A fault of the named field of the value at hand. -/
def of (kind : FaultKind) (field : String) : Fault := { kind, path := FieldPath.ofField field }

/-- The fault, placed at a position. -/
def located (fault : Fault) (position : Position) : Fault := { fault with position }

/-- The fault, in a file; a file that is already known stays. -/
def inFile (fault : Fault) (file : String) : Fault :=
  { fault with file := fault.file.or (some file) }

/-- The fault, seen from a value that holds the faulty one in a field. -/
def within (fault : Fault) (field : String) : Fault :=
  { fault with path := .field field :: fault.path }

/-- The fault, seen from a value that holds the faulty one in a list. -/
def withinIndex (fault : Fault) (field : String) (position : Nat) : Fault :=
  { fault with path := .field field :: .index position :: fault.path }

/-- The fault, seen from a value that holds the faulty one in a table. -/
def withinKey (fault : Fault) (field key : String) : Fault :=
  { fault with path := .field field :: .key key :: fault.path }

/-- The line that reports a fault: file, place, kind and field, as far as they are known. -/
def message (fault : Fault) : String :=
  let file := match fault.file with
    | some file => file ++ ":"
    | none => ""
  let place := if fault.position.line > 0 then
      toString fault.position.line ++ ":" ++ toString fault.position.column ++ ":"
    else ""
  let gap := if fault.file.isSome || fault.position.line > 0 then " " else ""
  let field := if fault.path.isEmpty then "" else " at `" ++ fault.path.render ++ "`"
  file ++ place ++ gap ++ fault.kind.message ++ field

end Fault

end ApiNotes
