/-
Trees as YAML text, in block layout.

Tables are indented by two blanks per level, and lists stand at the level of the key that
holds them.  Where something starts right behind the mark of a list entry or of a long
key, its first line goes on there.  Empty tables and lists are written in brackets.
-/
import ApiNotes.Tree
import ApiNotes.Yaml.Style

namespace ApiNotes.Yaml

/-- Text that has been written, and whether it ends at the start of a line. -/
structure Page where
  text : String := ""
  fresh : Bool := true

namespace Page

/-- Goes to a column of the next line, or of this one when nothing is written on it. -/
def line (page : Page) (column : Nat) : Page :=
  let start := if page.fresh then page.text else page.text.push '\n'
  ⟨start ++ String.ofList (indentation column), false⟩

/-- Writes on. -/
def put (page : Page) (text : String) : Page := ⟨page.text ++ text, false⟩

/-- Writes a scalar behind a blank.  A block may end with a line break of its own. -/
def scalar (page : Page) (value : List Char) : Page :=
  ⟨page.text ++ String.ofList (' ' :: value), value.getLast?.any isBreak⟩

end Page

/-- Where a value starts. -/
inductive Place
  /-- Behind a key and its colon. -/
  | afterKey
  /-- Behind a mark that leaves room for a first line. -/
  | afterMark
  /-- On an empty page. -/
  | top

/-- The start of the entry of a table or list at a column: its first one may go on behind a mark. -/
def startEntry (page : Page) (place : Place) (first : Bool) (column : Nat) : Page :=
  match place, first with
  | .afterMark, true => page.put " "
  | .top, true => page
  | _, _ => page.line column

mutual

/-- Writes a value that belongs to something at `column`. -/
def writeValue (page : Page) (place : Place) (column : Nat) : Tree → Page
  | .text value => page.scalar (scalarText (column + 2) value)
  | .flag value => page.scalar (if value then "true" else "false").toList
  | .list items =>
    if items.isEmpty then page.put " []"
    else
      let inner := match place with
        | .afterMark => column + 2
        | _ => column
      writeItems page place true inner items
  | .table entries =>
    if entries.isEmpty then page.put " \x7b\x7d"
    else
      let inner := match place with
        | .top => column
        | _ => column + 2
      writeEntries page place true inner entries

/-- Writes the elements of a list. -/
def writeItems (page : Page) (place : Place) (first : Bool) (column : Nat) : List Tree → Page
  | [] => page
  | item :: rest =>
    let page := (startEntry page place first column).put "-"
    writeItems (writeValue page .afterMark column item) place false column rest

/-- Writes the entries of a table.  A key that is too long for one line gets a line of its own. -/
def writeEntries (page : Page) (place : Place) (first : Bool) (column : Nat) :
    List (String × Tree) → Page
  | [] => page
  | (key, value) :: rest =>
    let page := startEntry page place first column
    let written := scalarText (column + 2) key
    let page :=
      if isShortKey key then
        writeValue (page.put (String.ofList written ++ ":")) .afterKey column value
      else
        let page := ((page.put "?").scalar written).line column
        writeValue (page.put ":") .afterMark column value
    writeEntries page place false column rest

end

/-- A tree as a document; it ends with a line break. -/
def write (t : Tree) : String :=
  let page := writeValue {} .top 0 t
  if page.fresh then page.text else page.text.push '\n'

end ApiNotes.Yaml
