/-
Documents as trees of text.

A tree is what both written formats have in common: texts, flags, lists, and tables with
text keys in a fixed order.  A document is turned into a tree first; what a format then
does with the tree is its own affair.
-/
namespace ApiNotes

/-- A document as it is written, in no particular format. -/
inductive Tree
  | text (value : String)
  | flag (value : Bool)
  | list (items : List Tree)
  /-- Entries in the order in which they are written. -/
  | table (entries : List (String × Tree))

namespace Tree

instance : Inhabited Tree := ⟨.table []⟩

/-- A table of those fields that are present. -/
def ofFields (fields : List (Option (String × Tree))) : Tree := .table (fields.filterMap id)

/-- A field that is always written. -/
def field (name : String) (value : Tree) : Option (String × Tree) := some (name, value)

/-- A field that is written when it has a value. -/
def fieldSome {α : Type} (name : String) (write : α → Tree) (value : Option α) :
    Option (String × Tree) :=
  value.map fun x => (name, write x)

/-- A list field that is written unless it is empty. -/
def fieldList {α : Type} (name : String) (write : α → Tree) (values : List α) :
    Option (String × Tree) :=
  if values.isEmpty then none else some (name, .list (values.map write))

/-- A table whose values are written one by one. -/
def ofDict {α : Type} (write : α → Tree) (entries : List (String × α)) : Tree :=
  .table (entries.map fun e => (e.1, write e.2))

/-- A table field that is written unless it is empty. -/
def fieldDict {α : Type} (name : String) (write : α → Tree) (entries : List (String × α)) :
    Option (String × Tree) :=
  if entries.isEmpty then none else some (name, ofDict write entries)

end Tree

end ApiNotes
