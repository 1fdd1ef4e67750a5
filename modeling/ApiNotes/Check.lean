/-
The vocabulary of checks.

A check looks at one value and either passes or names the first field that is wrong.
Checks over lists and tables put the place of the faulty element in front of the path,
so that each check only has to know its own value.
-/
import ApiNotes.Dict
import ApiNotes.Fault
import ApiNotes.Text.Blank

namespace ApiNotes.Check

/-- Fails when a condition does not hold. -/
def ensure (condition : Bool) (kind : FaultKind) (field : String) : Checked Unit :=
  if condition then .ok () else .error (Fault.of kind field)

/-- Fails when a field is blank. -/
def filled (value field : String) : Checked Unit :=
  ensure (!Text.isBlankText value) .missingField field

/-- Checks the elements of a list from an index on. -/
def eachFrom {α : Type} (check : α → Checked Unit) (field : String) : Nat → List α → Checked Unit
  | _, [] => .ok ()
  | index, x :: rest => do
    (check x).mapError (·.withinIndex field index)
    eachFrom check field (index + 1) rest

/-- Checks the elements of a list. -/
def each {α : Type} (check : α → Checked Unit) (field : String) (xs : List α) : Checked Unit :=
  eachFrom check field 0 xs

/-- Checks a value that may be absent. -/
def optional {α : Type} (check : α → Checked Unit) (field : String) : Option α → Checked Unit
  | none => .ok ()
  | some x => (check x).mapError (·.within field)

/-- Checks an entry of a table: its key is filled and its value is right. -/
def entry {α : Type} (check : α → Checked Unit) (field : String) (e : String × α) :
    Checked Unit := do
  (filled e.1 "").mapError (·.within field)
  (check e.2).mapError (·.withinKey field e.1)

/-- Checks the entries of a table. -/
def entries {α : Type} (check : α → Checked Unit) (field : String) : Dict α → Checked Unit
  | [] => .ok ()
  | e :: rest => do
    entry check field e
    entries check field rest

/-- Fails at the first element of a list that clashes with one before it. -/
def noClash {α : Type} (clash : α → α → Bool) (fault : Nat → Fault) :
    List α → List α → Checked Unit
  | _, [] => .ok ()
  | before, x :: rest =>
    if before.any (clash · x) then .error (fault before.length)
    else noClash clash fault (before ++ [x]) rest

end ApiNotes.Check
