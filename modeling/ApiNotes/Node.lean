/-
What is found in a document that is read.

A format's reader turns text into nodes; what a node means is decided by the place that
reads it.  The two formats differ in how much they say: JSON marks text, numbers, flags
and null, while most YAML scalars are just characters, so that one and the same scalar
is text where text is asked for and a flag where a flag is.  A place that cannot tell
what it wants settles its node first: then every scalar is what its form says.

Where a record is wanted, its fields stand in a table under their names.  A repeated field
is a mistake, an unknown one is passed over together with whatever it holds, and so are
the parts of a text that only a reader of their value would refuse.
-/
import ApiNotes.Dict
import ApiNotes.Yaml.Plain

namespace ApiNotes

/-- How a scalar is written. -/
inductive ScalarForm
  /-- Without quotes. -/
  | plain
  /-- As a literal block. -/
  | literal
  /-- In quotes, or as a folded block. -/
  | quoted
deriving DecidableEq, Repr, Inhabited

/-- A part of a document that has been read. -/
inductive Node
  | null
  | flag (value : Bool)
  /-- A number that can count the fields of a record. -/
  | natural (value : Nat)
  /-- Any other number. -/
  | number
  | text (value : String)
  /-- A scalar that is not settled. -/
  | scalar (form : ScalarForm) (value : String)
  /-- A list, the elements of which may also stand for the fields of a record, in order. -/
  | row (items : List Node)
  /-- A list that is nothing but a list. -/
  | list (items : List Node)
  | table (entries : List (Node × Node))
  /-- A node with a tag that says what it is. -/
  | tagged (tag : String) (node : Node)
  /-- A part that can be passed over, and not read. -/
  | unreadable

namespace Node

instance : Inhabited Node := ⟨.null⟩

mutual

/-- The number of levels below and including a node. -/
def height : Node → Nat
  | .row items | .list items => heightItems items + 1
  | .table entries => heightEntries entries + 1
  | .tagged _ node => height node + 1
  | _ => 1

/-- The greatest height of some nodes. -/
def heightItems : List Node → Nat
  | [] => 0
  | node :: rest => max (height node) (heightItems rest)

/-- The greatest height of the nodes of some entries. -/
def heightEntries : List (Node × Node) → Nat
  | [] => 0
  | (key, value) :: rest => max (max (height key) (height value)) (heightEntries rest)

end

mutual

/-- Keeps lists and tables down to a depth; deeper ones cannot be read any more. -/
def prune : Nat → Node → Node
  | depth, .row items => match depth with
    | 0 => .unreadable
    | depth + 1 => .row (pruneItems depth items)
  | depth, .list items => match depth with
    | 0 => .unreadable
    | depth + 1 => .list (pruneItems depth items)
  | depth, .table entries => match depth with
    | 0 => .unreadable
    | depth + 1 => .table (pruneEntries depth entries)
  | depth, .tagged tag node => .tagged tag (prune depth node)
  | _, node => node

/-- Prunes the elements of a list. -/
def pruneItems (depth : Nat) : List Node → List Node
  | [] => []
  | node :: rest => prune depth node :: pruneItems depth rest

/-- Prunes the entries of a table. -/
def pruneEntries (depth : Nat) : List (Node × Node) → List (Node × Node)
  | [] => []
  | (key, value) :: rest => (prune depth key, prune depth value) :: pruneEntries depth rest

end

/-! ### Settling -/

/-- The tag of the core schema with a given name. -/
def coreTag (name : String) : String := "tag:yaml.org,2002:" ++ name

/-- Whether a tag is private to its document. -/
def isLocalTag (tag : String) : Bool := tag.toList.head? == some '!'

/-- What a plain scalar is by its form. -/
def settlePlain (value : String) : Option Node :=
  match Yaml.plainKind value with
  | .null => some .null
  | .flag b => some (.flag b)
  | .natural n => some (.natural n)
  | .number => some .number
  | .wide => none
  | .text => some (.text value)

/-- What a scalar is by its tag. -/
def settleTagged (tag value : String) : Option Node :=
  if tag = coreTag "bool" then (Yaml.flagWord? value).map .flag
  else if tag = coreTag "int" then
    match Yaml.plainKind value with
    | .natural n => some (.natural n)
    | .number =>
      if (Yaml.magnitude? (value.toList.dropWhile (· == '-'))).isSome then some .number else none
    | _ => none
  else if tag = coreTag "float" then
    if Yaml.isFloat value.toList then some .number else none
  else if tag = coreTag "null" then if Yaml.isNullWord value then some .null else none
  else some (.text value)

mutual

/-- The node with every scalar settled.  Private tags say something that no place here asks for,
and cannot be settled. -/
def settle? : Node → Option Node
  | .unreadable => none
  | .scalar .plain value => settlePlain value
  | .scalar _ value => some (.text value)
  | .tagged tag node =>
    if isLocalTag tag then none
    else
      match node with
      | .scalar _ value => settleTagged tag value
      | node => settle? node
  | .row items | .list items => (settleItems? items).map .row
  | .table entries => (settleEntries? entries).map .table
  | node => some node

/-- Settles the elements of a list. -/
def settleItems? : List Node → Option (List Node)
  | [] => some []
  | node :: rest => do
    let node ← settle? node
    let rest ← settleItems? rest
    some (node :: rest)

/-- Settles the entries of a table. -/
def settleEntries? : List (Node × Node) → Option (List (Node × Node))
  | [] => some []
  | (key, value) :: rest => do
    let key ← settle? key
    let value ← settle? value
    let rest ← settleEntries? rest
    some ((key, value) :: rest)

end

/-! ### Values -/

/-- The node where text is wanted. -/
def text? : Node → Option String
  | .text value | .scalar _ value => some value
  | .tagged _ node => text? node
  | _ => none

/-- The node where a flag is wanted. -/
def flag? : Node → Option Bool
  | .flag value => some value
  | .scalar .plain value | .tagged _ (.scalar .plain value) => Yaml.flagWord? value
  | .tagged tag (.scalar .literal value) =>
    if tag = coreTag "bool" then Yaml.flagWord? value else none
  | _ => none

/-- The node where a value may be missing. -/
def maybe? {α : Type} (read : Node → Option α) (node : Node) : Option (Option α) :=
  match node with
  | .null => some none
  | .scalar .plain value =>
    if value.isEmpty || Yaml.isNullWord value then some none else (read node).map some
  | .tagged tag (.scalar .plain value) =>
    if tag = coreTag "null" then if Yaml.isNullWord value then some none else none
    else (read node).map some
  | _ => (read node).map some

/-- The node where a list is wanted; a plain scalar without characters is an empty one. -/
def items? : Node → Option (List Node)
  | .row items | .list items => some items
  | .scalar .plain value => if value.isEmpty then some [] else none
  | .tagged _ node => items? node
  | _ => none

/-- The node where a table is wanted; a plain scalar without characters is an empty one. -/
def entries? : Node → Option (List (Node × Node))
  | .table entries => some entries
  | .scalar .plain value => if value.isEmpty then some [] else none
  | .tagged _ node => entries? node
  | _ => none

/-- The node where a list of values is wanted. -/
def list? {α : Type} (read : Node → Option α) (node : Node) : Option (List α) := do
  (← node.items?).mapM read

/-- The node where a table of values is wanted; the last value of a key counts. -/
def dict? {α : Type} (read : Node → Option α) (node : Node) : Option (Dict α) := do
  let entries ← (← node.entries?).mapM fun (key, value) => do
    let key ← key.text?
    let value ← read value
    some (key, value)
  some (Dict.ofEntries entries)

/-! ### Records -/

/-- The fields of a record as they were found. -/
structure Fields where
  /-- Whether the fields stood in order, without their names. -/
  inOrder : Bool
  found : Dict Node

/-- The field that a key names, if it is a known one; no answer when the key is no name at all. -/
def fieldName? (names : List String) (key : Node) : Option (Option String) :=
  match key with
  | .natural n => some names[n]?
  | key => key.text?.map fun name => if names.contains name then some name else none

/-- Collects the known fields of a table; none may stand twice. -/
def collect? (names : List String) : Dict Node → List (Node × Node) → Option (Dict Node)
  | found, [] => some found
  | found, (key, value) :: rest => do
    match ← fieldName? names key with
    | none => collect? names found rest
    | some name =>
      if (Dict.get? found name).isSome then none
      else collect? names (Dict.insert found name value) rest

/-- The node where a record with the given fields is wanted. -/
def fields? (names : List String) : Node → Option Fields
  | .row items =>
    if items.length ≤ names.length then some ⟨true, names.zip items⟩ else none
  | node => do
    let entries ← node.entries?
    let found ← collect? names [] entries
    some ⟨false, found⟩

namespace Fields

/-- A field that has to be there. -/
def required {α : Type} (fields : Fields) (name : String) (read : Node → Option α) : Option α :=
  (Dict.get? fields.found name).bind read

/-- A field that may be missing or without a value.  Where fields stand in order none can be
missing. -/
def maybe {α : Type} (fields : Fields) (name : String) (read : Node → Option α) :
    Option (Option α) :=
  match Dict.get? fields.found name with
  | some node => node.maybe? read
  | none => if fields.inOrder then none else some none

/-- A field that has a value of its own when it is missing. -/
def orElse {α : Type} (fields : Fields) (name : String) (default : α) (read : Node → Option α) :
    Option α :=
  match Dict.get? fields.found name with
  | some node => read node
  | none => some default

end Fields

end Node

end ApiNotes
