/-
The parts of a YAML document, with the anchors and aliases in it.

An alias stands for the part with its anchor.  Anchors are numbered: a new name gets the
number of names known before it, and so does a name that is used again; the last part under
a number is the one that counts.  An alias can stand inside its own part, so following
aliases need not end; a document goes 128 levels deep, and follows a hundred aliases for each
of its parts at most.
-/
import ApiNotes.Node

namespace ApiNotes.Yaml

/-- A part of a document; anchors and aliases carry labels. -/
inductive Part (α : Type)
  | alias (label : α)
  | scalar (form : ScalarForm) (value : String)
  | list (items : List (Part α))
  | table (entries : List (Part α × Part α))
  | tagged (tag : String) (part : Part α)
  | anchored (label : α) (part : Part α)

namespace Part

/-- A place where nothing is written. -/
def empty {α : Type} : Part α := .scalar .plain ""

instance {α : Type} : Inhabited (Part α) := ⟨empty⟩

/-! ### Numbers for anchors -/

mutual

/-- A part with numbers in place of names, and the numbers of the names known behind it.  An alias
needs a name that is known. -/
def number? (known : Dict Nat) : Part String → Option (Part Nat × Dict Nat)
  | .alias name => (Dict.get? known name).map fun n => (.alias n, known)
  | .scalar form value => some (.scalar form value, known)
  | .list items => (numberItems? known items).map fun (items, known) => (.list items, known)
  | .table entries =>
    (numberEntries? known entries).map fun (entries, known) => (.table entries, known)
  | .tagged tag part => (number? known part).map fun (part, known) => (.tagged tag part, known)
  | .anchored name part =>
    let n := known.length
    (number? (Dict.insert known name n) part).map fun (part, known) => (.anchored n part, known)

/-- Numbers the elements of a list. -/
def numberItems? (known : Dict Nat) :
    List (Part String) → Option (List (Part Nat) × Dict Nat)
  | [] => some ([], known)
  | part :: rest => do
    let (part, known) ← number? known part
    let (rest, known) ← numberItems? known rest
    some (part :: rest, known)

/-- Numbers the entries of a table. -/
def numberEntries? (known : Dict Nat) :
    List (Part String × Part String) → Option (List (Part Nat × Part Nat) × Dict Nat)
  | [] => some ([], known)
  | (key, value) :: rest => do
    let (key, known) ← number? known key
    let (value, known) ← number? known value
    let (rest, known) ← numberEntries? known rest
    some ((key, value) :: rest, known)

end

mutual

/-- The parts that have an anchor, later ones first, in front of others. -/
def anchors (others : List (Nat × Part Nat)) : Part Nat → List (Nat × Part Nat)
  | .list items => anchorsOfItems others items
  | .table entries => anchorsOfEntries others entries
  | .tagged _ part => anchors others part
  | .anchored n part => anchors ((n, part) :: others) part
  | _ => others

/-- The anchors of the elements of a list. -/
def anchorsOfItems (others : List (Nat × Part Nat)) : List (Part Nat) → List (Nat × Part Nat)
  | [] => others
  | part :: rest => anchorsOfItems (anchors others part) rest

/-- The anchors of the entries of a table. -/
def anchorsOfEntries (others : List (Nat × Part Nat)) :
    List (Part Nat × Part Nat) → List (Nat × Part Nat)
  | [] => others
  | (key, value) :: rest => anchorsOfEntries (anchors (anchors others key) value) rest

end

mutual

/-- The number of marks in a part: one for a scalar or an alias, two for a list or table. -/
def markCount {α : Type} : Part α → Nat
  | .list items => markCountItems items + 2
  | .table entries => markCountEntries entries + 2
  | .tagged _ part | .anchored _ part => markCount part
  | _ => 1

/-- The number of marks in some elements. -/
def markCountItems {α : Type} : List (Part α) → Nat
  | [] => 0
  | part :: rest => markCount part + markCountItems rest

/-- The number of marks in some entries. -/
def markCountEntries {α : Type} : List (Part α × Part α) → Nat
  | [] => 0
  | (key, value) :: rest => markCount key + markCount value + markCountEntries rest

end

/-! ### Nodes -/

/-- The tags of a part, and the part without them and without anchors. -/
def peel {α : Type} : Part α → List String × Part α
  | .tagged tag part => let (tags, part) := peel part; (tag :: tags, part)
  | .anchored _ part => peel part
  | part => ([], part)

/-- The node of a part that has at most `depth` levels.  The state is the number of aliases that
may still be followed. -/
def nodeWithin (anchored : List (Nat × Part Nat)) : Nat → Part Nat → StateM Nat Node
  | depth, part => do
    let jumps ← get
    let target ← match part with
      | .alias n => do
        set (jumps - 1)
        pure (if jumps = 0 then none else (anchored.find? (·.1 == n)).map (·.2))
      | part => pure (some part)
    match target with
    | none => pure .unreadable
    | some part =>
      let (tags, part) := peel part
      let node ← match part with
        | .scalar form value => pure (.scalar form value)
        | .list items =>
          match depth with
          | 0 => pure .unreadable
          | depth + 1 => .list <$> items.mapM (nodeWithin anchored depth)
        | .table entries =>
          match depth with
          | 0 => pure .unreadable
          | depth + 1 => .table <$> entries.mapM fun (key, value) => do
            let key ← nodeWithin anchored depth key
            let value ← nodeWithin anchored depth value
            pure (key, value)
        | _ => pure .unreadable
      pure (tags.foldr .tagged node)

/-- The node of a document. -/
def node? (part : Part String) : Option Node := do
  let (part, _) ← part.number? []
  some ((nodeWithin (anchors [] part) 128 part).run (100 * part.markCount)).1

end Part

end ApiNotes.Yaml
