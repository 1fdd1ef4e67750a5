/-
File paths.

A path is text; what it means is its list of components.  Repeated slashes and inner
`.` steps mean nothing, so `a//b`, `a/./b` and `a/b/` name the same place, while a
leading `.` is kept: `./a` and `a` are different paths that happen to reach one file.
Paths are ordered component by component, which puts `a/z` before `a-b`.
-/
namespace ApiNotes.Path

/-- One step of a path. -/
inductive Component
  /-- The leading slash. -/
  | root
  /-- A leading `.`. -/
  | here
  /-- A step `..` to the directory above. -/
  | above
  /-- A step into the named entry. -/
  | entry (name : String)
deriving DecidableEq, Repr

/-- The pieces of a path between its slashes. -/
def segments (path : String) : List String :=
  (path.toList.splitOn '/').map String.ofList

/-- The step that a segment stands for, when it stands for one behind the first segment. -/
def Component.ofSegment? (segment : String) : Option Component :=
  if segment = "" ∨ segment = "." then none
  else if segment = ".." then some .above
  else some (.entry segment)

/-- The steps of a path. -/
def components (path : String) : List Component :=
  match segments path with
  | [] => []
  | first :: rest =>
    let tail := rest.filterMap Component.ofSegment?
    if first = "" then if rest.isEmpty then [] else .root :: tail
    else if first = "." then .here :: tail
    else (Component.ofSegment? first).toList ++ tail

/-- Where a step stands among others: the root first, entries last. -/
def Component.rank : Component → Nat
  | .root => 0
  | .here => 1
  | .above => 2
  | .entry _ => 3

/-- The order of steps; entries are ordered by their names. -/
def Component.compare : Component → Component → Ordering
  | .entry a, .entry b => Ord.compare a b
  | a, b => Ord.compare a.rank b.rank

/-- The order of paths, step by step; a path comes before its extensions. -/
def compareComponents : List Component → List Component → Ordering
  | [], [] => .eq
  | [], _ :: _ => .lt
  | _ :: _, [] => .gt
  | a :: as, b :: bs => (a.compare b).then (compareComponents as bs)

/-- Whether one path does not come after another. -/
def le (a b : String) : Bool :=
  compareComponents (components a) (components b) ≠ .gt

/-- The name of the entry that the path ends in, when its last step is into an entry. -/
def fileName? (path : String) : Option String :=
  match (components path).getLast? with
  | some (.entry name) => some name
  | _ => none

/-- What stands behind the last dot of the file's name, unless that dot starts the name. -/
def extension? (path : String) : Option String := do
  let name ← fileName? path
  let pieces := name.toList.splitOn '.'
  let stem := pieces.dropLast
  if stem.isEmpty || stem == [[]] then none else pieces.getLast?.map String.ofList

/-- Segments, last one first, without the closing ones that mean nothing. -/
def trimSegments : List String → List String
  | [] => []
  | [first] => [first]
  | last :: rest => if last = "" ∨ last = "." then trimSegments rest else last :: rest

/-- The path without its last step; the empty path and the root have none. -/
def parent? (path : String) : Option String :=
  match trimSegments (segments path).reverse with
  | [] => none
  | [first] => if first = "" then none else some ""
  | _ :: rest =>
    let above := trimSegments rest
    some (if above = [""] then "/" else "/".intercalate above.reverse)

/-- The path of an entry of a directory. -/
def join (directory name : String) : String :=
  if directory.isEmpty || directory.toList.getLast? == some '/' then directory ++ name
  else directory ++ "/" ++ name

example : extension? "dir/..go" = some "go" ∧ extension? ".go" = none ∧ extension? "x." = some "" := by
  decide +kernel

example : parent? "a//b/./c/" = some "a//b" ∧ parent? "f" = some "" ∧ parent? "/f" = some "/" := by
  decide +kernel

example : le "p/a/b.go" "p/a-b.go" = true ∧ le "./p" "p" = true := by decide +kernel

end ApiNotes.Path
