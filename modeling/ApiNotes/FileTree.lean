/-
Trees of files.

A tree is what a directory held at one moment: the names of its entries, and the text of
the files that are text.  Paths are resolved against a tree step by step, and every step
but the last has to lead to a directory, which is why a slash behind the name of a file
leads nowhere.  Nothing can be reached above the root of a tree, and nothing through a link.
-/
import ApiNotes.Path

namespace ApiNotes

/-- A file, a directory with what is below it, or something else. -/
inductive FileTree
  /-- A file, with its content if it is text. -/
  | file (content : Option String)
  | directory (entries : List (String × FileTree))
  /-- What is neither, such as a pipe or a link. -/
  | special

namespace FileTree

instance : Inhabited FileTree := ⟨.directory []⟩

/-- Whether this is a directory. -/
def isDirectory : FileTree → Bool
  | .directory _ => true
  | .file _ | .special => false

/-- Whether this is a file. -/
def isFile : FileTree → Bool
  | .file _ => true
  | .directory _ | .special => false

/-- The entries of a directory; nothing else has any. -/
def entries : FileTree → List (String × FileTree)
  | .directory entries => entries
  | .file _ | .special => []

/-- What stands under a list of names, each below the one before it. -/
def get? : FileTree → List String → Option FileTree
  | tree, [] => some tree
  | tree, name :: rest =>
    match tree.entries.lookup name with
    | some below => get? below rest
    | none => none

/-- Whether a directory stands under a list of names. -/
def isDirectoryAt (tree : FileTree) (names : List String) : Bool :=
  (tree.get? names).any isDirectory

/-! ### Paths -/

/-- The names behind one more step from a place. -/
def follow? (tree : FileTree) (names : List String) (segment : String) : Option (List String) :=
  if !tree.isDirectoryAt names then none
  else if segment.isEmpty || segment == "." then some names
  else if segment == ".." then if names.isEmpty then none else some names.dropLast
  else some (names ++ [segment])

/-- The names of the place that a path leads to; nothing need be there. -/
def locate? (tree : FileTree) (path : String) : Option (List String) :=
  if path.isEmpty || path.toList.head? == some '/' then none
  else (Path.segments path).foldlM tree.follow? []

/-- What a path leads to. -/
def resolve? (tree : FileTree) (path : String) : Option FileTree :=
  (tree.locate? path).bind tree.get?

/-! ### Changes -/

mutual

/-- Puts something under a list of names, in place of what is there. -/
def put (content : FileTree) : List String → FileTree → FileTree
  | [], _ => content
  | name :: rest, .directory entries =>
    if (entries.lookup name).isSome then .directory (putEntry content name rest entries)
    else .directory (entries ++ [(name, content)])
  | _ :: _, .file old => .file old
  | _ :: _, .special => .special

/-- Puts something below the entry with a name. -/
def putEntry (content : FileTree) (name : String) (names : List String) :
    List (String × FileTree) → List (String × FileTree)
  | [] => []
  | (other, tree) :: rest =>
    if other = name then (other, put content names tree) :: rest
    else (other, tree) :: putEntry content name names rest

end

/-- The tree with a directory at the place one more step leads to, and that place. -/
def enter? (place : FileTree × List String) (segment : String) :
    Option (FileTree × List String) := do
  let (tree, names) := place
  let names ← tree.follow? names segment
  match tree.get? names with
  | some (.directory _) => some (tree, names)
  | some (.file _) | some .special => none
  | none => some (put (.directory []) names tree, names)

/-- The tree with all directories of a path; no answer when something else is in their way. -/
def createDirectories? (tree : FileTree) (path : String) : Option FileTree :=
  if path.isEmpty then some tree
  else if path.toList.head? == some '/' then none
  else ((Path.segments path).foldlM enter? (tree, [])).map (·.1)

/-- Whether a path ends in a name, and not in a slash or a step that is none. -/
def endsInName (path : String) : Bool :=
  match (Path.segments path).getLast? with
  | some segment => !(segment.isEmpty || segment == "." || segment == "..")
  | none => false

/-- The tree with a text file; no answer when its directory is missing, or something that is no
file stands in its place. -/
def write? (tree : FileTree) (path content : String) : Option FileTree := do
  let names ← tree.locate? path
  guard (endsInName path && tree.isDirectoryAt names.dropLast && (tree.get? names).all isFile)
  some (put (.file (some content)) names tree)

/-- The tree that holds the given entries, and the directories above them. -/
def ofEntries (entries : List (String × FileTree)) : FileTree :=
  entries.foldl (fun tree (path, content) =>
    let parent := (Path.parent? path).getD ""
    match tree.createDirectories? parent with
    | none => tree
    | some tree =>
      match content with
      | .directory _ => (tree.createDirectories? path).getD tree
      | .file _ | .special =>
        match tree.locate? path with
        | some names => put content names tree
        | none => tree) (.directory [])

end FileTree

end ApiNotes
