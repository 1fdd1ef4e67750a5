/-
The source files of a directory.

Everything below a directory counts, apart from hidden entries and from the directories
that hold what others have written or what a build leaves behind.  The directory itself
may have any name.  A file is a source file when its extension belongs to a language of the
registry; what is neither a file nor a directory is none.  The order is that of the paths,
whatever order the entries come in.
-/
import ApiNotes.Failure
import ApiNotes.FileTree
import ApiNotes.Language

namespace ApiNotes

/-- A file in a known language. -/
structure SourceFile where
  path : String
  language : Language
  /-- What it holds, if that is text. -/
  content : Option String
deriving DecidableEq, Repr

namespace FileTree

/-- The names of directories that are passed over. -/
def skippedNames : List String := ["target", "node_modules", "vendor"]

/-- Whether an entry is passed over, with all that is below it. -/
def isSkipped (name : String) (tree : FileTree) : Bool :=
  name.toList.head? == some '.' || (tree.isDirectory && skippedNames.contains name)

mutual

/-- The files at a path: the file that is there, or those below the directory. -/
def filesAt (path : String) : FileTree → List (String × Option String)
  | .file content => [(path, content)]
  | .directory entries => filesBelow path entries
  | .special => []

/-- The files below a directory, without those that are passed over. -/
def filesBelow (path : String) : List (String × FileTree) → List (String × Option String)
  | [] => []
  | (name, tree) :: rest =>
    (if isSkipped name tree then [] else filesAt (Path.join path name) tree) ++
      filesBelow path rest

end

/-- The entries of a directory that are files. -/
def directFiles (entries : List (String × FileTree)) : List (String × FileTree) :=
  entries.filter fun e => e.2.isFile

/-- The source files below a directory, in the order of their paths; without `recursive` only those
directly in it. -/
def sources (registry : Registry) (recursive : Bool) (path : String)
    (entries : List (String × FileTree)) : List SourceFile :=
  let walked := if recursive then entries else directFiles entries
  let found := (filesBelow path walked).filterMap fun (path, content) =>
    (registry.detect? path).map fun language => { path, language, content : SourceFile }
  found.mergeSort fun a b => Path.le a.path b.path

/-- The source files of what a path leads to, which has to be a directory. -/
def scan (registry : Registry) (recursive : Bool) (path : String) (found : Option FileTree) :
    Except Failure (List SourceFile) :=
  match found with
  | some (.directory entries) => .ok (sources registry recursive path entries)
  | _ => .error (.notDirectory path)

end FileTree

end ApiNotes
