/-
The languages whose files are read.

A language is known by its name and by the extensions of its files; all that matters of it
otherwise is how it writes comments.  Extensions may be shared, and then the language that
stands first in the registry is the one.  Neither names nor extensions care about capitals.
-/
import ApiNotes.Annotation.Comment
import ApiNotes.Path
import ApiNotes.Text.Case

namespace ApiNotes

open Annotation (CommentStyle)

/-- A language of source files. -/
structure Language where
  name : String
  /-- The extensions of its files, with any number of dots in front. -/
  extensions : List String
  style : CommentStyle
deriving DecidableEq, Repr, Inhabited

namespace Language

/-- Whether a name is this language's. -/
def isNamed (language : Language) (name : String) : Bool := Text.eqIgnoreCase language.name name

/-- An extension without the dots in front. -/
def bareExtension (extension : String) : String :=
  String.ofList (extension.toList.dropWhile (· == '.'))

/-- Whether a file of this path is in the language. -/
def claims (language : Language) (path : String) : Bool :=
  match Path.extension? path with
  | some extension =>
    language.extensions.any fun known => Text.eqIgnoreCase (bareExtension known) extension
  | none => false

end Language

/-- The languages that are known, in order of precedence. -/
structure Registry where
  languages : List Language
deriving DecidableEq, Repr

namespace Registry

/-- The languages known from the start. -/
def standard : Registry where
  languages := [
    ⟨"go", [".go"], .slash⟩,
    ⟨"rust", [".rs"], .slash⟩,
    ⟨"c", [".h", ".c"], .slash⟩,
    ⟨"cpp", [".h", ".cpp", ".cxx", ".hpp", ".c"], .slash⟩,
    ⟨"php", [".php"], .slash⟩,
    ⟨"js", [".js", ".mjs"], .slash⟩,
    ⟨"ts", [".ts"], .slash⟩,
    ⟨"java", [".java"], .slash⟩,
    ⟨"python", [".py"], .hash⟩,
    ⟨"ruby", [".rb"], .hash⟩]

instance : Inhabited Registry := ⟨standard⟩

/-- The language with a name. -/
def get? (registry : Registry) (name : String) : Option Language :=
  registry.languages.find? (·.isNamed name)

/-- The language of a file. -/
def detect? (registry : Registry) (path : String) : Option Language :=
  registry.languages.find? (·.claims path)

/-- The registry with only the named languages, in its own order. -/
def only (registry : Registry) (names : List String) : Registry where
  languages := registry.languages.filter fun language => names.any language.isNamed

/-- The names of the languages. -/
def names (registry : Registry) : List String := registry.languages.map (·.name)

/-- Whether no language is known. -/
def isEmpty (registry : Registry) : Bool := registry.languages.isEmpty

end Registry

example : (Registry.standard.detect? "src/x.H").map (·.name) = some "c" := by decide +kernel

end ApiNotes
