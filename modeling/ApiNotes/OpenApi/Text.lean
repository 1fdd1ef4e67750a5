/-
Documents as text.

Both formats write the same tree and read the same nodes, so what can be written can be
read back, whichever format is chosen.
-/
import ApiNotes.Format
import ApiNotes.Json.Reader
import ApiNotes.Json.Writer
import ApiNotes.OpenApi.Read
import ApiNotes.OpenApi.Written
import ApiNotes.Yaml.Reader
import ApiNotes.Yaml.Writer

namespace ApiNotes

/-- A tree as text. -/
def Format.write (format : Format) (tree : Tree) : String :=
  match format with
  | .yaml => Yaml.write tree
  | .json => Json.write tree

/-- The node that a text holds. -/
def Format.read? (format : Format) (text : String) : Option Node :=
  match format with
  | .yaml => Yaml.read? text
  | .json => Json.read? text

namespace OpenApi.Document

/-- The text of a document. -/
def toText (document : Document) (format : Format) : String := format.write document.toTree

/-- The document that a text holds. -/
def ofText? (text : String) (format : Format) : Option Document :=
  (format.read? text).bind ofNode?

end OpenApi.Document

end ApiNotes
