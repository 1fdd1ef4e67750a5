/-
The formats in which documents are written.
-/
import ApiNotes.Path
import ApiNotes.Text.Case

namespace ApiNotes

/-- A format for documents. -/
inductive Format
  | yaml
  | json
deriving DecidableEq, Repr, Inhabited

namespace Format

/-- The name of a format. -/
def name : Format → String
  | .yaml => "yaml"
  | .json => "json"

/-- The format with a name, written exactly so. -/
def ofName? (name : String) : Option Format :=
  if name = "yaml" then some .yaml else if name = "json" then some .json else none

/-- The format that a file's name promises: YAML, unless the extension is `json`. -/
def ofPath (path : String) : Format :=
  if (Path.extension? path).any (Text.eqIgnoreCase "json") then .json else .yaml

theorem ofName?_name (format : Format) : ofName? format.name = some format := by
  cases format <;> decide

example : ofPath "out/API.Json" = .json ∧ ofPath "json" = .yaml := by decide +kernel

end Format

end ApiNotes
