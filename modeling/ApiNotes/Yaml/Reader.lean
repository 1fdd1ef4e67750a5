/-
YAML text as nodes.
-/
import ApiNotes.Yaml.Grammar
import ApiNotes.Yaml.Layout

namespace ApiNotes.Yaml

/-- Reads a text with one document at most; a text without one reads as an empty scalar. -/
def read? (text : String) : Option Node := do
  let s := text.toList
  guard (s.all isReadable)
  let tokens ← tokensOf? (unifyBreaks s)
  let part ← Part.ofDocument? tokens
  part.node?

end ApiNotes.Yaml
