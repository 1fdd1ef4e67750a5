/-
The configuration of a run: which directories are read, and where the document goes.

A configuration is checked before anything is read.  The checks go from the outside in and
stop at the first one that fails: the version, the inputs, the output, and then the inputs
one by one.
-/
import ApiNotes.Check
import ApiNotes.Format
import ApiNotes.Language
import ApiNotes.Node
import ApiNotes.Version
import ApiNotes.Yaml.Reader

namespace ApiNotes

/-- A directory of sources. -/
structure Input where
  directory : String := ""
  /-- The names of the languages that are read; without names all of them are. -/
  languages : List String := []
  /-- Whether directories below count. -/
  recursive : Bool := true
deriving DecidableEq, Repr, Inhabited

/-- Where the document goes. -/
structure Output where
  /-- The file for the document; without one it is printed. -/
  path : Option String := none
  format : Format := .yaml
deriving DecidableEq, Repr, Inhabited

/-- The configuration of a run. -/
structure Config where
  version : String := ""
  inputs : List Input := []
  output : Option Output := none
deriving DecidableEq, Repr, Inhabited

/-! ### Reading -/

/-- Reads the name of a format.  It may also be a private tag in front of nothing. -/
def Format.ofNode? : Node → Option Format
  | .tagged tag node =>
    if Node.isLocalTag tag then
      match node with
      | .scalar .plain value =>
        if value.isEmpty || Yaml.isNullWord value then
          ofName? (String.ofList (tag.toList.drop 1))
        else none
      | _ => none
    else node.text?.bind ofName?
  | node => node.text?.bind ofName?

/-- Reads an input. -/
def Input.ofNode? (node : Node) : Option Input := do
  let f ← node.fields? ["dir", "langs", "recursive"]
  some {
    directory := ← f.orElse "dir" "" Node.text?
    languages := ← f.orElse "langs" [] (Node.list? Node.text?)
    recursive := ← f.orElse "recursive" true Node.flag? }

/-- Reads an output. -/
def Output.ofNode? (node : Node) : Option Output := do
  let f ← node.fields? ["path", "format"]
  some {
    path := ← f.maybe "path" Node.text?
    format := ← f.orElse "format" .yaml Format.ofNode? }

namespace Config

/-- Reads a configuration. -/
def ofNode? (node : Node) : Option Config := do
  let f ← node.fields? ["version", "inputs", "output"]
  some {
    version := ← f.orElse "version" "" Node.text?
    inputs := ← f.orElse "inputs" [] (Node.list? Input.ofNode?)
    output := ← f.maybe "output" Output.ofNode? }

/-- The configuration that a text holds. -/
def ofText? (text : String) : Option Config := (Yaml.read? text).bind ofNode?

end Config

/-! ### Checks -/

/-- Checks an input: its directory is named, and so are only known languages. -/
def Input.check (registry : Registry) (input : Input) : Checked Unit := do
  Check.ensure (!input.directory.isEmpty) .missingField "dir"
  Check.each (fun name => Check.ensure (registry.get? name).isSome .invalidFormat "") "langs"
    input.languages

/-- The languages that are read in an input. -/
def Input.registry (input : Input) (registry : Registry) : Registry :=
  if input.languages.isEmpty then registry else registry.only input.languages

/-- Checks a configuration. -/
def Config.check (registry : Registry) (config : Config) : Checked Unit := do
  Check.filled config.version "version"
  Check.ensure (Version.isValid config.version) .invalidFormat "version"
  Check.ensure (!config.inputs.isEmpty) .missingField "inputs"
  Check.ensure config.output.isSome .missingField "output"
  Check.each (Input.check registry) "inputs" config.inputs

end ApiNotes
