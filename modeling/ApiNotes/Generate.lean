/-
The run from source files to the document.

Everything a run asks of the world is to look at what a path leads to, to create
directories and to write a file.  Where these come from does not matter: a tree in memory
will do.
-/
import ApiNotes.Annotation.Source
import ApiNotes.CommandLine
import ApiNotes.Failure
import ApiNotes.Model.Check
import ApiNotes.OpenApi.Draft
import ApiNotes.OpenApi.Text
import ApiNotes.Sources

namespace ApiNotes

open Annotation (readSource)

/-- What a run asks of the world. -/
structure Files (m : Type → Type) where
  /-- What a path leads to. -/
  look : String → m (Option FileTree)
  /-- Creates the directories of a path, and says whether they are there. -/
  createDirectories : String → m Bool
  /-- Writes a file, and says whether that went well. -/
  write : String → String → m Bool

/-- A tree in memory, as the files of a run. -/
def FileTree.files : Files (StateM FileTree) where
  look path := do pure ((← get).resolve? path)
  createDirectories path := do
    match (← get).createDirectories? path with
    | some tree => do
      set tree
      pure true
    | none => pure false
  write path content := do
    match (← get).write? path content with
    | some tree => do
      set tree
      pure true
    | none => pure false

/-! ### What the sources declare -/

/-- What one source file declares. -/
def SourceFile.findings (file : SourceFile) : Except Failure FileFindings :=
  match file.content with
  | none => .error (.unreadableFile file.path)
  | some content =>
    (readSource file.path file.language.style content).mapError .fault

/-- What the source files of a directory declare, if it is one. -/
def Input.findings (registry : Registry) (input : Input) (found : Option FileTree) :
    Except Failure (List FileFindings) := do
  let files ← FileTree.scan (input.registry registry) input.recursive input.directory found
  files.mapM SourceFile.findings

/-- The document of what all files declare. -/
def documentOf (findings : List FileFindings) : Checked OpenApi.Document := do
  OpenApi.Document.ofModel (← (ApiDoc.merge findings).sanitized)

namespace Files

variable {m : Type → Type} [Monad m] (files : Files m)

/-- The text of a file. -/
def text? (path : String) : m (Option String) := do
  match ← files.look path with
  | some (.file content) => pure content
  | _ => pure none

/-- What the source files of all inputs declare. -/
def findings (registry : Registry) : List Input → ExceptT Failure m (List FileFindings)
  | [] => pure []
  | input :: rest => do
    let found ← files.look input.directory
    let first ← (input.findings registry found : Except Failure (List FileFindings))
    let others ← findings registry rest
    pure (first ++ others)

/-- The document that a configuration asks for. -/
def generate (registry : Registry) (config : Config) : ExceptT Failure m OpenApi.Document := do
  (config.check registry).mapError Failure.fault
  let findings ← files.findings registry config.inputs
  (documentOf findings).mapError Failure.fault

/-! ### Documents in files -/

/-- Writes a text file, with the directories it needs. -/
def save (path content : String) : ExceptT Failure m Unit := do
  match Path.parent? path with
  | some parent => if !(← files.createDirectories parent) then throw (.directoryNotCreated parent)
  | none => pure ()
  if !(← files.write path content) then throw (.fileNotWritten path)

/-- Reads the document in a file; its name tells the format. -/
def load (path : String) : ExceptT Failure m OpenApi.Document := do
  match ← files.text? path with
  | none => throw (.unreadableFile path)
  | some content =>
    match OpenApi.Document.ofText? content (Format.ofPath path) with
    | none => throw (.invalidDocument path)
    | some document => pure document

/-! ### Runs -/

/-- Reads a configuration. -/
def loadConfig (path : String) : ExceptT Failure m Config := do
  match ← files.text? path with
  | none => throw (.unreadableConfig path)
  | some content =>
    match Config.ofText? content with
    | none => throw (.malformedConfig path)
    | some config => pure config

/-- The configuration of a command line, with its paths checked. -/
def configOf (arguments : Arguments) : ExceptT Failure m Config := do
  match arguments.config, arguments.source with
  | some path, _ =>
    match ← files.look path with
    | some (.file _) => files.loadConfig path
    | _ => throw (.missingConfig path)
  | none, some source =>
    match ← files.look source with
    | some (.directory _) => pure (arguments.toConfig source)
    | some (.file _) | some .special => throw (.sourceNotDirectory source)
    | none => throw (.missingSource source)
  | none, none => throw .nothingToRead

/-- Does a run.  The answer is the text of the document, and the file it has been written to, if it
is not to be printed. -/
def run (registry : Registry) (arguments : Arguments) :
    ExceptT Failure m (Option String × String) := do
  let config ← files.configOf arguments
  let document ← files.generate registry config
  let output := config.output.getD {}
  let text := document.toText output.format
  match output.path with
  | some path => do
    files.save path text
    pure (some path, text)
  | none => pure (none, text)

end Files

end ApiNotes
