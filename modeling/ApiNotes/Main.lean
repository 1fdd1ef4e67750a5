/-
The command `api-notes`.

Only this module touches the disk.  It loads what paths lead to, writes what a run asks
for, and reports how the run ended; what a run does is decided elsewhere.
-/
import ApiNotes.Generate

namespace ApiNotes.Main

/-- A path as the disk knows it. -/
def place (path : String) : IO.FS.DirEntry := ⟨path, ""⟩

/-- The content of a file, if it is text. -/
def contentOf (path : String) : IO (Option String) := do
  try
    pure (String.fromUTF8? (← IO.FS.readBinFile path))
  catch _ => pure none

/-- What is below a directory, apart from links and from what no run reads. -/
partial def below (path : String) : IO FileTree := do
  let mut entries := #[]
  for entry in ← (place path).root.readDir do
    let name := entry.fileName
    let inner := Path.join path name
    match (← entry.path.symlinkMetadata).type with
    | .dir =>
      if !FileTree.isSkipped name (.directory []) then
        entries := entries.push (name, ← below inner)
    | .file =>
      let known := (Registry.standard.detect? name).isSome
      let content ← if known then contentOf inner else pure none
      entries := entries.push (name, .file content)
    | _ => pure ()
  pure (.directory entries.toList)

/-- What a path leads to on the disk. -/
def look (path : String) : IO (Option FileTree) := do
  try
    match (← (place path).root.metadata).type with
    | .dir => pure (some (← below path))
    | _ => pure (some (.file (← contentOf path)))
  catch _ => pure none

/-- Whether an action on the disk goes well. -/
def succeeds (action : IO Unit) : IO Bool := do
  try
    action
    pure true
  catch _ => pure false

/-- The disk, as the files of a run. -/
def disk : Files IO where
  look := look
  createDirectories path := if path.isEmpty then pure true else succeeds (IO.FS.createDirAll path)
  write path content := succeeds (IO.FS.writeFile path content)

/-- How the command is used. -/
def usage : String :=
  "Generate an OpenAPI document from @api annotations in source code comments\n\n" ++
  "Usage: api-notes [OPTIONS] [SOURCE_PATH]\n\n" ++
  "Options:\n" ++
  "  -f, --format <FORMAT>  yaml or json [default: yaml]\n" ++
  "  -o, --output <FILE>    Output file (default: standard output)\n" ++
  "  -l, --lang <LANGS>     Only scan files of these languages\n" ++
  "  -c, --config <FILE>    Read inputs and output from a YAML config file instead\n" ++
  "  -v, --verbose          Enable verbose output\n" ++
  "  -h, --help             Print help\n" ++
  "  -V, --version          Print version"

/-- What is said about a command line that asks for no run. -/
def complaint : CommandLine.Rejection → String
  | .unknownArgument => "error: unexpected argument"
  | .invalidValue => "error: invalid or missing value"
  | .tooManyValues => "error: unexpected value"
  | .conflict => "error: arguments exclude each other"
  | .helpAsked => usage
  | .versionAsked => "api-notes " ++ toolVersion

end ApiNotes.Main

open ApiNotes in
/-- Does what a command line asks for. -/
def main (args : List String) : IO UInt32 := do
  match CommandLine.read ("api-notes" :: args) with
  | .error rejection =>
    let asked := rejection = .helpAsked || rejection = .versionAsked
    let report := if asked then IO.println (Main.complaint rejection)
      else IO.eprintln (Main.complaint rejection)
    report
    pure (if asked then 0 else 2)
  | .ok arguments =>
    match ← (Main.disk.run Registry.standard arguments).run with
    | .error failure =>
      IO.eprintln ("Error: " ++ failure.message)
      pure 1
    | .ok (none, text) =>
      IO.println text
      pure 0
    | .ok (some _, _) => pure 0
