/-
What can end a run.

Faults of annotations and documents carry their own place.  Everything else that goes wrong
has to do with a file or with the way the run was asked for, and names the path in question.
-/
import ApiNotes.Fault
import ApiNotes.Format

namespace ApiNotes

/-- The causes that end a run. -/
inductive Failure
  /-- A violated rule of annotations, documents or configurations. -/
  | fault (fault : Fault)
  /-- Neither a directory of sources nor a configuration is given. -/
  | nothingToRead
  | missingSource (path : String)
  | sourceNotDirectory (path : String)
  | missingConfig (path : String)
  | unreadableConfig (path : String)
  | malformedConfig (path : String)
  /-- The directory of an input is none. -/
  | notDirectory (path : String)
  | unreadableFile (path : String)
  /-- A text is no document in the format it should have. -/
  | malformedDocument (format : Format)
  /-- A file holds no document. -/
  | invalidDocument (path : String)
  | directoryNotCreated (path : String)
  | fileNotWritten (path : String)
deriving DecidableEq, Repr

namespace Failure

/-- The line that reports a failure. -/
def message : Failure → String
  | .fault cause => cause.message
  | .nothingToRead => "Either SOURCE_PATH or --config must be given"
  | .missingSource path => "Source path does not exist: " ++ path
  | .sourceNotDirectory path => "Source path is not a directory: " ++ path
  | .missingConfig path => "Config file does not exist: " ++ path
  | .unreadableConfig path => "Failed to read config file: " ++ path
  | .malformedConfig path => "Failed to parse config file: " ++ path
  | .notDirectory path => "Not a directory: " ++ path
  | .unreadableFile path => "Failed to read file: " ++ path
  | .malformedDocument .yaml => "Failed to parse OpenAPI document as YAML"
  | .malformedDocument .json => "Failed to parse OpenAPI document as JSON"
  | .invalidDocument path => "Invalid OpenAPI document: " ++ path
  | .directoryNotCreated path => "Failed to create directory: " ++ path
  | .fileNotWritten path => "Failed to write to file: " ++ path

end Failure

end ApiNotes
