/-
What one source file declares.

The comment regions of a file are read one by one; the first document header counts,
endpoints are kept in order, and the first fault ends the reading.
-/
import ApiNotes.Annotation.Block
import ApiNotes.Annotation.Comment

namespace ApiNotes.Annotation

/-- The block that a region declares. -/
def blockOfRegion (region : Region) : Checked Block := do
  blockOf (← tagsOf region.text region.position)

/-- Findings with one more block. -/
def addBlock (found : FileFindings) : Block → FileFindings
  | .doc doc => { found with doc := found.doc.or (some doc) }
  | .endpoint e => { found with endpoints := found.endpoints ++ [{ e with file := some found.path }] }
  | .empty => found

/-- The findings of a list of regions of the file. -/
def findingsOf (path : String) (regions : List Region) : Checked FileFindings :=
  regions.foldlM (fun found region =>
    match blockOfRegion region with
    | .ok block => .ok (addBlock found block)
    | .error fault => .error (fault.inFile path)) { path }

/-- The findings of a source file. -/
def readSource (path : String) (style : CommentStyle) (content : String) : Checked FileFindings :=
  findingsOf path (regionsOf style content)

end ApiNotes.Annotation
