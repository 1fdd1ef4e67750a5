/-
The tags that mean something, and the sections they open.

The set of tags is closed: any other name is `unknown`, and unknown tags never change
what an annotation means.  A request or response tag opens a section that owns all
tags up to the next such tag; the tags before the first section belong to the
annotation as a whole.
-/
import ApiNotes.Annotation.Tag

namespace ApiNotes.Annotation

/-- The tags that the annotation language knows. -/
inductive TagKind
  | doc
  | version
  | server
  | license
  | group
  | externalDocs
  | endpoint
  | tags
  | param
  | query
  | header
  | sample
  | request
  | response
  /-- Any other name. -/
  | unknown
deriving DecidableEq, Repr, Inhabited

/-- The kind of a tag name. -/
def TagKind.ofName : String → TagKind
  | "apidoc" => .doc
  | "apiVersion" => .version
  | "apiServer" => .server
  | "apiLicense" => .license
  | "apiTag" => .group
  | "apiExternalDocs" => .externalDocs
  | "api" => .endpoint
  | "apiTags" => .tags
  | "apiParam" => .param
  | "apiQuery" => .query
  | "apiHeader" => .header
  | "apiExample" => .sample
  | "apiRequest" => .request
  | "apiResponse" => .response
  | _ => .unknown

/-- Whether tags of this kind open a section. -/
def TagKind.opensSection (kind : TagKind) : Bool := kind == .request || kind == .response

/-- Whether tags of this kind open an annotation. -/
def TagKind.opensBlock (kind : TagKind) : Bool := kind == .doc || kind == .endpoint

/-- The kind of a tag. -/
def Tag.kind (tag : Tag) : TagKind := TagKind.ofName tag.name

/-- The tags before the first section, and the sections: each opener with the tags it owns. -/
def splitSections : List Tag → List Tag × List (Tag × List Tag)
  | [] => ([], [])
  | tag :: rest =>
    let (before, sections) := splitSections rest
    if tag.kind.opensSection then ([], (tag, before) :: sections)
    else (tag :: before, sections)

/-- Sections lose nothing: written one after another they are the tags again. -/
theorem splitSections_append (tags : List Tag) :
    (splitSections tags).1 ++ (splitSections tags).2.flatMap (fun s => s.1 :: s.2) = tags := by
  induction tags with
  | nil => rfl
  | cons tag rest ih =>
    simp only [splitSections]
    split
    · simpa using ih
    · simpa using ih

end ApiNotes.Annotation
