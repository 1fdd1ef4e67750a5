/-
The documentation model: what a set of annotated sources says about its API.

A document owns its endpoints, an endpoint owns its request and responses, a body owns
its headers, examples and type; nothing points back up.  Each source file contributes
its own findings, and `ApiDoc.merge` puts them together in path order, so that the
result does not depend on the order in which files were read.
-/
import ApiNotes.Path
import ApiNotes.Model.DataType
import ApiNotes.Model.Method

namespace ApiNotes

/-- A header of a request or a response. -/
structure Header where
  name : String
  summary : String := ""
  optional : Bool := false
deriving DecidableEq, Repr, Inhabited

/-- A sample payload, kept verbatim. -/
structure Example where
  mimetype : String
  summary : String := ""
  value : String := ""
deriving DecidableEq, Repr, Inhabited

/-- What requests and responses carry. -/
structure Body where
  headers : List Header := []
  examples : List Example := []
  type : Option DataType := none
deriving BEq, Inhabited

/-- The request of an endpoint; the mimetype `*` stands for any. -/
structure Request where
  mimetype : String
  body : Body := {}
deriving BEq, Inhabited

/-- A response of an endpoint.  Several may share a status, for instance one per mimetype. -/
structure Response where
  status : Nat
  mimetype : String
  body : Body := {}
deriving BEq, Inhabited

/-- One endpoint: a method on a path. -/
structure Endpoint where
  method : Method
  path : String
  summary : String := ""
  description : String := ""
  /-- The names of the groups that the endpoint belongs to. -/
  tags : List String := []
  headers : List Header := []
  /-- The parameters that are part of the path. -/
  params : List Param := []
  /-- The parameters of the query. -/
  queries : List Param := []
  request : Option Request := none
  responses : List Response := []
  /-- The file that declares the endpoint. -/
  file : Option String := none
  /-- The place of the declaration. -/
  position : Position := {}
deriving Inhabited

/-- A server that the API can be reached on. -/
structure Server where
  url : String
  description : String := ""
deriving DecidableEq, Repr, Inhabited

/-- The license of the API. -/
structure License where
  name : String
  url : String := ""
deriving DecidableEq, Repr, Inhabited

/-- Documentation kept elsewhere. -/
structure ExternalDocs where
  url : String
  description : String := ""
deriving DecidableEq, Repr, Inhabited

/-- A named group of endpoints. -/
structure Group where
  name : String
  description : String := ""
deriving DecidableEq, Repr, Inhabited

/-- Everything that is known about an API. -/
structure ApiDoc where
  title : String := ""
  description : String := ""
  version : String := ""
  servers : List Server := []
  license : Option License := none
  groups : List Group := []
  externalDocs : Option ExternalDocs := none
  /-- The responses that every endpoint shares. -/
  responses : List Response := []
  endpoints : List Endpoint := []
deriving Inhabited

/-- What the annotations of one source file declare. -/
structure FileFindings where
  path : String
  /-- The document header, when the file declares one. -/
  doc : Option ApiDoc := none
  endpoints : List Endpoint := []
deriving Inhabited

/-- Puts the findings of several files together: the first header in path order, followed by the
endpoints of all files in path order. -/
def ApiDoc.merge (files : List FileFindings) : ApiDoc :=
  let sorted := files.mergeSort fun a b => Path.le a.path b.path
  let doc := (sorted.findSome? (·.doc)).getD {}
  { doc with endpoints := doc.endpoints ++ sorted.flatMap (·.endpoints) }

end ApiNotes
