/-
Building a document from the documentation model.

A draft collects what a document will hold: endpoints become operations, shared
responses go to the component tables.  A step that fails leaves no trace, since it
yields a fault in place of a draft.  Only when the draft is finished do operations get
their references to the shared responses, so the order of steps of different kinds
does not matter.
-/
import ApiNotes.Model.ApiDoc
import ApiNotes.Model.Check
import ApiNotes.OpenApi.Check
import ApiNotes.OpenApi.Merge

namespace ApiNotes.OpenApi

/-- A text, unless it is empty. -/
def nonEmpty? (text : String) : Option String := if text.isEmpty then none else some text

/-! ### Bodies -/

/-- The mimetype under which content is listed: `*` is written as a range. -/
def mediaTypeName (mimetype : String) : String := if mimetype = "*" then "*/*" else mimetype

namespace Example

/-- The example of an annotation. -/
def ofModel (e : ApiNotes.Example) : Example :=
  { summary := nonEmpty? e.summary, value := some e.value }

end Example

/-- Adds an example under its own mimetype; a mimetype that is new gets the schema of the body. -/
def addExample (schema : Option Schema) (content : Dict MediaType) (e : ApiNotes.Example) :
    Dict MediaType :=
  let name := mediaTypeName e.mimetype
  let media := (Dict.get? content name).getD { schema }
  Dict.insert content name (media.pushExample (Example.ofModel e))

/-- The content of a body, by mimetype: its type under the given one, examples under their own. -/
def contentOf (mimetype : String) (body : Body) : Dict MediaType :=
  let schema := body.type.bind Schema.ofType?
  let typed : Dict MediaType :=
    if schema.isSome then [(mediaTypeName mimetype, { schema })] else []
  body.examples.foldl (addExample schema) typed

/-- The text attached to the type of a body. -/
def bodyDescription (body : Body) : String := (body.type.map DataType.description).getD ""

/-- The header of an annotation. -/
def Header.ofModel (h : ApiNotes.Header) : Header :=
  { description := nonEmpty? h.summary, required := !h.optional, schema := some (.named "string") }

namespace Response

/-- The response of an annotation. -/
def ofModel (response : ApiNotes.Response) : Response :=
  { description := bodyDescription response.body
    headers := Dict.ofEntries (response.body.headers.map fun h => (h.name, Header.ofModel h))
    content := contentOf response.mimetype response.body }

/-- The response with a description, which the specification asks for. -/
def fillDescription (status : String) (response : Response) : Response :=
  if response.description.isEmpty then { response with description := status ++ " response" }
  else response

end Response

/-! ### Operations -/

/-- A parameter of a path or a query; its description stands on the parameter alone. -/
def Parameter.ofModel (location : String) (required : Bool) (p : Param) : Parameter :=
  { name := p.name
    location
    description := nonEmpty? p.description
    required
    schema := (Schema.ofType? p.type).map fun s => { s with description := none } }

/-- A header that a request sends. -/
def Parameter.ofHeader (h : ApiNotes.Header) : Parameter :=
  { name := h.name
    location := "header"
    description := nonEmpty? h.summary
    required := !h.optional
    schema := some (.named "string") }

/-- The parameters of an endpoint: path, query, headers, headers of the request body. -/
def parametersOf (e : Endpoint) : List Parameter :=
  let headers := e.headers ++ (e.request.map (·.body.headers)).getD []
  e.params.map (Parameter.ofModel "path" true) ++
    e.queries.map (fun q => Parameter.ofModel "query" (!q.optional) q) ++
    headers.map Parameter.ofHeader

/-- The body of a request. -/
def RequestBody.ofModel (request : Request) : RequestBody :=
  { description := nonEmpty? (bodyDescription request.body)
    content := contentOf request.mimetype request.body
    required := true }

/-- Responses by status; those that share one are merged. -/
def responsesOf (e : Endpoint) : Checked (Dict Response) :=
  e.responses.foldlM (fun table response =>
    let status := toString response.status
    let converted := Response.ofModel response
    match Dict.get? table status with
    | none => .ok (Dict.insert table status converted)
    | some own =>
      match own.merged converted with
      | .ok merged => .ok (Dict.insert table status merged)
      | .error fault => .error (fault.withinKey "responses" status)) []

/-- The operation of an endpoint. -/
def Operation.ofModel (e : Endpoint) : Checked Operation := do
  let responses ← responsesOf e
  let responses := responses.map fun (status, r) =>
    (status, Referable.item (r.fillDescription status))
  .ok
    { tags := e.tags
      summary := nonEmpty? e.summary
      description := nonEmpty? e.description
      parameters := parametersOf e
      requestBody := e.request.map RequestBody.ofModel
      responses }

/-! ### Shared responses -/

/-- Points an operation at a shared response, unless it has one of its own that differs. -/
def Operation.link (operation : Operation) (shared : String × Response) : Operation :=
  let refers : Bool := match Dict.get? operation.responses shared.1 with
    | none => true
    | some (.item own) => own == shared.2
    | some (.reference _) => false
  if refers then
    { operation with
      responses :=
        Dict.insert operation.responses shared.1 (.toComponent "responses" shared.1) }
  else operation

/-- Points an operation at all shared responses that it does not override. -/
def Operation.linkAll (shared : Dict Response) (operation : Operation) : Operation :=
  shared.foldl Operation.link operation

/-! ### Drafts -/

/-- A document in the making. -/
structure Draft where
  info : Info := { title := "Generated API", version := ApiDoc.defaultVersion }
  servers : List Server := []
  paths : Dict PathItem := []
  components : Components := {}
  tags : List Tag := []
  externalDocs : Option ExternalDocs := none
deriving Inhabited

namespace Draft

/-- The draft under another name; the license stays. -/
def withInfo (d : Draft) (title version : String) (description : Option String) : Draft :=
  { d with info := { title, version, description, license := d.info.license } }

/-- The draft with a license. -/
def withLicense (d : Draft) (license : ApiNotes.License) : Draft :=
  { d with info := { d.info with license := some ⟨license.name, nonEmpty? license.url⟩ } }

/-- The draft with external documentation. -/
def withExternalDocs (d : Draft) (docs : ApiNotes.ExternalDocs) : Draft :=
  { d with externalDocs := some ⟨docs.url, nonEmpty? docs.description⟩ }

/-- The draft with one server more. -/
def addServer (d : Draft) (server : ApiNotes.Server) : Draft :=
  { d with servers := d.servers ++ [⟨server.url, nonEmpty? server.description⟩] }

/-- The draft with one group more. -/
def addGroup (d : Draft) (group : Group) : Draft :=
  { d with tags := d.tags ++ [{ name := group.name, description := nonEmpty? group.description }] }

/-- The draft with one shared response more.  One that is there already may be repeated; another
one of the same status is a duplicate. -/
def addCommonResponse (d : Draft) (response : ApiNotes.Response) : Checked Draft :=
  let status := toString response.status
  let converted := (Response.ofModel response).fillDescription status
  match Dict.get? d.components.responses status with
  | none =>
    let responses := Dict.insert d.components.responses status converted
    .ok { d with components := { d.components with responses } }
  | some own =>
    if own == converted then .ok d
    else .error (((Fault.of .duplicate "").withinKey "responses" status).within "components")

/-- The operation of a method on a path template. -/
def operation? (d : Draft) (path : String) (method : Method) : Option Operation :=
  (Dict.get? d.paths path).bind (·.slot method)

/-- The draft with one endpoint more. -/
def addEndpoint (d : Draft) (e : Endpoint) : Checked Draft :=
  let path := Route.template e.path
  let blame := fun (fault : Fault) => (fault.within e.method.field).withinKey "paths" path
  if (d.operation? path e.method).isSome then .error (blame (Fault.of .duplicate ""))
  else
    match Operation.ofModel e with
    | .error fault => .error (blame fault)
    | .ok operation =>
      let item := (Dict.get? d.paths path).getD {}
      .ok { d with paths := Dict.insert d.paths path (item.withSlot e.method (some operation)) }

/-- The document of a draft, before its checks. -/
def document (d : Draft) : Document :=
  { openapi := latestVersion
    info := d.info
    servers := d.servers
    paths := d.paths.mapValues (·.mapOperations (Operation.linkAll d.components.responses))
    components := if d.components.isEmpty then none else some d.components
    tags := d.tags
    externalDocs := d.externalDocs }

/-- The finished document, or what is wrong with it. -/
def build (d : Draft) : Checked Document := d.document.sanitized

end Draft

/-! ### The whole model -/

/-- The draft that holds everything but responses and endpoints. -/
def Draft.ofHeader (doc : ApiDoc) : Draft :=
  let d := ({} : Draft).withInfo doc.title doc.version (nonEmpty? doc.description)
  let d := doc.license.elim d d.withLicense
  let d := doc.externalDocs.elim d d.withExternalDocs
  let d := doc.servers.foldl Draft.addServer d
  doc.groups.foldl Draft.addGroup d

/-- The document that describes an API. -/
def Document.ofModel (doc : ApiDoc) : Checked Document := do
  let d ← doc.responses.foldlM Draft.addCommonResponse (Draft.ofHeader doc)
  let d ← doc.endpoints.foldlM Draft.addEndpoint d
  d.build

end ApiNotes.OpenApi
