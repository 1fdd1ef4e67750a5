/-
When a document is complete.

`ApiDoc.sanitize` goes through a document from the top and stops at the first rule that
is broken.  Before it looks at the version and the servers it fills them in when they
are missing; it changes nothing else.  An endpoint's fault carries the place of the
annotation that declared it.
-/
import ApiNotes.Check
import ApiNotes.Model.ApiDoc
import ApiNotes.Model.Route
import ApiNotes.Url.Absolute
import ApiNotes.Version

namespace ApiNotes

open Check

/-! ### Types and parameters -/

mutual

/-- Every member, at any depth, has a key and a name. -/
def DataType.check : DataType → Checked Unit
  | .leaf _ _ => .ok ()
  | .array none _ => .ok ()
  | .array (some items) _ => items.check
  | .object members _ => DataType.checkMembers members

/-- Checks members one after another. -/
def DataType.checkMembers : List (String × Param) → Checked Unit
  | [] => .ok ()
  | (key, p) :: rest => do
    (filled key "").mapError (·.within "properties")
    p.check.mapError (·.withinKey "properties" key)
    DataType.checkMembers rest

/-- A parameter has a name, and its type is right. -/
def Param.check : Param → Checked Unit
  | ⟨name, type, _, _⟩ => do
    filled name "name"
    type.check.mapError (·.within "type")

end

/-! ### Bodies -/

/-- A header has a name. -/
def Header.check (h : Header) : Checked Unit := filled h.name "name"

/-- An example has a mimetype. -/
def Example.check (e : Example) : Checked Unit := filled e.mimetype "mimetype"

/-- Headers have distinct names; examples and the type are right. -/
def Body.check (body : Body) : Checked Unit := do
  each Header.check "headers" body.headers
  noClash (fun a b => a.name == b.name)
    (fun i => (Fault.of .duplicate "name").withinIndex "headers" i) [] body.headers
  each Example.check "examples" body.examples
  optional DataType.check "type" body.type

/-- A request has a mimetype and a body. -/
def Request.check (request : Request) : Checked Unit := do
  filled request.mimetype "mimetype"
  request.body.check

/-- A response has a status of HTTP, a mimetype and a body. -/
def Response.check (response : Response) : Checked Unit := do
  ensure (100 ≤ response.status && response.status ≤ 599) .invalidStatus "status"
  filled response.mimetype "mimetype"
  response.body.check

/-! ### Endpoints -/

/-- An endpoint has an absolute path, and all its parts are right. -/
def Endpoint.check (e : Endpoint) : Checked Unit := do
  filled e.path "path"
  ensure (e.path.toList.head? == some '/') .invalidFormat "path"
  each (filled · "") "tags" e.tags
  each Header.check "headers" e.headers
  each Param.check "params" e.params
  each Param.check "queries" e.queries
  optional Request.check "request" e.request
  each Response.check "responses" e.responses

/-- Whether two endpoints answer the same method on the same template. -/
def Endpoint.sameSlot (a b : Endpoint) : Bool :=
  a.method == b.method && Route.template a.path == Route.template b.path

/-- A fault of an endpoint, placed at its declaration. -/
def Endpoint.blame (e : Endpoint) (index : Nat) (fault : Fault) : Fault :=
  let fault := (fault.withinIndex "apis" index).located e.position
  match e.file with
  | some file => fault.inFile file
  | none => fault

/-- Checks endpoints one after another, each against those before it. -/
def ApiDoc.checkEndpoints (before : List Endpoint) : List Endpoint → Checked Unit
  | [] => .ok ()
  | e :: rest => do
    e.check.mapError (e.blame before.length)
    (ensure (!before.any (·.sameSlot e)) .duplicate "path").mapError (e.blame before.length)
    checkEndpoints (before ++ [e]) rest

/-! ### Documents -/

/-- A server has a link. -/
def Server.check (server : Server) : Checked Unit := do
  filled server.url "url"
  ensure (Url.isLink server.url) .invalidFormat "url"

/-- A license has a name, and a link if any. -/
def License.check (license : License) : Checked Unit := do
  filled license.name "name"
  ensure (license.url.isEmpty || Url.isLink license.url) .invalidFormat "url"

/-- External documentation has a link. -/
def ExternalDocs.check (docs : ExternalDocs) : Checked Unit :=
  ensure (Url.isLink docs.url) .invalidFormat "url"

/-- A group has a name. -/
def Group.check (group : Group) : Checked Unit := filled group.name "name"

namespace ApiDoc

/-- The version of documents that name none. -/
def defaultVersion : String := "1.0.0"

/-- The document with a version. -/
def fillVersion (doc : ApiDoc) : ApiDoc :=
  if doc.version.isEmpty then { doc with version := defaultVersion } else doc

/-- The document with a server: the root of the host, unless it names others. -/
def fillServers (doc : ApiDoc) : ApiDoc :=
  if doc.servers.isEmpty then { doc with servers := [{ url := "/" }] } else doc

/-- The checks behind the version. -/
def checkParts (doc : ApiDoc) : Checked Unit := do
  each Server.check "servers" doc.servers
  optional License.check "license" doc.license
  optional ExternalDocs.check "externalDocs" doc.externalDocs
  each Group.check "tags" doc.groups
  each Response.check "responses" doc.responses
  noClash (fun a b => a.status == b.status && a != b)
    (fun i => (Fault.of .duplicate "status").withinIndex "responses" i) [] doc.responses
  ensure (!doc.endpoints.isEmpty) .missingField "paths"
  checkEndpoints [] doc.endpoints

/-- Fills in what may be missing and checks the rest.  The answer holds the document with the
defaults filled as far as the checks got, and the first fault. -/
def sanitize (doc : ApiDoc) : ApiDoc × Checked Unit :=
  match filled doc.title "title" with
  | .error fault => (doc, .error fault)
  | .ok () =>
    let doc := doc.fillVersion
    match ensure (Version.isValid doc.version) .invalidFormat "version" with
    | .error fault => (doc, .error fault)
    | .ok () =>
      let doc := doc.fillServers
      (doc, doc.checkParts)

/-- A complete document, or the first fault. -/
def sanitized (doc : ApiDoc) : Checked ApiDoc := doc.sanitize.2.map fun _ => doc.sanitize.1

end ApiDoc

end ApiNotes
