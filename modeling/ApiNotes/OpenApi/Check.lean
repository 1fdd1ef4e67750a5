/-
When an OpenAPI document is complete.

The pass goes through a document from the top, fills in the specification's version and
the server when they are missing, and stops at the first rule that is broken.
-/
import ApiNotes.Check
import ApiNotes.OpenApi.Document
import ApiNotes.Url.Absolute
import ApiNotes.Version

namespace ApiNotes.OpenApi

open Check

/-- The version of the specification that documents are written for. -/
def latestVersion : String := "3.0.1"

/-- A license has a name, and a link if any. -/
def License.check (license : License) : Checked Unit := do
  filled license.name "name"
  ensure (license.url.all Url.isLink) .invalidFormat "url"

/-- The API has a title and a version, and its license is right. -/
def Info.check (info : Info) : Checked Unit := do
  filled info.title "title"
  filled info.version "version"
  optional License.check "license" info.license

/-- A server has a link. -/
def Server.check (server : Server) : Checked Unit :=
  ensure (Url.isLink server.url) .invalidFormat "url"

/-- External documentation has a link. -/
def ExternalDocs.check (docs : ExternalDocs) : Checked Unit :=
  ensure (Url.isLink docs.url) .invalidFormat "url"

/-- A tag has a name. -/
def Tag.check (tag : Tag) : Checked Unit := do
  filled tag.name "name"
  optional ExternalDocs.check "externalDocs" tag.externalDocs

/-- A parameter has a name and a known location, and in a path it is required. -/
def Parameter.check (p : Parameter) : Checked Unit := do
  filled p.name "name"
  if p.location = "path" then ensure p.required .invalidFormat "required"
  else ensure (["query", "header", "cookie"].contains p.location) .invalidFormat "in"

/-- A request body has content. -/
def RequestBody.check (body : RequestBody) : Checked Unit :=
  ensure (!body.content.isEmpty) .missingField "content"

/-- A response has a description. -/
def Response.check (response : Response) : Checked Unit := filled response.description "description"

/-- A reference names something; a value is right. -/
def Referable.check {α : Type} (check : α → Checked Unit) : Referable α → Checked Unit
  | .reference target => filled target "$ref"
  | .item value => check value

/-- An operation has a response, and all its parts are right. -/
def Operation.check (operation : Operation) : Checked Unit := do
  each Parameter.check "parameters" operation.parameters
  optional RequestBody.check "requestBody" operation.requestBody
  ensure (!operation.responses.isEmpty) .missingField "responses"
  entries (Referable.check Response.check) "responses" operation.responses

/-- All operations of a path are right. -/
def PathItem.check (item : PathItem) : Checked Unit :=
  item.operations.forM fun (method, operation) =>
    operation.check.mapError (·.within method.field)

mutual

/-- Every property of a schema has a name, at any depth. -/
def Schema.check : Schema → Checked Unit
  | ⟨_, _, properties, _, items⟩ => do
    match properties with
    | some properties => Schema.checkProperties properties
    | none => .ok ()
    match items with
    | some items => (Schema.check items).mapError (·.within "items")
    | none => .ok ()

/-- Checks properties one after another. -/
def Schema.checkProperties : List (String × Schema) → Checked Unit
  | [] => .ok ()
  | (name, s) :: rest => do
    (filled name "").mapError (·.within "properties")
    (Schema.check s).mapError (·.withinKey "properties" name)
    Schema.checkProperties rest

end

/-- An example holds its payload or says where it is, not both. -/
def Example.check (e : Example) : Checked Unit :=
  ensure (!(e.value.isSome && e.externalValue.isSome)) .invalidFormat "externalValue"

/-- The server of a link is right. -/
def Link.check (link : Link) : Checked Unit := optional Server.check "server" link.server

/-- The paths of a callback are right; neither its name nor its expressions need be filled. -/
def checkCallback (callback : String × Callback) : Checked Unit :=
  callback.2.forM fun (expression, item) =>
    item.check.mapError fun fault => (fault.withinKey callback.1 expression).within "callbacks"

/-- All component tables are right. -/
def Components.check (c : Components) : Checked Unit := do
  entries Schema.check "schemas" c.schemas
  entries Response.check "responses" c.responses
  entries Parameter.check "parameters" c.parameters
  entries Example.check "examples" c.examples
  entries RequestBody.check "requestBodies" c.requestBodies
  entries (fun _ => .ok ()) "headers" c.headers
  entries Link.check "links" c.links
  c.callbacks.forM checkCallback

namespace Document

/-- The document with a version of the specification. -/
def fillVersion (doc : Document) : Document :=
  if doc.openapi.isEmpty then { doc with openapi := latestVersion } else doc

/-- The document with a server: the root of the host, unless it names others. -/
def fillServers (doc : Document) : Document :=
  if doc.servers.isEmpty then { doc with servers := [{ url := "/" }] } else doc

/-- The checks before the servers. -/
def checkHead (doc : Document) : Checked Unit := do
  ensure (Version.isValid doc.openapi) .invalidFormat "openapi"
  doc.info.check.mapError (·.within "info")

/-- The checks from the servers on. -/
def checkParts (doc : Document) : Checked Unit := do
  each Server.check "servers" doc.servers
  ensure (!doc.paths.isEmpty) .missingField "paths"
  entries PathItem.check "paths" doc.paths
  optional Components.check "components" doc.components
  each Tag.check "tags" doc.tags
  optional ExternalDocs.check "externalDocs" doc.externalDocs

/-- Fills in what may be missing and checks the rest.  The answer holds the document with the
defaults filled as far as the checks got, and the first fault. -/
def sanitize (doc : Document) : Document × Checked Unit :=
  let doc := doc.fillVersion
  match doc.checkHead with
  | .error fault => (doc, .error fault)
  | .ok () =>
    let doc := doc.fillServers
    (doc, doc.checkParts)

/-- A complete document, or the first fault. -/
def sanitized (doc : Document) : Checked Document := doc.sanitize.2.map fun _ => doc.sanitize.1

end Document

end ApiNotes.OpenApi
