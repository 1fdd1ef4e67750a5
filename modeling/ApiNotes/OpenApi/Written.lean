/-
Documents as trees.

Every object becomes a table with its fields in a fixed order.  Absent fields are not
written, and neither are empty lists and tables, except where the specification wants
the field to be there.
-/
import ApiNotes.OpenApi.Document
import ApiNotes.Tree

namespace ApiNotes.OpenApi

open ApiNotes.Tree

mutual

/-- The tree of a schema. -/
def Schema.toTree : Schema → Tree
  | ⟨type, description, properties, required, items⟩ =>
    ofFields [
      fieldSome "type" .text type,
      fieldSome "description" .text description,
      match properties with
        | some properties => some ("properties", .table (Schema.propertyTrees properties))
        | none => none,
      fieldSome "required" (fun names => .list (names.map .text)) required,
      match items with
        | some items => some ("items", Schema.toTree items)
        | none => none]

/-- The trees of properties. -/
def Schema.propertyTrees : List (String × Schema) → List (String × Tree)
  | [] => []
  | (name, s) :: rest => (name, Schema.toTree s) :: Schema.propertyTrees rest

end

/-- The tree of a license. -/
def License.toTree (license : License) : Tree :=
  ofFields [field "name" (.text license.name), fieldSome "url" .text license.url]

/-- The tree of an API's info. -/
def Info.toTree (info : Info) : Tree :=
  ofFields [
    field "title" (.text info.title),
    fieldSome "description" .text info.description,
    fieldSome "license" License.toTree info.license,
    field "version" (.text info.version)]

/-- The tree of a server. -/
def Server.toTree (server : Server) : Tree :=
  ofFields [field "url" (.text server.url), fieldSome "description" .text server.description]

/-- The tree of external documentation. -/
def ExternalDocs.toTree (docs : ExternalDocs) : Tree :=
  ofFields [field "url" (.text docs.url), fieldSome "description" .text docs.description]

/-- The tree of a tag. -/
def Tag.toTree (tag : Tag) : Tree :=
  ofFields [
    field "name" (.text tag.name),
    fieldSome "description" .text tag.description,
    fieldSome "externalDocs" ExternalDocs.toTree tag.externalDocs]

/-- The tree of an example. -/
def Example.toTree (e : Example) : Tree :=
  ofFields [
    fieldSome "summary" .text e.summary,
    fieldSome "description" .text e.description,
    fieldSome "value" .text e.value,
    fieldSome "externalValue" .text e.externalValue]

/-- The tree of a header. -/
def Header.toTree (h : Header) : Tree :=
  ofFields [
    fieldSome "description" .text h.description,
    field "required" (.flag h.required),
    fieldSome "schema" Schema.toTree h.schema]

/-- The tree of content of one mimetype. -/
def MediaType.toTree (media : MediaType) : Tree :=
  ofFields [
    fieldSome "schema" Schema.toTree media.schema,
    fieldDict "examples" Example.toTree media.examples]

/-- The tree of a response. -/
def Response.toTree (response : Response) : Tree :=
  ofFields [
    field "description" (.text response.description),
    fieldDict "headers" Header.toTree response.headers,
    fieldDict "content" MediaType.toTree response.content]

/-- The tree of a value or a reference. -/
def Referable.toTree {α : Type} (write : α → Tree) : Referable α → Tree
  | .reference target => ofFields [field "$ref" (.text target)]
  | .item value => write value

/-- The tree of a parameter. -/
def Parameter.toTree (p : Parameter) : Tree :=
  ofFields [
    field "name" (.text p.name),
    field "in" (.text p.location),
    fieldSome "description" .text p.description,
    field "required" (.flag p.required),
    fieldSome "schema" Schema.toTree p.schema]

/-- The tree of a request body. -/
def RequestBody.toTree (body : RequestBody) : Tree :=
  ofFields [
    fieldSome "description" .text body.description,
    field "content" (ofDict MediaType.toTree body.content),
    field "required" (.flag body.required)]

/-- The tree of an operation. -/
def Operation.toTree (operation : Operation) : Tree :=
  ofFields [
    fieldList "tags" .text operation.tags,
    fieldSome "summary" .text operation.summary,
    fieldSome "description" .text operation.description,
    fieldList "parameters" Parameter.toTree operation.parameters,
    fieldSome "requestBody" RequestBody.toTree operation.requestBody,
    field "responses" (ofDict (Referable.toTree Response.toTree) operation.responses)]

/-- The tree of a path. -/
def PathItem.toTree (item : PathItem) : Tree :=
  ofFields (Method.all.map fun m => fieldSome m.field Operation.toTree (item.slot m))

/-- The tree of a link. -/
def Link.toTree (link : Link) : Tree :=
  ofFields [
    fieldSome "operationRef" .text link.operationRef,
    fieldSome "operationId" .text link.operationId,
    fieldSome "description" .text link.description,
    fieldSome "server" Server.toTree link.server]

/-- The tree of the component tables. -/
def Components.toTree (c : Components) : Tree :=
  ofFields [
    fieldDict "schemas" Schema.toTree c.schemas,
    fieldDict "responses" Response.toTree c.responses,
    fieldDict "parameters" Parameter.toTree c.parameters,
    fieldDict "examples" Example.toTree c.examples,
    fieldDict "requestBodies" RequestBody.toTree c.requestBodies,
    fieldDict "headers" Header.toTree c.headers,
    fieldDict "links" Link.toTree c.links,
    fieldDict "callbacks" (ofDict PathItem.toTree) c.callbacks]

/-- The tree of a document. -/
def Document.toTree (doc : Document) : Tree :=
  ofFields [
    field "openapi" (.text doc.openapi),
    field "info" doc.info.toTree,
    fieldList "servers" Server.toTree doc.servers,
    field "paths" (ofDict PathItem.toTree doc.paths),
    fieldSome "components" Components.toTree doc.components,
    fieldList "tags" Tag.toTree doc.tags,
    fieldSome "externalDocs" ExternalDocs.toTree doc.externalDocs]

end ApiNotes.OpenApi
