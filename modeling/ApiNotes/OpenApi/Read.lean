/-
Documents from nodes.

Reading follows the fields that writing produces.  An answer is the document or nothing:
no reader here says what was wrong.  Where a reference may stand in place of a response,
the node is settled before either is tried, since only then its form is known.
-/
import ApiNotes.Node
import ApiNotes.OpenApi.Document

namespace ApiNotes.OpenApi

/-- Reads a schema of at most the given height. -/
def Schema.ofNodeWithin? : Nat → Node → Option Schema
  | 0, _ => none
  | height + 1, node => do
    let f ← node.fields? ["type", "description", "properties", "required", "items"]
    some {
      type := ← f.maybe "type" Node.text?
      description := ← f.maybe "description" Node.text?
      properties := ← f.maybe "properties" (Node.dict? (ofNodeWithin? height))
      required := ← f.maybe "required" (Node.list? Node.text?)
      items := ← f.maybe "items" (ofNodeWithin? height) }

/-- Reads a schema. -/
def Schema.ofNode? (node : Node) : Option Schema := Schema.ofNodeWithin? node.height node

/-- Reads a license. -/
def License.ofNode? (node : Node) : Option License := do
  let f ← node.fields? ["name", "url"]
  some { name := ← f.required "name" Node.text?, url := ← f.maybe "url" Node.text? }

/-- Reads the info of an API. -/
def Info.ofNode? (node : Node) : Option Info := do
  let f ← node.fields? ["title", "description", "license", "version"]
  some {
    title := ← f.required "title" Node.text?
    description := ← f.maybe "description" Node.text?
    license := ← f.maybe "license" License.ofNode?
    version := ← f.required "version" Node.text? }

/-- Reads a server. -/
def Server.ofNode? (node : Node) : Option Server := do
  let f ← node.fields? ["url", "description"]
  some {
    url := ← f.required "url" Node.text?
    description := ← f.maybe "description" Node.text? }

/-- Reads external documentation. -/
def ExternalDocs.ofNode? (node : Node) : Option ExternalDocs := do
  let f ← node.fields? ["url", "description"]
  some {
    url := ← f.required "url" Node.text?
    description := ← f.maybe "description" Node.text? }

/-- Reads a tag. -/
def Tag.ofNode? (node : Node) : Option Tag := do
  let f ← node.fields? ["name", "description", "externalDocs"]
  some {
    name := ← f.required "name" Node.text?
    description := ← f.maybe "description" Node.text?
    externalDocs := ← f.maybe "externalDocs" ExternalDocs.ofNode? }

/-- Reads an example. -/
def Example.ofNode? (node : Node) : Option Example := do
  let f ← node.fields? ["summary", "description", "value", "externalValue"]
  some {
    summary := ← f.maybe "summary" Node.text?
    description := ← f.maybe "description" Node.text?
    value := ← f.maybe "value" Node.text?
    externalValue := ← f.maybe "externalValue" Node.text? }

/-- Reads a header. -/
def Header.ofNode? (node : Node) : Option Header := do
  let f ← node.fields? ["description", "required", "schema"]
  some {
    description := ← f.maybe "description" Node.text?
    required := ← f.orElse "required" false Node.flag?
    schema := ← f.maybe "schema" Schema.ofNode? }

/-- Reads content of one mimetype. -/
def MediaType.ofNode? (node : Node) : Option MediaType := do
  let f ← node.fields? ["schema", "examples"]
  some {
    schema := ← f.maybe "schema" Schema.ofNode?
    examples := ← f.orElse "examples" [] (Node.dict? Example.ofNode?) }

/-- Reads a response. -/
def Response.ofNode? (node : Node) : Option Response := do
  let f ← node.fields? ["description", "headers", "content"]
  some {
    description := ← f.required "description" Node.text?
    headers := ← f.orElse "headers" [] (Node.dict? Header.ofNode?)
    content := ← f.orElse "content" [] (Node.dict? MediaType.ofNode?) }

/-- Reads the target of a reference; only a table can be one. -/
def referenceTarget? : Node → Option String
  | .row _ => none
  | node => do
    let f ← node.fields? ["$ref"]
    f.required "$ref" Node.text?

/-- Reads a reference or, failing that, a value. -/
def Referable.ofNode? {α : Type} (read : Node → Option α) (node : Node) :
    Option (Referable α) := do
  let settled ← node.settle?
  match referenceTarget? settled with
  | some target => some (.reference target)
  | none => (read settled).map .item

/-- Reads a parameter. -/
def Parameter.ofNode? (node : Node) : Option Parameter := do
  let f ← node.fields? ["name", "in", "description", "required", "schema"]
  some {
    name := ← f.required "name" Node.text?
    location := ← f.required "in" Node.text?
    description := ← f.maybe "description" Node.text?
    required := ← f.required "required" Node.flag?
    schema := ← f.maybe "schema" Schema.ofNode? }

/-- Reads a request body. -/
def RequestBody.ofNode? (node : Node) : Option RequestBody := do
  let f ← node.fields? ["description", "content", "required"]
  some {
    description := ← f.maybe "description" Node.text?
    content := ← f.required "content" (Node.dict? MediaType.ofNode?)
    required := ← f.required "required" Node.flag? }

/-- Reads an operation. -/
def Operation.ofNode? (node : Node) : Option Operation := do
  let f ← node.fields?
    ["tags", "summary", "description", "parameters", "requestBody", "responses"]
  some {
    tags := ← f.orElse "tags" [] (Node.list? Node.text?)
    summary := ← f.maybe "summary" Node.text?
    description := ← f.maybe "description" Node.text?
    parameters := ← f.orElse "parameters" [] (Node.list? Parameter.ofNode?)
    requestBody := ← f.maybe "requestBody" RequestBody.ofNode?
    responses := ← f.required "responses" (Node.dict? (Referable.ofNode? Response.ofNode?)) }

/-- Reads a path. -/
def PathItem.ofNode? (node : Node) : Option PathItem := do
  let f ← node.fields? ["get", "post", "put", "delete", "patch", "options", "head"]
  some {
    get := ← f.maybe "get" Operation.ofNode?
    post := ← f.maybe "post" Operation.ofNode?
    put := ← f.maybe "put" Operation.ofNode?
    delete := ← f.maybe "delete" Operation.ofNode?
    patch := ← f.maybe "patch" Operation.ofNode?
    options := ← f.maybe "options" Operation.ofNode?
    head := ← f.maybe "head" Operation.ofNode? }

/-- Reads a link. -/
def Link.ofNode? (node : Node) : Option Link := do
  let f ← node.fields? ["operationRef", "operationId", "description", "server"]
  some {
    operationRef := ← f.maybe "operationRef" Node.text?
    operationId := ← f.maybe "operationId" Node.text?
    description := ← f.maybe "description" Node.text?
    server := ← f.maybe "server" Server.ofNode? }

/-- Reads the component tables. -/
def Components.ofNode? (node : Node) : Option Components := do
  let f ← node.fields?
    ["schemas", "responses", "parameters", "examples", "requestBodies", "headers", "links",
      "callbacks"]
  some {
    schemas := ← f.orElse "schemas" [] (Node.dict? Schema.ofNode?)
    responses := ← f.orElse "responses" [] (Node.dict? Response.ofNode?)
    parameters := ← f.orElse "parameters" [] (Node.dict? Parameter.ofNode?)
    examples := ← f.orElse "examples" [] (Node.dict? Example.ofNode?)
    requestBodies := ← f.orElse "requestBodies" [] (Node.dict? RequestBody.ofNode?)
    headers := ← f.orElse "headers" [] (Node.dict? Header.ofNode?)
    links := ← f.orElse "links" [] (Node.dict? Link.ofNode?)
    callbacks := ← f.orElse "callbacks" [] (Node.dict? (Node.dict? PathItem.ofNode?)) }

/-- Reads a document. -/
def Document.ofNode? (node : Node) : Option Document := do
  let f ← node.fields?
    ["openapi", "info", "servers", "paths", "components", "tags", "externalDocs"]
  some {
    openapi := ← f.required "openapi" Node.text?
    info := ← f.required "info" Info.ofNode?
    servers := ← f.orElse "servers" [] (Node.list? Server.ofNode?)
    paths := ← f.required "paths" (Node.dict? PathItem.ofNode?)
    components := ← f.maybe "components" Components.ofNode?
    tags := ← f.orElse "tags" [] (Node.list? Tag.ofNode?)
    externalDocs := ← f.maybe "externalDocs" ExternalDocs.ofNode? }

end ApiNotes.OpenApi
