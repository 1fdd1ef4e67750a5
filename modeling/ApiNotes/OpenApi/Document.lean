/-
OpenAPI documents.

The types follow the specification's objects as far as this library writes them.  What
is optional there is optional here, even where an absent value and an empty one mean the
same: a document that is read and written again has to come out as it went in.
-/
import ApiNotes.Model.Method
import ApiNotes.OpenApi.Schema

namespace ApiNotes.OpenApi

/-- The license of an API. -/
structure License where
  name : String
  url : Option String := none
deriving BEq, Inhabited

/-- What an API is called. -/
structure Info where
  title : String
  description : Option String := none
  license : Option License := none
  version : String
deriving BEq, Inhabited

/-- A server of an API. -/
structure Server where
  url : String
  description : Option String := none
deriving BEq, Inhabited

/-- Documentation kept elsewhere. -/
structure ExternalDocs where
  url : String
  description : Option String := none
deriving BEq, Inhabited

/-- A group of operations. -/
structure Tag where
  name : String
  description : Option String := none
  externalDocs : Option ExternalDocs := none
deriving BEq, Inhabited

/-- A sample payload. -/
structure Example where
  summary : Option String := none
  description : Option String := none
  /-- The payload, verbatim. -/
  value : Option String := none
  externalValue : Option String := none
deriving BEq, Inhabited

/-- A header of a response. -/
structure Header where
  description : Option String := none
  required : Bool := false
  schema : Option Schema := none
deriving BEq, Inhabited

/-- Content of one mimetype. -/
structure MediaType where
  schema : Option Schema := none
  examples : Dict Example := []
deriving Inhabited

instance : BEq MediaType where
  beq a b := a.schema == b.schema && Dict.sameBy (· == ·) a.examples b.examples

/-- Whether two tables of content agree up to the orders of their tables. -/
def sameContent (a b : Dict MediaType) : Bool := Dict.sameBy (· == ·) a b

/-- A response; its content is listed by mimetype. -/
structure Response where
  description : String := ""
  headers : Dict Header := []
  content : Dict MediaType := []
deriving Inhabited

instance : BEq Response where
  beq a b := a.description == b.description && Dict.sameBy (· == ·) a.headers b.headers &&
    sameContent a.content b.content

/-- A value, or a reference to an entry of the component tables. -/
inductive Referable (α : Type)
  /-- A reference such as `#/components/responses/404`. -/
  | reference (target : String)
  /-- The value itself. -/
  | item (value : α)
deriving BEq, Inhabited

namespace Referable

/-- A reference to an entry of a component table. -/
def toComponent {α : Type} (table name : String) : Referable α :=
  .reference ("#/components/" ++ table ++ "/" ++ name)

/-- The part of a reference behind its last slash. -/
def targetName (target : String) : String :=
  String.ofList ((target.toList.splitOn '/').getLastD [])

/-- The value itself, or the entry of the table that the reference names. -/
def resolve {α : Type} (table : Dict α) : Referable α → Option α
  | .item value => some value
  | .reference target => Dict.get? table (targetName target)

end Referable

/-- A parameter of an operation. -/
structure Parameter where
  name : String
  /-- Where the parameter is sent: in the path, the query or a header. -/
  location : String
  description : Option String := none
  required : Bool
  schema : Option Schema := none
deriving BEq, Inhabited

/-- The body of a request; its content is listed by mimetype. -/
structure RequestBody where
  description : Option String := none
  content : Dict MediaType := []
  required : Bool
deriving Inhabited

instance : BEq RequestBody where
  beq a b := a.description == b.description && sameContent a.content b.content &&
    a.required == b.required

/-- What one method does on a path; its responses are listed by status. -/
structure Operation where
  tags : List String := []
  summary : Option String := none
  description : Option String := none
  parameters : List Parameter := []
  requestBody : Option RequestBody := none
  responses : Dict (Referable Response) := []
deriving Inhabited

instance : BEq Operation where
  beq a b := a.tags == b.tags && a.summary == b.summary && a.description == b.description &&
    a.parameters == b.parameters && a.requestBody == b.requestBody &&
    Dict.sameBy (· == ·) a.responses b.responses

/-- The operations of a path. -/
structure PathItem where
  get : Option Operation := none
  post : Option Operation := none
  put : Option Operation := none
  delete : Option Operation := none
  patch : Option Operation := none
  options : Option Operation := none
  head : Option Operation := none
deriving BEq, Inhabited

namespace PathItem

/-- The operation of a method. -/
def slot (item : PathItem) : Method → Option Operation
  | .get => item.get
  | .post => item.post
  | .put => item.put
  | .delete => item.delete
  | .patch => item.patch
  | .options => item.options
  | .head => item.head

/-- The path with another operation for a method. -/
def withSlot (item : PathItem) (method : Method) (operation : Option Operation) : PathItem :=
  match method with
  | .get => { item with get := operation }
  | .post => { item with post := operation }
  | .put => { item with put := operation }
  | .delete => { item with delete := operation }
  | .patch => { item with patch := operation }
  | .options => { item with options := operation }
  | .head => { item with head := operation }

/-- The operations that are present, with their methods. -/
def operations (item : PathItem) : List (Method × Operation) :=
  Method.all.filterMap fun m => (item.slot m).map (m, ·)

/-- Applies a function to every operation. -/
def mapOperations (f : Operation → Operation) (item : PathItem) : PathItem :=
  Method.all.foldl (fun i m => i.withSlot m ((item.slot m).map f)) item

/-- A slot holds what was written to it, and the other slots what they held. -/
theorem slot_withSlot (item : PathItem) (m m' : Method) (operation : Option Operation) :
    (item.withSlot m operation).slot m' = if m = m' then operation else item.slot m' := by
  cases m <;> cases m' <;> rfl

end PathItem

/-- A link from a response to an operation. -/
structure Link where
  operationRef : Option String := none
  operationId : Option String := none
  description : Option String := none
  server : Option Server := none
deriving BEq, Inhabited

/-- The requests that an operation sends back, by the expressions that give their addresses. -/
abbrev Callback := Dict PathItem

/-- Named entities that operations share. -/
structure Components where
  schemas : Dict Schema := []
  responses : Dict Response := []
  parameters : Dict Parameter := []
  examples : Dict Example := []
  requestBodies : Dict RequestBody := []
  headers : Dict Header := []
  links : Dict Link := []
  callbacks : Dict Callback := []
deriving Inhabited

namespace Components

instance : BEq Components where
  beq a b := Dict.sameBy (· == ·) a.schemas b.schemas &&
    Dict.sameBy (· == ·) a.responses b.responses &&
    Dict.sameBy (· == ·) a.parameters b.parameters &&
    Dict.sameBy (· == ·) a.examples b.examples &&
    Dict.sameBy (· == ·) a.requestBodies b.requestBodies &&
    Dict.sameBy (· == ·) a.headers b.headers &&
    Dict.sameBy (· == ·) a.links b.links &&
    Dict.sameBy (Dict.sameBy (· == ·)) a.callbacks b.callbacks

/-- Whether all tables are empty. -/
def isEmpty (c : Components) : Bool :=
  c.schemas.isEmpty && c.responses.isEmpty && c.parameters.isEmpty && c.examples.isEmpty &&
    c.requestBodies.isEmpty && c.headers.isEmpty && c.links.isEmpty && c.callbacks.isEmpty

end Components

/-- An OpenAPI document. -/
structure Document where
  /-- The version of the specification that the document follows. -/
  openapi : String
  info : Info
  servers : List Server := []
  paths : Dict PathItem := []
  components : Option Components := none
  tags : List Tag := []
  externalDocs : Option ExternalDocs := none
deriving Inhabited

instance : BEq Document where
  beq a b := a.openapi == b.openapi && a.info == b.info && a.servers == b.servers &&
    Dict.sameBy (· == ·) a.paths b.paths && a.components == b.components && a.tags == b.tags &&
    a.externalDocs == b.externalDocs

end ApiNotes.OpenApi
