/-
What an annotation declares.

Each tag has a grammar: a number of words followed by one field that takes the rest.  A
tag with too few fields is dropped without a word, since half-written annotations are
common.  Types and statuses are the exception: a malformed one cannot be guessed, and
the annotation fails at that tag.

    @apidoc           title NL description
    @apiVersion       version
    @apiServer        url description
    @apiLicense       name url
    @apiTag           name description
    @apiExternalDocs  url description
    @api              method path summary NL description
    @apiTags          name,name
    @apiParam         name type flag description
    @apiQuery         name type flag description
    @apiHeader        name flag summary
    @apiExample       mimetype summary NL value
    @apiRequest       type mimetype description
    @apiResponse      status type mimetype description
-/
import ApiNotes.Annotation.TagKind
import ApiNotes.Model.ApiDoc
import ApiNotes.Text.Case
import ApiNotes.Text.Digits

namespace ApiNotes.Annotation

/-- What one annotation declares. -/
inductive Block
  /-- The header of a document. -/
  | doc (doc : ApiDoc)
  /-- An endpoint. -/
  | endpoint (endpoint : Endpoint)
  /-- Nothing: no opener, or one with too few fields. -/
  | empty

/-! ### Single tags -/

/-- Whether a flag says that a value may be left out; every other word means that it may not. -/
def isOptional (flag : String) : Bool := Text.eqIgnoreCase flag "optional"

/-- Reads a type token; a bad one is a fault at the tag. -/
def typeAt (tag : Tag) (token : String) : Checked DataType :=
  match DataType.parse token with
  | .ok type => .ok type
  | .error fault => .error (fault.located tag.position)

/-- Reads a status: digits with an optional plus, below 65536. -/
def statusOf? (token : String) : Option Nat :=
  let digits := Text.dropChar '+' token.toList
  if digits.isEmpty || !digits.all Char.isDigit then none
  else
    let n := Text.decimalValue digits
    if n < 65536 then some n else none

/-- A parameter: name, type, flag and description. -/
def paramOf? (tag : Tag) : Checked (Option Param) :=
  match tag.fields 4 with
  | name :: token :: flag :: rest => do
    let type ← typeAt tag token
    .ok (some ⟨name, type, isOptional flag, fieldAt rest 0⟩)
  | _ => .ok none

/-- A header: name, flag and summary. -/
def headerOf? (tag : Tag) : Option Header :=
  match tag.fields 3 with
  | name :: flag :: rest => some ⟨name, fieldAt rest 0, isOptional flag⟩
  | _ => none

/-- An example: mimetype and summary on the first line, the value on the lines below, verbatim. -/
def exampleOf? (tag : Tag) : Option Example := do
  let (head, value) ← Text.cutAt ['\n'] tag.body.toList
  match splitFields (String.ofList head) 2 with
  | mimetype :: rest =>
    if value.all Text.isBlank then none
    else some ⟨mimetype, fieldAt rest 0, String.ofList value⟩
  | [] => none

/-! ### Parameters with dotted names -/

/-- The enclosing names of a dotted name, and its last part. -/
def splitName (name : String) : List String × String :=
  let parts := (name.toList.splitOn '.').map String.ofList
  (parts.dropLast, parts.getLastD "")

/-- Adds a parameter to a list.  One with a dotted name becomes a member of the parameter that its
name starts with; without an object to take it, it is dropped. -/
def attachParam (params : List Param) (param : Param) : List Param :=
  match splitName param.name with
  | ([], _) => params ++ [param]
  | (first :: nested, leaf) => attachTo first nested leaf params
where
  /-- Attaches to the first parameter of the given name. -/
  attachTo (first : String) (nested : List String) (leaf : String) : List Param → List Param
    | [] => []
    | p :: rest =>
      if p.name = first then
        match p.type.attach? leaf { param with name := leaf } nested with
        | some type => { p with type } :: rest
        | none => p :: rest
      else p :: attachTo first nested leaf rest

end ApiNotes.Annotation

namespace ApiNotes

open Annotation

namespace Body

/-- Adds a member to the body's type; without an object to take it, it is dropped. -/
def attach (body : Body) (param : Param) : Body :=
  let (parents, leaf) := splitName param.name
  match body.type.bind (·.attach? leaf { param with name := leaf } parents) with
  | some type => { body with type := some type }
  | none => body

/-- Takes in a header tag. -/
def addHeader (body : Body) (tag : Tag) : Body :=
  { body with headers := body.headers ++ (headerOf? tag).toList }

/-- Takes in an example tag. -/
def addExample (body : Body) (tag : Tag) : Body :=
  { body with examples := body.examples ++ (exampleOf? tag).toList }

/-- Takes in a parameter tag. -/
def addParam (body : Body) (tag : Tag) : Checked Body := do
  match ← paramOf? tag with
  | some param => .ok (body.attach param)
  | none => .ok body

/-- Takes in any tag of a section; those that say nothing about bodies are passed over. -/
def addTag (body : Body) (tag : Tag) : Checked Body :=
  match tag.kind with
  | .header => .ok (body.addHeader tag)
  | .sample => .ok (body.addExample tag)
  | .param => body.addParam tag
  | _ => .ok body

/-- Takes in the tags of a section. -/
def addTags (body : Body) (tags : List Tag) : Checked Body := tags.foldlM addTag body

end Body

end ApiNotes

namespace ApiNotes.Annotation

/-! ### Sections -/

/-- A response from its tag and the tags of its section. -/
def responseOf? (tag : Tag) (owned : List Tag) : Checked (Option Response) :=
  match tag.fields 4 with
  | status :: token :: mimetype :: rest => do
    let status ← match statusOf? status with
      | some status => .ok status
      | none => .error ((Fault.of .invalidStatus "status").located tag.position)
    let type ← typeAt tag token
    let body ← Body.addTags { type := some (type.withDescription (fieldAt rest 0)) } owned
    .ok (some { status, mimetype, body })
  | _ => .ok none

/-- A request from its tag and the tags of its section. -/
def requestOf? (tag : Tag) (owned : List Tag) : Checked (Option Request) :=
  match tag.fields 3 with
  | token :: mimetype :: rest => do
    let type ← typeAt tag token
    let body ← Body.addTags { type := some (type.withDescription (fieldAt rest 0)) } owned
    .ok (some { mimetype, body })
  | _ => .ok none

/-! ### Document headers -/

/-- What a tag outside of response sections says about the document. -/
def describeDoc (doc : ApiDoc) (tag : Tag) : ApiDoc :=
  match tag.kind, tag.fields 2 with
  | .version, _ :: _ => { doc with version := fieldAt (tag.fields 1) 0 }
  | .server, url :: rest => { doc with servers := doc.servers ++ [⟨url, fieldAt rest 0⟩] }
  | .license, name :: rest => { doc with license := some ⟨name, fieldAt rest 0⟩ }
  | .group, name :: rest => { doc with groups := doc.groups ++ [⟨name, fieldAt rest 0⟩] }
  | .externalDocs, url :: rest => { doc with externalDocs := some ⟨url, fieldAt rest 0⟩ }
  | _, _ => doc

/-- A document header from its opener and the tags after it.  A request tag says nothing here and
owns nothing: the tags behind it belong to the document. -/
def docOf? (opener : Tag) (rest : List Tag) : Checked (Option ApiDoc) := do
  let (title, description) := headAndTail opener.body
  if title.isEmpty then .ok none
  else
    let (before, sections) := splitSections rest
    let requests := sections.filter fun s => s.1.kind == .request
    let responses := sections.filter fun s => s.1.kind == .response
    let doc := (before ++ requests.flatMap (·.2)).foldl describeDoc { title, description }
    let responses ← responses.filterMapM fun s => responseOf? s.1 s.2
    .ok (some { doc with responses })

/-! ### Endpoints -/

/-- The names of a list of group names, separated by commas or blanks. -/
def groupNames (body : String) : List String :=
  ((body.toList.splitOnP fun c => c == ',' || Text.isBlank c).filter (!·.isEmpty)).map String.ofList

/-- What a tag before the first section says about the endpoint. -/
def describeEndpoint (e : Endpoint) (tag : Tag) : Checked Endpoint :=
  match tag.kind with
  | .tags => .ok { e with tags := e.tags ++ groupNames tag.body }
  | .param => do
    match ← paramOf? tag with
    | some param => .ok { e with params := attachParam e.params param }
    | none => .ok e
  | .query => do
    match ← paramOf? tag with
    | some param => .ok { e with queries := attachParam e.queries param }
    | none => .ok e
  | .header => .ok { e with headers := e.headers ++ (headerOf? tag).toList }
  | _ => .ok e

/-- What a section says about the endpoint; its first request is the one that counts. -/
def describeSection (e : Endpoint) (opener : Tag) (owned : List Tag) : Checked Endpoint :=
  match opener.kind with
  | .request => do
    let request ← requestOf? opener owned
    .ok { e with request := e.request.or request }
  | _ => do
    let response ← responseOf? opener owned
    .ok { e with responses := e.responses ++ response.toList }

/-- An endpoint from its opener and the tags after it. -/
def endpointOf? (opener : Tag) (rest : List Tag) : Checked (Option Endpoint) :=
  let (head, description) := headAndTail opener.body
  match splitFields head 3 with
  | method :: path :: summary =>
    match Method.ofName? method with
    | none => .error ((Fault.of .invalidFormat "method").located opener.position)
    | some method => do
      let (before, sections) := splitSections rest
      let e : Endpoint :=
        { method, path, summary := fieldAt summary 0, description, position := opener.position }
      let e ← before.foldlM describeEndpoint e
      let e ← sections.foldlM (fun e s => describeSection e s.1 s.2) e
      .ok (some e)
  | _ => .ok none

/-! ### Blocks -/

/-- What the tags of an annotation declare.  The first opener decides; tags before it count for
nothing. -/
def blockOf (tags : List Tag) : Checked Block :=
  match tags.dropWhile fun tag => !tag.kind.opensBlock with
  | [] => .ok .empty
  | opener :: rest =>
    if opener.kind = .doc then do
      .ok (match ← docOf? opener rest with
        | some doc => .doc doc
        | none => .empty)
    else do
      .ok (match ← endpointOf? opener rest with
        | some endpoint => .endpoint endpoint
        | none => .empty)

end ApiNotes.Annotation
