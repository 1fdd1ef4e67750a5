/-
Which OpenAPI documents are complete.

The rules of the specification's objects are said here record by record, as statements about
all parameters, all entries of a table or all schemas inside a schema, and each check is shown
to pass exactly on the values that keep them.  `Document.WellFormed` is said of a document
before its version and its servers are filled in; what is filled in keeps the rules itself
(`Document.checkParts_fillServers`), so it does not count.
-/
import ApiNotes.OpenApi.Check
import ApiNotes.Proofs.Endpoints
import ApiNotes.Proofs.SchemaShapes
import ApiNotes.Proofs.WellFormed

namespace ApiNotes.OpenApi

open Check

/-! ### The head of a document -/

/-- A license has a name, and a link if any. -/
structure License.WellFormed (license : License) : Prop where
  name : Filled license.name
  url : ∀ url, license.url = some url → Url.isLink url = true

theorem License.check_iff {license : License} : license.check = .ok () ↔ license.WellFormed := by
  rw [License.check, check_bind_eq_ok, filled_eq_ok, ensure_eq_ok, Option.all_eq_true]
  exact ⟨fun h => ⟨h.1, h.2⟩, fun h => ⟨h.name, h.url⟩⟩

/-- The API has a title and a version, and its license is right. -/
structure Info.WellFormed (info : Info) : Prop where
  title : Filled info.title
  version : Filled info.version
  license : ∀ l, info.license = some l → l.WellFormed

theorem Info.check_iff {info : Info} : info.check = .ok () ↔ info.WellFormed := by
  simp only [Info.check, check_bind_eq_ok, filled_eq_ok, optional_eq_ok, License.check_iff]
  exact ⟨fun h => ⟨h.1, h.2.1, h.2.2⟩, fun h => ⟨h.title, h.version, h.license⟩⟩

/-- A tag has a name, and its documentation a link. -/
structure Tag.WellFormed (tag : Tag) : Prop where
  name : Filled tag.name
  externalDocs : ∀ d, tag.externalDocs = some d → Url.isLink d.url = true

theorem Tag.check_iff {tag : Tag} : tag.check = .ok () ↔ tag.WellFormed := by
  simp only [Tag.check, check_bind_eq_ok, filled_eq_ok, optional_eq_ok, ExternalDocs.check,
    ensure_eq_ok]
  exact ⟨fun h => ⟨h.1, h.2⟩, fun h => ⟨h.name, h.externalDocs⟩⟩

/-! ### Operations -/

/-- A parameter has a name and a known location, and in a path it is required. -/
structure Parameter.WellFormed (p : Parameter) : Prop where
  name : Filled p.name
  location : p.location ∈ ["path", "query", "header", "cookie"]
  required : p.location = "path" → p.required = true

theorem Parameter.check_iff {p : Parameter} : p.check = .ok () ↔ p.WellFormed := by
  rw [Parameter.check, check_bind_eq_ok, filled_eq_ok]
  by_cases hpath : p.location = "path"
  · rw [if_pos hpath, ensure_eq_ok]
    exact ⟨fun h => ⟨h.1, by simp [hpath], fun _ => h.2⟩, fun h => ⟨h.name, h.required hpath⟩⟩
  · rw [if_neg hpath, ensure_eq_ok, List.contains_iff_mem]
    constructor
    · exact fun h => ⟨h.1, List.mem_cons_of_mem _ h.2, fun hholds => absurd hholds hpath⟩
    · exact fun h => ⟨h.name, (List.mem_cons.mp h.location).resolve_left hpath⟩

/-- A reference names something; a value keeps its rules. -/
def Referable.WellFormed {α : Type} (rules : α → Prop) : Referable α → Prop
  | .reference target => Filled target
  | .item value => rules value

theorem Referable.check_iff {α : Type} {check : α → Checked Unit} {rules : α → Prop}
    (hcheck : ∀ x, check x = .ok () ↔ rules x) {r : Referable α} :
    Referable.check check r = .ok () ↔ r.WellFormed rules := by
  cases r with
  | reference target => exact filled_eq_ok
  | item value => exact hcheck value

/-- A response has a description. -/
def Response.WellFormed (response : Response) : Prop := Filled response.description

theorem Response.check_iff {response : Response} :
    response.check = .ok () ↔ response.WellFormed := filled_eq_ok

/-- A request body has content. -/
def RequestBody.WellFormed (body : RequestBody) : Prop := body.content ≠ []

theorem RequestBody.check_iff {body : RequestBody} : body.check = .ok () ↔ body.WellFormed := by
  rw [RequestBody.check, ensure_eq_ok, Bool.not_eq_true', List.isEmpty_eq_false_iff,
    RequestBody.WellFormed]

/-- An operation has a response, and its parts are right. -/
structure Operation.WellFormed (operation : Operation) : Prop where
  parameters : ∀ p ∈ operation.parameters, p.WellFormed
  requestBody : ∀ body, operation.requestBody = some body → body.WellFormed
  nonempty : operation.responses ≠ []
  responses : ∀ e ∈ operation.responses, Filled e.1 ∧ e.2.WellFormed Response.WellFormed

theorem Operation.check_iff {operation : Operation} :
    operation.check = .ok () ↔ operation.WellFormed := by
  simp only [Operation.check, check_bind_eq_ok, each_eq_ok, optional_eq_ok, entries_eq_ok,
    ensure_eq_ok, Parameter.check_iff, RequestBody.check_iff,
    Referable.check_iff fun _ => Response.check_iff, Bool.not_eq_true', List.isEmpty_eq_false_iff]
  exact ⟨fun h => ⟨h.1, h.2.1, h.2.2.1, h.2.2.2⟩,
    fun h => ⟨h.parameters, h.requestBody, h.nonempty, h.responses⟩⟩

/-- The operations of a path are right, whatever their methods. -/
def PathItem.WellFormed (item : PathItem) : Prop :=
  ∀ m operation, item.slot m = some operation → operation.WellFormed

theorem PathItem.check_iff {item : PathItem} : item.check = .ok () ↔ item.WellFormed := by
  simp only [PathItem.check, forM_eq_ok, mapError_eq_ok, Operation.check_iff, Prod.forall,
    mem_operations, PathItem.WellFormed]

/-! ### Schemas -/

namespace Schema

/-- The properties of a schema have a name, in every schema that stands in it. -/
def NamesFilled (s : Schema) : Prop :=
  ∀ t, Within t s → ∀ ps, t.properties = some ps → ∀ e ∈ ps, Filled e.1

/-- Names are filled at every depth when they are at this one and in all parts. -/
theorem namesFilled_iff {s : Schema} :
    s.NamesFilled ↔
      (∀ ps, s.properties = some ps → ∀ e ∈ ps, Filled e.1 ∧ e.2.NamesFilled) ∧
        ∀ i, s.items = some i → i.NamesFilled := by
  constructor
  · intro h
    constructor
    · intro ps hps e he
      exact ⟨h s .here ps hps e he, fun t ht => h t (.property hps he ht)⟩
    · intro i hi t ht
      exact h t (.items hi ht)
  · rintro ⟨hproperties, hitems⟩ t ht ps hps e he
    cases ht with
    | here => exact (hproperties ps hps e he).1
    | property hown hmem hinner => exact (hproperties _ hown _ hmem).2 t hinner ps hps e he
    | items hown hinner => exact hitems _ hown t hinner ps hps e he

theorem checkProperties_eq_ok {ps : List (String × Schema)} :
    checkProperties ps = .ok () ↔ ∀ e ∈ ps, Filled e.1 ∧ e.2.check = .ok () := by
  induction ps with
  | nil => simp [checkProperties]
  | cons e rest ih =>
      rw [checkProperties, check_bind_eq_ok, check_bind_eq_ok, mapError_eq_ok, mapError_eq_ok,
        filled_eq_ok, ih, List.forall_mem_cons, and_assoc]
      rfl

/-- The check of a schema, one level deep. -/
theorem check_eq_ok {s : Schema} : s.check = .ok () ↔
    (∀ ps, s.properties = some ps → ∀ e ∈ ps, Filled e.1 ∧ e.2.check = .ok ()) ∧
      ∀ i, s.items = some i → i.check = .ok () := by
  obtain ⟨type, description, properties, required, items⟩ := s
  cases properties <;> cases items <;>
    simp [check, check_bind_eq_ok, checkProperties_eq_ok, mapError_eq_ok]

theorem check_iff (s : Schema) : s.check = .ok () ↔ s.NamesFilled := by
  induction s using Schema.induct with
  | step s ihproperties ihitems =>
      rw [check_eq_ok, namesFilled_iff]
      refine and_congr ?_ ?_
      · exact forall₂_congr fun ps hps => forall₂_congr fun e he =>
          and_congr_right fun _ => ihproperties ps hps e he
      · exact forall₂_congr fun i hi => ihitems i hi

end Schema

/-! ### Components -/

/-- An example does not both hold its payload and say where it is. -/
def Example.WellFormed (e : Example) : Prop := e.value = none ∨ e.externalValue = none

theorem Example.check_iff {e : Example} : e.check = .ok () ↔ e.WellFormed := by
  rw [Example.check, ensure_eq_ok, Example.WellFormed]
  cases e.value <;> cases e.externalValue <;> simp

/-- The server of a link has a link. -/
def Link.WellFormed (link : Link) : Prop :=
  ∀ server, link.server = some server → Url.isLink server.url = true

theorem Link.check_iff {link : Link} : link.check = .ok () ↔ link.WellFormed := by
  simp only [Link.check, optional_eq_ok, Server.check, ensure_eq_ok, Link.WellFormed]

/-- The component tables are right.  Their keys are filled, but for those of the callbacks. -/
structure Components.WellFormed (c : Components) : Prop where
  schemas : ∀ e ∈ c.schemas, Filled e.1 ∧ e.2.NamesFilled
  responses : ∀ e ∈ c.responses, Filled e.1 ∧ e.2.WellFormed
  parameters : ∀ e ∈ c.parameters, Filled e.1 ∧ e.2.WellFormed
  examples : ∀ e ∈ c.examples, Filled e.1 ∧ e.2.WellFormed
  requestBodies : ∀ e ∈ c.requestBodies, Filled e.1 ∧ e.2.WellFormed
  headers : ∀ e ∈ c.headers, Filled e.1
  links : ∀ e ∈ c.links, Filled e.1 ∧ e.2.WellFormed
  callbacks : ∀ callback ∈ c.callbacks, ∀ e ∈ callback.2, e.2.WellFormed

theorem checkCallback_iff {callback : String × Callback} :
    checkCallback callback = .ok () ↔ ∀ e ∈ callback.2, e.2.WellFormed := by
  simp only [checkCallback, forM_eq_ok, mapError_eq_ok, PathItem.check_iff]

theorem Components.check_iff {c : Components} : c.check = .ok () ↔ c.WellFormed := by
  simp only [Components.check, check_bind_eq_ok, entries_eq_ok, forM_eq_ok, Schema.check_iff,
    Response.check_iff, Parameter.check_iff, Example.check_iff, RequestBody.check_iff,
    Link.check_iff, checkCallback_iff, and_true]
  constructor
  · rintro ⟨hschemas, hresponses, hparameters, hexamples, hbodies, hheaders, hlinks, hcallbacks⟩
    exact ⟨hschemas, hresponses, hparameters, hexamples, hbodies, hheaders, hlinks, hcallbacks⟩
  · exact fun h => ⟨h.schemas, h.responses, h.parameters, h.examples, h.requestBodies, h.headers,
      h.links, h.callbacks⟩

/-! ### Documents -/

namespace Document

/-- What is checked before the servers. -/
structure HeadWellFormed (doc : Document) : Prop where
  openapi : doc.openapi = "" ∨ Version.isValid doc.openapi = true
  info : doc.info.WellFormed

/-- A document keeps all rules. -/
structure WellFormed (doc : Document) : Prop where
  head : doc.HeadWellFormed
  servers : ∀ s ∈ doc.servers, Url.isLink s.url = true
  nonempty : doc.paths ≠ []
  paths : ∀ e ∈ doc.paths, Filled e.1 ∧ e.2.WellFormed
  components : ∀ c, doc.components = some c → c.WellFormed
  tags : ∀ tag ∈ doc.tags, tag.WellFormed
  externalDocs : ∀ d, doc.externalDocs = some d → Url.isLink d.url = true

theorem fillVersion_eq (doc : Document) :
    doc.fillVersion = { doc with openapi := doc.fillVersion.openapi } := by
  unfold fillVersion
  split <;> rfl

/-- Nothing but the version and the servers is filled in. -/
theorem fillServers_fillVersion (doc : Document) : doc.fillVersion.fillServers =
    { doc with openapi := doc.fillVersion.openapi, servers := doc.fillServers.servers } := by
  unfold fillVersion fillServers
  split <;> split <;> simp_all

/-- The version that is filled in is one. -/
theorem isValid_fillVersion {doc : Document} : Version.isValid doc.fillVersion.openapi = true ↔
    doc.openapi = "" ∨ Version.isValid doc.openapi = true := by
  unfold fillVersion
  split
  · rename_i hempty
    exact iff_of_true (show Version.isValid latestVersion = true by decide +kernel)
      (.inl (String.isEmpty_iff.mp hempty))
  · rename_i hempty
    rw [String.isEmpty_iff] at hempty
    simp [hempty]

theorem checkHead_fillVersion {doc : Document} :
    doc.fillVersion.checkHead = .ok () ↔ doc.HeadWellFormed := by
  have hinfo : doc.fillVersion.info = doc.info := by rw [fillVersion_eq]
  rw [checkHead, check_bind_eq_ok, ensure_eq_ok, mapError_eq_ok, hinfo, isValid_fillVersion,
    Info.check_iff]
  exact ⟨fun h => ⟨h.1, h.2⟩, fun h => ⟨h.openapi, h.info⟩⟩

/-- The server that is filled in has a link. -/
theorem servers_fillServers {doc : Document} :
    (∀ s ∈ doc.fillServers.servers, Url.isLink s.url = true) ↔
      ∀ s ∈ doc.servers, Url.isLink s.url = true := by
  unfold fillServers
  split
  · rename_i hempty
    rw [List.isEmpty_iff.mp hempty, List.forall_mem_singleton]
    exact iff_of_true (by decide +kernel) (by simp)
  · exact Iff.rfl

/-- The checks of a document, in a row. -/
theorem sanitize_snd (doc : Document) : doc.sanitize.2 = (do
    doc.fillVersion.checkHead
    doc.fillVersion.fillServers.checkParts) := by
  unfold sanitize
  dsimp only
  cases doc.fillVersion.checkHead <;> rfl

/-- **The checks of a document pass exactly on those that keep all rules.** -/
theorem sanitize_eq_ok {doc : Document} : doc.sanitize.2 = .ok () ↔ doc.WellFormed := by
  rw [sanitize_snd, check_bind_eq_ok, checkHead_fillVersion, fillServers_fillVersion]
  simp only [checkParts, check_bind_eq_ok, each_eq_ok, optional_eq_ok, entries_eq_ok, ensure_eq_ok,
    Server.check, ExternalDocs.check, servers_fillServers, PathItem.check_iff, Components.check_iff,
    Tag.check_iff, Bool.not_eq_true', List.isEmpty_eq_false_iff]
  constructor
  · rintro ⟨hhead, hservers, hne, hpaths, hcomponents, htags, hdocs⟩
    exact ⟨hhead, hservers, hne, hpaths, hcomponents, htags, hdocs⟩
  · exact fun h => ⟨h.head, h.servers, h.nonempty, h.paths, h.components, h.tags, h.externalDocs⟩

end Document

end ApiNotes.OpenApi
