/-
Completing an OpenAPI document fills in defaults and changes nothing else.

`Document.pass` is `Document.sanitize` as it would run in place, over every object of the
specification that it can reach, the operations of callbacks and the schemas of schemas
included.  All of them are left as they were, so that a document differs from what it was at
most in the version of the specification, which is filled in before anything is checked, and in
the servers, which are filled in behind the checks of the head.
-/
import ApiNotes.Proofs.DocumentRules
import ApiNotes.Proofs.Passes

namespace ApiNotes.OpenApi

open Check Pass

/-! ### The head of a document -/

/-- Goes through the license of an API. -/
def Info.pass : Pass Info :=
  (look fun info => filled info.title "title").andThen <|
  (look fun info => filled info.version "version").andThen <|
  part (·.license) (fun info license => { info with license })
    (optional (look License.check) "license")

theorem Info.pass_reads : OnlyReads Info.pass Info.check :=
  (OnlyReads.look _).andThen <|
  (OnlyReads.look _).andThen <|
  ((OnlyReads.look _).optional "license").part

/-- Goes through the documentation of a tag. -/
def Tag.pass : Pass Tag :=
  (look fun tag => filled tag.name "name").andThen <|
  part (·.externalDocs) (fun tag externalDocs => { tag with externalDocs })
    (optional (look ExternalDocs.check) "externalDocs")

theorem Tag.pass_reads : OnlyReads Tag.pass Tag.check :=
  (OnlyReads.look _).andThen ((OnlyReads.look _).optional "externalDocs").part

/-! ### Operations -/

/-- Looks at a reference, or goes through a value. -/
def Referable.pass {α : Type} (p : Pass α) : Pass (Referable α)
  | .reference target => (.reference target, filled target "$ref")
  | .item value => (.item (p value).1, (p value).2)

theorem Referable.pass_reads {α : Type} {p : Pass α} {check : α → Checked Unit}
    (hp : OnlyReads p check) : OnlyReads (Referable.pass p) (Referable.check check) := by
  intro r
  cases r with
  | reference target => rfl
  | item value => rw [Referable.pass, hp, Referable.check]

/-- Goes through the parameters, the body and the responses of an operation. -/
def Operation.pass : Pass Operation :=
  (part (·.parameters) (fun operation parameters => { operation with parameters })
    (each (look Parameter.check) "parameters")).andThen <|
  (part (·.requestBody) (fun operation requestBody => { operation with requestBody })
    (optional (look RequestBody.check) "requestBody")).andThen <|
  (look fun operation =>
    ensure (!operation.responses.isEmpty) .missingField "responses").andThen <|
  part (·.responses) (fun operation responses => { operation with responses })
    (entries (Referable.pass (look Response.check)) "responses")

theorem Operation.pass_reads : OnlyReads Operation.pass Operation.check :=
  ((OnlyReads.look _).each "parameters").part.andThen <|
  ((OnlyReads.look _).optional "requestBody").part.andThen <|
  (OnlyReads.look _).andThen <|
  ((Referable.pass_reads (OnlyReads.look _)).entries "responses").part

/-- Goes through the slots of a path, one method after another. -/
def PathItem.pass : Pass PathItem :=
  forKeys Method.all fun m =>
    part (·.slot m) (·.withSlot m ·) (optional Operation.pass m.field)

/-- What is written back to a slot is what it holds. -/
theorem withSlot_slot (item : PathItem) (m : Method) : item.withSlot m (item.slot m) = item := by
  cases m <;> rfl

/-- A check of the operations that are there looks at every slot. -/
theorem PathItem.check_eq_forM (item : PathItem) :
    item.check = Method.all.forM fun m =>
      Check.optional Operation.check m.field (item.slot m) := by
  rw [PathItem.check, PathItem.operations]
  induction Method.all with
  | nil => rfl
  | cons m rest ih =>
      -- a free slot is left out on the one side and passes at once on the other
      show _ = (Check.optional Operation.check m.field (item.slot m) >>= fun _ => rest.forM _)
      rw [← ih, List.filterMap_cons]
      cases item.slot m <;> rfl

theorem PathItem.pass_reads : OnlyReads PathItem.pass PathItem.check := by
  intro item
  rw [PathItem.check_eq_forM]
  exact OnlyReads.forKeys (fun m => (Operation.pass_reads.optional m.field).part
    fun item => withSlot_slot item m) Method.all item

/-! ### Schemas -/

mutual

/-- Goes through the properties and the elements of a schema, at every depth. -/
def Schema.pass : Pass Schema
  | ⟨type, description, properties, required, items⟩ =>
    let named : Option (List (String × Schema)) × Checked Unit := match properties with
      | some ps => (some (Schema.passProperties ps).1, (Schema.passProperties ps).2)
      | none => (none, .ok ())
    let elements : Option Schema × Checked Unit := match items with
      | some s => (some s.pass.1, s.pass.2.mapError (·.within "items"))
      | none => (none, .ok ())
    guarded named.2 ⟨type, description, named.1, required, items⟩
      (⟨type, description, named.1, required, elements.1⟩, elements.2)

/-- Goes through properties one after another. -/
def Schema.passProperties : Pass (List (String × Schema))
  | [] => ([], .ok ())
  | (name, s) :: rest =>
    guarded ((filled name "").mapError (·.within "properties")) ((name, s) :: rest)
      (onward ((name, s.pass.1), s.pass.2.mapError (·.withinKey "properties" name)) rest
        (Schema.passProperties rest))

end

theorem Schema.passProperties_of_schemas {ps : List (String × Schema)}
    (h : ∀ e ∈ ps, e.2.pass = (e.2, e.2.check)) :
    Schema.passProperties ps = (ps, Schema.checkProperties ps) := by
  induction ps with
  | nil => rfl
  | cons e rest ih =>
      rw [List.forall_mem_cons] at h
      rw [Schema.passProperties, Schema.checkProperties, h.1, ih h.2, OnlyReads.onward_reads,
        OnlyReads.guarded_reads]

/-- A schema is left as it was, schemas of schemas included. -/
theorem Schema.pass_reads : OnlyReads Schema.pass Schema.check := by
  intro s
  induction s using Schema.induct with
  | step s ihproperties ihitems =>
      obtain ⟨type, description, properties, required, items⟩ := s
      have hnamed : ∀ ps, properties = some ps →
          Schema.passProperties ps = (ps, Schema.checkProperties ps) :=
        -- the properties are one level down, where the induction applies
        fun ps hps => Schema.passProperties_of_schemas fun e he => ihproperties ps hps e he
      cases properties with
      | none =>
          cases items with
          | none => rfl
          | some i =>
              simp only [Schema.pass, Schema.check, ihitems i rfl, OnlyReads.guarded_reads]
      | some ps =>
          cases items with
          | none => simp only [Schema.pass, Schema.check, hnamed ps rfl, OnlyReads.guarded_reads]
          | some i =>
              simp only [Schema.pass, Schema.check, hnamed ps rfl, ihitems i rfl,
                OnlyReads.guarded_reads]

/-! ### Components -/

/-- Goes through the server of a link. -/
def Link.pass : Pass Link :=
  part (·.server) (fun link server => { link with server }) (optional (look Server.check) "server")

theorem Link.pass_reads : OnlyReads Link.pass Link.check :=
  ((OnlyReads.look _).optional "server").part

/-- Goes through the paths of a callback. -/
def callbackPass : Pass (String × Callback) :=
  value fun name => list <| value fun expression =>
    PathItem.pass.blaming fun fault => (fault.withinKey name expression).within "callbacks"

theorem callbackPass_reads : OnlyReads callbackPass checkCallback :=
  OnlyReads.value fun _ => (OnlyReads.value fun _ => PathItem.pass_reads.blaming _).list

/-- Goes through the component tables. -/
def Components.pass : Pass Components :=
  (part (·.schemas) (fun c schemas => { c with schemas })
    (entries Schema.pass "schemas")).andThen <|
  (part (·.responses) (fun c responses => { c with responses })
    (entries (look Response.check) "responses")).andThen <|
  (part (·.parameters) (fun c parameters => { c with parameters })
    (entries (look Parameter.check) "parameters")).andThen <|
  (part (·.examples) (fun c examples => { c with examples })
    (entries (look Example.check) "examples")).andThen <|
  (part (·.requestBodies) (fun c requestBodies => { c with requestBodies })
    (entries (look RequestBody.check) "requestBodies")).andThen <|
  (part (·.headers) (fun c headers => { c with headers })
    (entries (look fun _ => .ok ()) "headers")).andThen <|
  (part (·.links) (fun c links => { c with links }) (entries Link.pass "links")).andThen <|
  part (·.callbacks) (fun c callbacks => { c with callbacks }) (list callbackPass)

theorem Components.pass_reads : OnlyReads Components.pass Components.check :=
  (Schema.pass_reads.entries "schemas").part.andThen <|
  ((OnlyReads.look _).entries "responses").part.andThen <|
  ((OnlyReads.look _).entries "parameters").part.andThen <|
  ((OnlyReads.look _).entries "examples").part.andThen <|
  ((OnlyReads.look _).entries "requestBodies").part.andThen <|
  ((OnlyReads.look _).entries "headers").part.andThen <|
  (Link.pass_reads.entries "links").part.andThen <|
  callbackPass_reads.list.part

/-! ### Documents -/

namespace Document

/-- Goes through what stands in front of the servers. -/
def passHead : Pass Document :=
  (look fun doc => ensure (Version.isValid doc.openapi) .invalidFormat "openapi").andThen <|
  part (·.info) (fun doc info => { doc with info }) (Info.pass.blaming (·.within "info"))

theorem passHead_reads : OnlyReads passHead checkHead :=
  (OnlyReads.look _).andThen (Info.pass_reads.blaming _).part

/-- Goes through the servers and what stands behind them. -/
def passParts : Pass Document :=
  (part (·.servers) (fun doc servers => { doc with servers })
    (each (look Server.check) "servers")).andThen <|
  (look fun doc => ensure (!doc.paths.isEmpty) .missingField "paths").andThen <|
  (part (·.paths) (fun doc paths => { doc with paths }) (entries PathItem.pass "paths")).andThen <|
  (part (·.components) (fun doc components => { doc with components })
    (optional Components.pass "components")).andThen <|
  (part (·.tags) (fun doc tags => { doc with tags }) (each Tag.pass "tags")).andThen <|
  part (·.externalDocs) (fun doc externalDocs => { doc with externalDocs })
    (optional (look ExternalDocs.check) "externalDocs")

theorem passParts_reads : OnlyReads passParts checkParts :=
  ((OnlyReads.look _).each "servers").part.andThen <|
  (OnlyReads.look _).andThen <|
  (PathItem.pass_reads.entries "paths").part.andThen <|
  (Components.pass_reads.optional "components").part.andThen <|
  (Tag.pass_reads.each "tags").part.andThen <|
  ((OnlyReads.look _).optional "externalDocs").part

/-- Fills in what may be missing and goes through the rest, in place. -/
def pass : Pass Document :=
  (write fillVersion).andThen <| passHead.andThen <| (write fillServers).andThen passParts

/-- The pass in place leaves what the checks of a document are followed by, and has their
outcome. -/
theorem pass_eq_sanitize (doc : Document) : doc.pass = doc.sanitize := by
  simp only [pass, Pass.andThen, write, sanitize, passHead_reads doc.fillVersion,
    passParts_reads doc.fillVersion.fillServers]
  cases doc.fillVersion.checkHead <;> rfl

/-- What completing a document does to it. -/
structure FillsDefaults (before after : Document) : Prop where
  /-- Nothing but the version and the servers is touched. -/
  rest : after = { before with openapi := after.openapi, servers := after.servers }
  /-- A missing version is filled in, whatever else is wrong. -/
  openapi : Defaulted True "" latestVersion before.openapi after.openapi
  /-- Missing servers are filled in once the head has passed. -/
  servers : Defaulted before.HeadWellFormed [] [{ url := "/" }] before.servers after.servers

theorem defaulted_fillVersion (doc : Document) :
    Defaulted True "" latestVersion doc.openapi doc.fillVersion.openapi := by
  have hversion : doc.fillVersion.openapi =
      if doc.openapi.isEmpty then latestVersion else doc.openapi := apply_ite Document.openapi _ _ _
  rw [hversion]
  exact .ite trivial String.isEmpty_iff

theorem defaulted_fillServers {doc : Document} (h : doc.HeadWellFormed) :
    Defaulted doc.HeadWellFormed [] [{ url := "/" }] doc.servers doc.fillServers.servers := by
  have hservers : doc.fillServers.servers =
      if doc.servers.isEmpty then [{ url := "/" }] else doc.servers :=
    apply_ite Document.servers _ _ _
  rw [hservers]
  exact .ite h List.isEmpty_iff

/-- How far the checks of a document get, and what they leave. -/
theorem sanitize_fst_cases (doc : Document) :
    (¬doc.HeadWellFormed ∧ doc.sanitize.1 = doc.fillVersion) ∨
    (doc.HeadWellFormed ∧ doc.sanitize.1 = doc.fillVersion.fillServers) := by
  unfold sanitize
  dsimp only
  cases hhead : doc.fillVersion.checkHead with
  | error fault =>
      have hnot : doc.fillVersion.checkHead ≠ .ok () := by simp [hhead]
      exact .inl ⟨fun h => hnot (checkHead_fillVersion.mpr h), rfl⟩
  | ok u => exact .inr ⟨checkHead_fillVersion.mp hhead, rfl⟩

/-- Whatever stops the checks, they have filled in the defaults that they got to, and changed
nothing else. -/
theorem fillsDefaults_sanitize (doc : Document) : FillsDefaults doc doc.sanitize.1 := by
  rcases sanitize_fst_cases doc with ⟨hhead, hleft⟩ | ⟨hhead, hleft⟩
  · have hservers : doc.fillVersion.servers = doc.servers := by rw [fillVersion_eq]
    rw [hleft]
    refine ⟨?_, defaulted_fillVersion doc, ?_⟩
    · rw [hservers]
      exact fillVersion_eq doc
    · rw [hservers]
      exact .of_not_reached hhead
  · rw [hleft, fillServers_fillVersion]
    exact ⟨rfl, defaulted_fillVersion doc, defaulted_fillServers hhead⟩

namespace FillsDefaults

variable {doc after : Document}

/-- A document that misses neither its version nor its servers stays as it is. -/
theorem eq_self (h : FillsDefaults doc after) (hopenapi : doc.openapi ≠ "")
    (hservers : doc.servers ≠ []) : after = doc := by
  rw [h.rest, h.openapi.kept fun hboth => hopenapi hboth.2,
    h.servers.kept fun hboth => hservers hboth.2]

/-- The defaults are well-formed themselves. -/
theorem wellFormed (h : FillsDefaults doc after) (hdoc : doc.WellFormed) : after.WellFormed := by
  rw [h.rest]
  refine { hdoc with head := ⟨?_, hdoc.head.info⟩, servers := ?_ }
  · rcases h.openapi.eq_default_or_eq with hopenapi | hopenapi
    · rw [hopenapi]
      exact .inr (by decide +kernel)
    · rw [hopenapi]
      exact hdoc.head.openapi
  · rcases h.servers.eq_default_or_eq with hservers | hservers
    · rw [hservers, List.forall_mem_singleton]
      decide +kernel
    · rw [hservers]
      exact hdoc.servers

end FillsDefaults

/-- Behind checks that passed nothing is missing any more. -/
theorem sanitize_sanitize {doc : Document} (h : doc.sanitize.2 = .ok ()) :
    doc.sanitize.1.sanitize = (doc.sanitize.1, .ok ()) := by
  have hdoc : doc.WellFormed := sanitize_eq_ok.mp h
  have hfills := fillsDefaults_sanitize doc
  have hopenapi := hfills.openapi.ne_missing trivial (by decide)
  have hservers := hfills.servers.ne_missing hdoc.head (by simp)
  have hleft := (fillsDefaults_sanitize doc.sanitize.1).eq_self hopenapi hservers
  have houtcome := sanitize_eq_ok.mpr (hfills.wellFormed hdoc)
  exact Prod.ext hleft houtcome

/-- **Completing a document goes well exactly when it keeps all rules, fills in its version and its
servers, and changes nothing else; once it has gone well, doing it again changes nothing.** -/
theorem pass_exact (doc : Document) :
    doc.pass = doc.sanitize ∧ (doc.pass.2 = .ok () ↔ doc.WellFormed) ∧
      FillsDefaults doc doc.pass.1 ∧
      (doc.pass.2 = .ok () → doc.pass.1.pass = (doc.pass.1, .ok ())) := by
  simp only [pass_eq_sanitize]
  exact ⟨trivial, sanitize_eq_ok, fillsDefaults_sanitize doc, sanitize_sanitize⟩

/-- A document that names neither a version nor a server, with a schema of two levels and a callback
whose name and expression are blank. -/
def unservedPets : Document where
  openapi := ""
  info := { title := "Pets", version := "first", license := some { name := "MIT" } }
  paths := [("/pets/{id}", {
    get := some {
      parameters := [{ name := "id", location := "path", required := true }]
      responses := [("200", .item { description := "a pet" }),
        ("404", .reference "#/components/responses/404")] } })]
  components := some {
    schemas := [("Pets", {
      type := some "array"
      items := some { type := some "object", properties := some [("name", {})] } })]
    callbacks := [("", [("", {})])] }

theorem pass_unservedPets : unservedPets.pass.2 = .ok () ∧ unservedPets.WellFormed ∧
    unservedPets.pass.1 = { unservedPets with openapi := "3.0.1", servers := [{ url := "/" }] } ∧
    unservedPets.pass.1.pass = (unservedPets.pass.1, .ok ()) := by
  obtain ⟨heq, hexact, hfills, hagain⟩ := pass_exact unservedPets
  have hok : unservedPets.pass.2 = .ok () := by
    rw [heq]
    decide +kernel
  have hrules := hexact.mp hok
  refine ⟨hok, hrules, ?_, hagain hok⟩
  rw [hfills.rest, hfills.openapi.filled trivial rfl, hfills.servers.filled hrules.head rfl]
  rfl

end Document

/-- A draft can be finished exactly when its document, linked to what it shares, keeps all rules. -/
theorem Draft.build_isOk_iff {d : Draft} :
    (∃ document, d.build = .ok document) ↔ d.document.WellFormed := by
  rw [← Document.sanitize_eq_ok]
  constructor
  · rintro ⟨document, hbuild⟩
    obtain ⟨_, hok, -⟩ := map_eq_ok.mp hbuild
    exact hok
  · intro hok
    exact ⟨d.document.sanitize.1, map_eq_ok.mpr ⟨(), hok, rfl⟩⟩

end ApiNotes.OpenApi
