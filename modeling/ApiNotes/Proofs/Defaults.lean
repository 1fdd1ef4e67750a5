/-
Completing a document fills in defaults and changes nothing else.

`ApiDoc.pass` is `ApiDoc.sanitize` as it would run in place: it goes down into every endpoint,
body and type by reference, could write to any of them, and can stop at any point.  Every pass
below the document only reads (`Endpoint.pass_reads` and the lemmas before it), for types by
induction on the type.  So whatever the outcome, a document differs from what it was at most in
the version and the servers, and exactly when the pass got as far as filling them in.
-/
import ApiNotes.Proofs.Passes
import ApiNotes.Proofs.WellFormed

namespace ApiNotes

open Check Pass

/-! ### Types and parameters -/

mutual

/-- Goes through the members of a type, at every depth. -/
def DataType.pass : Pass DataType
  | .leaf kind text => (.leaf kind text, .ok ())
  | .array none text => (.array none text, .ok ())
  | .array (some items) text => (.array (some items.pass.1) text, items.pass.2)
  | .object members text =>
    (.object (DataType.passMembers members).1 text, (DataType.passMembers members).2)

/-- Goes through members one after another. -/
def DataType.passMembers : Pass (List (String × Param))
  | [] => ([], .ok ())
  | (key, p) :: rest =>
    guarded ((filled key "").mapError (·.within "properties")) ((key, p) :: rest)
      (onward ((key, p.pass.1), p.pass.2.mapError (·.withinKey "properties" key)) rest
        (DataType.passMembers rest))

/-- Looks at the name of a parameter and goes through its type. -/
def Param.pass : Pass Param
  | ⟨name, type, omissible, description⟩ =>
    guarded (filled name "name") ⟨name, type, omissible, description⟩
      (⟨name, type.pass.1, omissible, description⟩, type.pass.2.mapError (·.within "type"))

end

/-- A parameter is left as it was when its type is. -/
theorem Param.pass_of_type {p : Param} (h : p.type.pass = (p.type, p.type.check)) :
    p.pass = (p, p.check) := by
  obtain ⟨name, type, omissible, description⟩ := p
  dsimp only at h
  rw [Param.pass, Param.check, h, OnlyReads.guarded_reads]

theorem DataType.passMembers_of_types {members : List (String × Param)}
    (h : ∀ m ∈ members, m.2.type.pass = (m.2.type, m.2.type.check)) :
    DataType.passMembers members = (members, DataType.checkMembers members) := by
  induction members with
  | nil => rfl
  | cons m rest ih =>
      rw [List.forall_mem_cons] at h
      rw [DataType.passMembers, DataType.checkMembers, Param.pass_of_type h.1, ih h.2,
        OnlyReads.onward_reads, OnlyReads.guarded_reads]

/-- A type is left as it was, members of members included. -/
theorem DataType.pass_reads : OnlyReads DataType.pass DataType.check := by
  intro t
  induction t using DataType.induct with
  | leaf kind text => rfl
  | bare text => rfl
  | array items text ih => rw [DataType.pass, ih, DataType.check]
  | object members text ih =>
      rw [DataType.pass, DataType.passMembers_of_types ih, DataType.check]

theorem Param.pass_reads : OnlyReads Param.pass Param.check :=
  fun p => Param.pass_of_type (DataType.pass_reads p.type)

/-! ### Bodies -/

/-- Goes through the headers, the examples and the type of a body. -/
def Body.pass : Pass Body :=
  (part (·.headers) (fun body headers => { body with headers })
    (each (look Header.check) "headers")).andThen <|
  (look fun body => noClash (fun a b => a.name == b.name)
    (fun i => (Fault.of .duplicate "name").withinIndex "headers" i) [] body.headers).andThen <|
  (part (·.examples) (fun body examples => { body with examples })
    (each (look Example.check) "examples")).andThen <|
  part (·.type) (fun body type => { body with type }) (optional DataType.pass "type")

theorem Body.pass_reads : OnlyReads Body.pass Body.check :=
  ((OnlyReads.look _).each "headers").part.andThen <|
  (OnlyReads.look _).andThen <|
  ((OnlyReads.look _).each "examples").part.andThen <|
  (DataType.pass_reads.optional "type").part

/-- Goes through the body of a request. -/
def Request.pass : Pass Request :=
  (look fun request => filled request.mimetype "mimetype").andThen <|
  part (·.body) (fun request body => { request with body }) Body.pass

theorem Request.pass_reads : OnlyReads Request.pass Request.check :=
  (OnlyReads.look _).andThen Body.pass_reads.part

/-- Goes through the body of a response. -/
def Response.pass : Pass Response :=
  (look fun response =>
    ensure (100 ≤ response.status && response.status ≤ 599) .invalidStatus "status").andThen <|
  (look fun response => filled response.mimetype "mimetype").andThen <|
  part (·.body) (fun response body => { response with body }) Body.pass

theorem Response.pass_reads : OnlyReads Response.pass Response.check :=
  (OnlyReads.look _).andThen <| (OnlyReads.look _).andThen Body.pass_reads.part

/-! ### Endpoints -/

/-- Goes through the parts of an endpoint. -/
def Endpoint.pass : Pass Endpoint :=
  (look fun e => filled e.path "path").andThen <|
  (look fun e => ensure (e.path.toList.head? == some '/') .invalidFormat "path").andThen <|
  (look fun e => Check.each (filled · "") "tags" e.tags).andThen <|
  (part (·.headers) (fun e headers => { e with headers })
    (each (look Header.check) "headers")).andThen <|
  (part (·.params) (fun e params => { e with params }) (each Param.pass "params")).andThen <|
  (part (·.queries) (fun e queries => { e with queries }) (each Param.pass "queries")).andThen <|
  (part (·.request) (fun e request => { e with request })
    (optional Request.pass "request")).andThen <|
  part (·.responses) (fun e responses => { e with responses }) (each Response.pass "responses")

theorem Endpoint.pass_reads : OnlyReads Endpoint.pass Endpoint.check :=
  (OnlyReads.look _).andThen <|
  (OnlyReads.look _).andThen <|
  (OnlyReads.look _).andThen <|
  ((OnlyReads.look _).each "headers").part.andThen <|
  (Param.pass_reads.each "params").part.andThen <|
  (Param.pass_reads.each "queries").part.andThen <|
  (Request.pass_reads.optional "request").part.andThen <|
  (Response.pass_reads.each "responses").part

/-- Goes through an endpoint, and looks whether its slot is free. -/
def Endpoint.passAmong (before : List Endpoint) : Pass Endpoint := fun e =>
  (Endpoint.pass.blaming (e.blame before.length)).andThen
    (look fun left =>
      (ensure (!before.any (·.sameSlot left)) .duplicate "path").mapError
        (e.blame before.length)) e

/-- Goes through endpoints one after another, each against what was left of those before it. -/
def ApiDoc.passEndpoints (before : List Endpoint) : Pass (List Endpoint)
  | [] => ([], .ok ())
  | e :: rest =>
    onward (e.passAmong before) rest
      (ApiDoc.passEndpoints (before ++ [(e.passAmong before).1]) rest)

theorem ApiDoc.passEndpoints_reads (before : List Endpoint) :
    OnlyReads (ApiDoc.passEndpoints before) (ApiDoc.checkEndpoints before) := by
  intro endpoints
  induction endpoints generalizing before with
  | nil => rfl
  | cons e rest ih =>
      have hpass : e.passAmong before = (e, do
          e.check.mapError (e.blame before.length)
          (ensure (!before.any (·.sameSlot e)) .duplicate "path").mapError
            (e.blame before.length)) :=
        (Endpoint.pass_reads.blaming _).andThen (OnlyReads.look _) e
      -- an endpoint is left as it was, so those behind it are held against the same ones
      rw [ApiDoc.passEndpoints, hpass, ih, OnlyReads.onward_reads, ApiDoc.checkEndpoints,
        bind_assoc]

/-! ### Documents -/

namespace ApiDoc

/-- Goes through the parts of a document behind the version. -/
def passParts : Pass ApiDoc :=
  (part (·.servers) (fun doc servers => { doc with servers })
    (each (look Server.check) "servers")).andThen <|
  (part (·.license) (fun doc license => { doc with license })
    (optional (look License.check) "license")).andThen <|
  (part (·.externalDocs) (fun doc externalDocs => { doc with externalDocs })
    (optional (look ExternalDocs.check) "externalDocs")).andThen <|
  (part (·.groups) (fun doc groups => { doc with groups })
    (each (look Group.check) "tags")).andThen <|
  (part (·.responses) (fun doc responses => { doc with responses })
    (each Response.pass "responses")).andThen <|
  (look fun doc => noClash (fun a b => a.status == b.status && a != b)
    (fun i => (Fault.of .duplicate "status").withinIndex "responses" i) [] doc.responses).andThen <|
  (look fun doc => ensure (!doc.endpoints.isEmpty) .missingField "paths").andThen <|
  part (·.endpoints) (fun doc endpoints => { doc with endpoints }) (passEndpoints [])

theorem passParts_reads : OnlyReads passParts checkParts :=
  ((OnlyReads.look _).each "servers").part.andThen <|
  ((OnlyReads.look _).optional "license").part.andThen <|
  ((OnlyReads.look _).optional "externalDocs").part.andThen <|
  ((OnlyReads.look _).each "tags").part.andThen <|
  (Response.pass_reads.each "responses").part.andThen <|
  (OnlyReads.look _).andThen <|
  (OnlyReads.look _).andThen <|
  (passEndpoints_reads []).part

/-- Fills in what may be missing and goes through the rest, in place. -/
def pass : Pass ApiDoc :=
  (look fun doc => filled doc.title "title").andThen <|
  (write fillVersion).andThen <|
  (look fun doc => ensure (Version.isValid doc.version) .invalidFormat "version").andThen <|
  (write fillServers).andThen passParts

/-- The pass in place leaves what the checks of a document are followed by, and has their
outcome. -/
theorem pass_eq_sanitize (doc : ApiDoc) : doc.pass = doc.sanitize := by
  simp only [pass, Pass.andThen, look, write, sanitize, passParts_reads doc.fillVersion.fillServers]
  cases filled doc.title "title" with
  | error fault => rfl
  | ok u =>
      dsimp only
      cases ensure (Version.isValid doc.fillVersion.version) .invalidFormat "version" <;> rfl

/-- The title and the version of a document are right; without a version it is given one that
is. -/
structure HeadWellFormed (doc : ApiDoc) : Prop where
  title : Filled doc.title
  version : doc.version = "" ∨ Version.isValid doc.version = true

/-- What completing a document does to it. -/
structure FillsDefaults (before after : ApiDoc) : Prop where
  /-- Nothing but the version and the servers is touched. -/
  rest : after = { before with version := after.version, servers := after.servers }
  /-- A missing version is filled in once the title has passed. -/
  version : Defaulted (Filled before.title) "" defaultVersion before.version after.version
  /-- Missing servers are filled in once the title and the version have passed. -/
  servers : Defaulted before.HeadWellFormed [] [{ url := "/" }] before.servers after.servers

theorem defaulted_fillVersion (doc : ApiDoc) {reached : Prop} (h : reached) :
    Defaulted reached "" defaultVersion doc.version doc.fillVersion.version := by
  have hversion : doc.fillVersion.version =
      if doc.version.isEmpty then defaultVersion else doc.version := apply_ite ApiDoc.version _ _ _
  rw [hversion]
  exact .ite h String.isEmpty_iff

theorem defaulted_fillServers (doc : ApiDoc) {reached : Prop} (h : reached) :
    Defaulted reached [] [{ url := "/" }] doc.servers doc.fillServers.servers := by
  have hservers : doc.fillServers.servers =
      if doc.servers.isEmpty then [{ url := "/" }] else doc.servers :=
    apply_ite ApiDoc.servers _ _ _
  rw [hservers]
  exact .ite h List.isEmpty_iff

theorem fillVersion_eq (doc : ApiDoc) :
    doc.fillVersion = { doc with version := doc.fillVersion.version } := by
  unfold fillVersion
  split <;> rfl

/-- How far the checks of a document get, and what they leave. -/
theorem sanitize_fst_cases (doc : ApiDoc) :
    (¬Filled doc.title ∧ doc.sanitize.1 = doc) ∨
    (Filled doc.title ∧ ¬doc.HeadWellFormed ∧ doc.sanitize.1 = doc.fillVersion) ∨
    (doc.HeadWellFormed ∧ doc.sanitize.1 = doc.fillVersion.fillServers) := by
  unfold sanitize
  cases htitle : filled doc.title "title" with
  | error fault =>
      have hnot : filled doc.title "title" ≠ .ok () := by simp [htitle]
      exact .inl ⟨fun h => hnot (filled_eq_ok.mpr h), rfl⟩
  | ok u =>
      have hfilled : Filled doc.title := filled_eq_ok.mp htitle
      dsimp only
      cases hversion :
          ensure (Version.isValid doc.fillVersion.version) .invalidFormat "version" with
      | error fault =>
          have hnot : ensure (Version.isValid doc.fillVersion.version) .invalidFormat "version" ≠
              .ok () := by simp [hversion]
          exact .inr (.inl ⟨hfilled,
            fun h => hnot (ensure_eq_ok.mpr (isValid_fillVersion.mpr h.version)), rfl⟩)
      | ok u =>
          exact .inr (.inr ⟨⟨hfilled, isValid_fillVersion.mp (ensure_eq_ok.mp hversion)⟩, rfl⟩)

/-- Whatever stops the checks, they have filled in the defaults that they got to, and changed
nothing else. -/
theorem fillsDefaults_sanitize (doc : ApiDoc) : FillsDefaults doc doc.sanitize.1 := by
  rcases sanitize_fst_cases doc with ⟨htitle, hleft⟩ | ⟨htitle, hhead, hleft⟩ | ⟨hhead, hleft⟩
  · rw [hleft]
    exact ⟨rfl, .of_not_reached htitle, .of_not_reached fun h => htitle h.title⟩
  · have hservers : doc.fillVersion.servers = doc.servers := by rw [fillVersion_eq]
    rw [hleft]
    refine ⟨?_, defaulted_fillVersion doc htitle, ?_⟩
    · rw [hservers]
      exact fillVersion_eq doc
    · rw [hservers]
      exact .of_not_reached hhead
  · rw [hleft, fillServers_fillVersion]
    exact ⟨rfl, defaulted_fillVersion doc hhead.title, defaulted_fillServers doc hhead⟩

namespace FillsDefaults

variable {doc after : ApiDoc}

/-- A document that misses neither its version nor its servers stays as it is. -/
theorem eq_self (h : FillsDefaults doc after) (hversion : doc.version ≠ "")
    (hservers : doc.servers ≠ []) : after = doc := by
  rw [h.rest, h.version.kept fun hboth => hversion hboth.2,
    h.servers.kept fun hboth => hservers hboth.2]

/-- The defaults are well-formed themselves. -/
theorem wellFormed (h : FillsDefaults doc after) (hdoc : doc.WellFormed) : after.WellFormed := by
  rw [h.rest]
  refine { hdoc with version := ?_, servers := ?_ }
  · rcases h.version.eq_default_or_eq with hversion | hversion
    · rw [hversion]
      exact .inr (by decide +kernel)
    · rw [hversion]
      exact hdoc.version
  · rcases h.servers.eq_default_or_eq with hservers | hservers
    · rw [hservers, List.forall_mem_singleton]
      exact ⟨show Text.isBlankText "/" = false by decide, by decide +kernel⟩
    · rw [hservers]
      exact hdoc.servers

end FillsDefaults

/-- Behind checks that passed nothing is missing any more. -/
theorem sanitize_sanitize {doc : ApiDoc} (h : doc.sanitize.2 = .ok ()) :
    doc.sanitize.1.sanitize = (doc.sanitize.1, .ok ()) := by
  have hdoc : doc.WellFormed := sanitize_eq_ok.mp h
  have hfills := fillsDefaults_sanitize doc
  have hversion := hfills.version.ne_missing hdoc.title (by decide)
  have hservers := hfills.servers.ne_missing ⟨hdoc.title, hdoc.version⟩ (by decide)
  have hleft := (fillsDefaults_sanitize doc.sanitize.1).eq_self hversion hservers
  have houtcome := sanitize_eq_ok.mpr (hfills.wellFormed hdoc)
  exact Prod.ext hleft houtcome

/-- **Completing a document fills in its version and its servers, and changes nothing else,
whatever the outcome; once it has gone well, doing it again changes nothing.** -/
theorem pass_fillsDefaults (doc : ApiDoc) :
    doc.pass = doc.sanitize ∧ FillsDefaults doc doc.pass.1 ∧
      (doc.pass.2 = .ok () → doc.pass.1.pass = (doc.pass.1, .ok ())) := by
  simp only [pass_eq_sanitize]
  exact ⟨trivial, fillsDefaults_sanitize doc, sanitize_sanitize⟩

/-- A document that names neither a version nor a server; its response has members at two
levels. -/
def unversionedPets : ApiDoc where
  title := "Pets"
  endpoints := [{
    method := .get
    path := "/pets/:id"
    params := [⟨"id", .leaf .number "", false, ""⟩]
    responses := [{
      status := 200
      mimetype := "*"
      body := {
        headers := [{ name := "ETag" }]
        type := some (.array (some (.object
          [("owner", ⟨"owner", .object [("name", ⟨"name", .leaf .string "", true, ""⟩)] "",
            false, ""⟩)] "")) "") } }] }]

theorem pass_unversionedPets : unversionedPets.pass.2 = .ok () ∧
    unversionedPets.pass.1 =
      { unversionedPets with version := "1.0.0", servers := [{ url := "/" }] } ∧
    unversionedPets.pass.1.pass = (unversionedPets.pass.1, .ok ()) := by
  obtain ⟨heq, hfills, hagain⟩ := pass_fillsDefaults unversionedPets
  have hok : unversionedPets.pass.2 = .ok () := by
    rw [heq]
    decide +kernel
  have htitle : Filled unversionedPets.title := show Text.isBlankText "Pets" = false by decide
  refine ⟨hok, ?_, hagain hok⟩
  rw [hfills.rest, hfills.version.filled htitle rfl, hfills.servers.filled ⟨htitle, .inl rfl⟩ rfl]
  rfl

end ApiDoc

end ApiNotes
