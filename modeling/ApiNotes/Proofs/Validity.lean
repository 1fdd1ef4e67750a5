/-
What a document that passed its checks promises.

`ApiDoc.sanitize` is a row of checks with two defaults filled in on the way.  `Valid` is
what they amount to, as one statement about the document that comes out: every field
that has to be filled is, every link and version is one, no two endpoints answer the
same method on the same template.  Whatever is proved of exported documents starts from
it and never looks at the checks again.
-/
import ApiNotes.Model.Check
import ApiNotes.Proofs.TypeImages

namespace ApiNotes

open Check

/-! ### Distinct members

Members stand in tables, and a table has one entry for each name.  That is how types are
built, not something that a check looks at.
-/

/-- The members of the type of a body have distinct names, at every depth. -/
def Body.Keyed (body : Body) : Prop := ∀ t, body.type = some t → t.Keyed

/-- So have those of all types that requests and responses carry. -/
structure ApiDoc.Keyed (doc : ApiDoc) : Prop where
  common : ∀ r ∈ doc.responses, r.body.Keyed
  responses : ∀ e ∈ doc.endpoints, ∀ r ∈ e.responses, r.body.Keyed
  requests : ∀ e ∈ doc.endpoints, ∀ r, e.request = some r → r.body.Keyed

/-! ### Bodies -/

/-- A body is right: its headers have distinct names that are filled, and its examples have a
mimetype. -/
structure Body.Valid (body : Body) : Prop where
  headers : ∀ h ∈ body.headers, Text.isBlankText h.name = false
  distinct : (body.headers.map (·.name)).Nodup
  examples : ∀ e ∈ body.examples, Text.isBlankText e.mimetype = false
  type : ∀ t, body.type = some t → t.check = .ok ()

theorem Body.check_eq_ok {body : Body} : body.check = .ok () ↔ body.Valid := by
  have hdistinct : (noClash (fun a b : Header => a.name == b.name)
      (fun i => (Fault.of .duplicate "name").withinIndex "headers" i) [] body.headers = .ok ()) ↔
      (body.headers.map (·.name)).Nodup := by
    rw [noClash_eq_ok, List.Nodup, List.pairwise_map]
    simp
  rw [Body.check, check_bind_eq_ok, check_bind_eq_ok, check_bind_eq_ok, each_eq_ok, hdistinct,
    each_eq_ok, optional_eq_ok]
  simp only [Header.check, Example.check, filled_eq_ok]
  exact ⟨fun h => ⟨h.1, h.2.1, h.2.2.1, h.2.2.2⟩,
    fun h => ⟨h.headers, h.distinct, h.examples, h.type⟩⟩

theorem Request.check_eq_ok {request : Request} :
    request.check = .ok () ↔ Text.isBlankText request.mimetype = false ∧ request.body.Valid := by
  rw [Request.check, check_bind_eq_ok, filled_eq_ok, Body.check_eq_ok]

theorem Response.check_eq_ok {response : Response} :
    response.check = .ok () ↔ (100 ≤ response.status ∧ response.status ≤ 599) ∧
      Text.isBlankText response.mimetype = false ∧ response.body.Valid := by
  rw [Response.check, check_bind_eq_ok, check_bind_eq_ok, ensure_eq_ok, filled_eq_ok,
    Body.check_eq_ok, Bool.and_eq_true, decide_eq_true_eq, decide_eq_true_eq]

/-- What the checks and the tables promise of a response: its headers have distinct names, and its
type is keyed. -/
structure Response.Regular (r : Response) : Prop where
  headers : (r.body.headers.map (·.name)).Nodup
  keyed : r.body.Keyed

theorem Response.regular_of_check {r : Response} (h : r.check = .ok ()) (hkeyed : r.body.Keyed) :
    r.Regular := ⟨(Response.check_eq_ok.mp h).2.2.distinct, hkeyed⟩

theorem Param.check_eq_ok {p : Param} :
    p.check = .ok () ↔ Text.isBlankText p.name = false ∧ p.type.check = .ok () := by
  obtain ⟨name, type, optional, description⟩ := p
  rw [Param.check, check_bind_eq_ok, filled_eq_ok, mapError_eq_ok]

/-! ### Endpoints -/

/-- An endpoint is right. -/
structure Endpoint.Valid (e : Endpoint) : Prop where
  path : e.path.toList.head? = some '/'
  tags : ∀ t ∈ e.tags, Text.isBlankText t = false
  headers : ∀ h ∈ e.headers, Text.isBlankText h.name = false
  params : ∀ p ∈ e.params, p.check = .ok ()
  queries : ∀ q ∈ e.queries, q.check = .ok ()
  request : ∀ r, e.request = some r → r.check = .ok ()
  responses : ∀ r ∈ e.responses, r.check = .ok ()

theorem Endpoint.valid_of_check {e : Endpoint} (h : e.check = .ok ()) : e.Valid := by
  simp only [Endpoint.check, check_bind_eq_ok, each_eq_ok, optional_eq_ok, ensure_eq_ok,
    Header.check, filled_eq_ok, beq_iff_eq] at h
  obtain ⟨-, hpath, htags, hheaders, hparams, hqueries, hrequest, hresponses⟩ := h
  exact ⟨hpath, htags, hheaders, hparams, hqueries, hrequest, hresponses⟩

theorem ApiDoc.checkEndpoints_eq_ok {endpoints : List Endpoint} :
    ∀ before, ApiDoc.checkEndpoints before endpoints = .ok () ↔
      (∀ e ∈ endpoints, e.check = .ok () ∧ ∀ b ∈ before, b.sameSlot e = false) ∧
        endpoints.Pairwise fun a b => a.sameSlot b = false := by
  induction endpoints with
  | nil => intro before; simp [ApiDoc.checkEndpoints]
  | cons e rest ih =>
      intro before
      rw [ApiDoc.checkEndpoints, check_bind_eq_ok, check_bind_eq_ok, mapError_eq_ok,
        mapError_eq_ok, ensure_eq_ok, ih, List.forall_mem_cons, List.pairwise_cons]
      have hfree : (!before.any fun b => b.sameSlot e) = true ↔
          ∀ b ∈ before, b.sameSlot e = false := by
        simp
      rw [hfree]
      constructor
      · rintro ⟨hcheck, hslots, hrest, hpair⟩
        refine ⟨⟨⟨hcheck, hslots⟩, fun x hx => ⟨(hrest x hx).1, fun b hb => ?_⟩⟩, ?_, hpair⟩
        · exact (hrest x hx).2 b (List.mem_append_left _ hb)
        · exact fun x hx => (hrest x hx).2 e (by simp)
      · rintro ⟨⟨⟨hcheck, hslots⟩, hrest⟩, hfirst, hpair⟩
        refine ⟨hcheck, hslots, fun x hx => ⟨(hrest x hx).1, fun b hb => ?_⟩, hpair⟩
        rcases List.mem_append.mp hb with hb | hb
        · exact (hrest x hx).2 b hb
        · rw [List.mem_singleton.mp hb]
          exact hfirst x hx

/-! ### Documents -/

/-- A document is right and its defaults are filled in. -/
structure ApiDoc.Valid (doc : ApiDoc) : Prop where
  title : Text.isBlankText doc.title = false
  version : Version.isValid doc.version = true
  servers : doc.servers ≠ []
  serverLinks : ∀ s ∈ doc.servers, Url.isLink s.url = true
  license : ∀ l, doc.license = some l →
    Text.isBlankText l.name = false ∧ (l.url.isEmpty = true ∨ Url.isLink l.url = true)
  externalDocs : ∀ d, doc.externalDocs = some d → Url.isLink d.url = true
  groups : ∀ g ∈ doc.groups, Text.isBlankText g.name = false
  responses : ∀ r ∈ doc.responses, r.check = .ok ()
  /-- Shared responses of one status are the same. -/
  agree : doc.responses.Pairwise fun a b => a.status = b.status → (a == b) = true
  endpoints : doc.endpoints ≠ []
  endpointValid : ∀ e ∈ doc.endpoints, e.Valid
  /-- No two endpoints answer the same method on the same template. -/
  slots : doc.endpoints.Pairwise fun a b => a.sameSlot b = false

theorem ApiDoc.fillServers_ne_nil (doc : ApiDoc) : doc.fillServers.servers ≠ [] := by
  unfold ApiDoc.fillServers
  split
  · simp
  · rename_i h
    simpa using h

@[simp] theorem ApiDoc.fillServers_title (doc : ApiDoc) : doc.fillServers.title = doc.title := by
  unfold ApiDoc.fillServers; split <;> rfl

@[simp] theorem ApiDoc.fillServers_version (doc : ApiDoc) :
    doc.fillServers.version = doc.version := by
  unfold ApiDoc.fillServers; split <;> rfl

@[simp] theorem ApiDoc.fillVersion_title (doc : ApiDoc) : doc.fillVersion.title = doc.title := by
  unfold ApiDoc.fillVersion; split <;> rfl

/-- A document comes out of its checks exactly when they all pass on it. -/
theorem ApiDoc.sanitized_eq_ok {raw doc : ApiDoc} :
    raw.sanitized = .ok doc ↔ Text.isBlankText raw.title = false ∧
      Version.isValid raw.fillVersion.version = true ∧
      raw.fillVersion.fillServers.checkParts = .ok () ∧ raw.fillVersion.fillServers = doc := by
  have htitle : (filled raw.title "title" = .ok ()) ↔ Text.isBlankText raw.title = false :=
    filled_eq_ok
  have hversion : (ensure (Version.isValid raw.fillVersion.version) .invalidFormat "version" =
      .ok ()) ↔ Version.isValid raw.fillVersion.version = true := ensure_eq_ok
  rw [← htitle, ← hversion]
  unfold ApiDoc.sanitized ApiDoc.sanitize
  cases filled raw.title "title" with
  | error fault => simp [map_eq_ok]
  | ok u =>
      simp only
      cases ensure (Version.isValid raw.fillVersion.version) .invalidFormat "version" with
      | error fault => simp [map_eq_ok]
      | ok u =>
          cases raw.fillVersion.fillServers.checkParts with
          | error fault => simp [map_eq_ok]
          | ok u => simp [map_eq_ok]

/-- **A document that comes out of its checks is valid.** -/
theorem ApiDoc.valid_of_sanitized {raw doc : ApiDoc} (h : raw.sanitized = .ok doc) : doc.Valid := by
  obtain ⟨htitle, hversion, hparts, rfl⟩ := sanitized_eq_ok.mp h
  have hservers := raw.fillVersion.fillServers_ne_nil
  simp only [ApiDoc.checkParts, check_bind_eq_ok, each_eq_ok, optional_eq_ok, ensure_eq_ok,
    noClash_eq_ok, checkEndpoints_eq_ok, Server.check, License.check, ExternalDocs.check,
    Group.check, filled_eq_ok, Bool.or_eq_true] at hparts
  obtain ⟨hlinks, hlicense, hdocs, hgroups, hresponses, ⟨-, hagree⟩, hendpoints, hchecks, hslots⟩ :=
    hparts
  refine ⟨by simpa using htitle, by simpa using hversion, hservers, fun s hs => (hlinks s hs).2,
    hlicense, hdocs, hgroups, hresponses, ?_, by simpa using hendpoints,
    fun e he => Endpoint.valid_of_check (hchecks e he).1, hslots⟩
  refine hagree.imp fun {a b} hab hstatus => ?_
  simpa [hstatus, bne] using hab

theorem ApiDoc.Valid.regular_common {doc : ApiDoc} (h : doc.Valid) (hkeyed : doc.Keyed) :
    ∀ r ∈ doc.responses, r.Regular := fun r hr =>
  Response.regular_of_check (h.responses r hr) (hkeyed.common r hr)

theorem ApiDoc.Valid.regular_responses {doc : ApiDoc} (h : doc.Valid) (hkeyed : doc.Keyed) :
    ∀ e ∈ doc.endpoints, ∀ r ∈ e.responses, r.Regular := fun e he r hr =>
  Response.regular_of_check ((h.endpointValid e he).responses r hr) (hkeyed.responses e he r hr)

end ApiNotes
