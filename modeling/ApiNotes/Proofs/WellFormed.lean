/-
When a document is well-formed.

The checks of a document are programs: each goes through its value in some order and stops
at the first fault.  `ApiDoc.WellFormed` says what they look for without saying how, as
statements about all servers, all members of all types and so on, and each check passes
exactly on the values that are well-formed.  It is said of a document as it was written,
before its version and servers are filled in.
-/
import ApiNotes.Proofs.Validity

namespace ApiNotes

open Check

/-- A text with a character in it that is not blank. -/
def Filled (s : String) : Prop := Text.isBlankText s = false

/-! ### Types and parameters -/

/-- A type holds a parameter under a key: as a member of its own, or further down, in the type of
a member or of the elements of an array. -/
inductive DataType.Holds : DataType → String → Param → Prop
  | member {members : List (String × Param)} {text key : String} {p : Param}
      (h : (key, p) ∈ members) : Holds (.object members text) key p
  | inner {members : List (String × Param)} {text key key' : String} {p p' : Param}
      (h : (key, p) ∈ members) (hinner : Holds p.type key' p') :
      Holds (.object members text) key' p'
  | items {items : DataType} {text key : String} {p : Param} (h : Holds items key p) :
      Holds (.array (some items) text) key p

/-- The members of a type have a key and a name, at every depth. -/
def DataType.WellFormed (t : DataType) : Prop := ∀ key p, t.Holds key p → Filled key ∧ Filled p.name

/-- A parameter has a name, and so have the members of its type. -/
structure Param.WellFormed (p : Param) : Prop where
  name : Filled p.name
  type : p.type.WellFormed

theorem DataType.wellFormed_array {items : DataType} {text : String} :
    (DataType.array (some items) text).WellFormed ↔ items.WellFormed := by
  constructor
  · exact fun h key p hp => h key p (.items hp)
  · rintro h key p (_ | _ | hp)
    exact h key p hp

theorem DataType.wellFormed_object {members : List (String × Param)} {text : String} :
    (DataType.object members text).WellFormed ↔
      ∀ m ∈ members, Filled m.1 ∧ m.2.WellFormed := by
  constructor
  · rintro h ⟨key, p⟩ hm
    obtain ⟨hkey, hname⟩ := h key p (.member hm)
    exact ⟨hkey, hname, fun key' p' hp' => h key' p' (.inner hm hp')⟩
  · rintro h key p (hm | ⟨hm, hp⟩)
    · exact ⟨(h _ hm).1, (h _ hm).2.name⟩
    · exact (h _ hm).2.type key p hp

theorem DataType.checkMembers_eq_ok {members : List (String × Param)} :
    DataType.checkMembers members = .ok () ↔
      ∀ m ∈ members, Filled m.1 ∧ m.2.check = .ok () := by
  induction members with
  | nil => simp [DataType.checkMembers]
  | cons m rest ih =>
      rw [DataType.checkMembers, check_bind_eq_ok, check_bind_eq_ok, mapError_eq_ok,
        mapError_eq_ok, filled_eq_ok, ih, List.forall_mem_cons, and_assoc]
      rfl

theorem DataType.check_eq_ok (t : DataType) : t.check = .ok () ↔ t.WellFormed := by
  induction t using DataType.induct with
  | leaf kind text =>
      exact iff_of_true rfl fun key p hp => nomatch hp
  | bare text =>
      exact iff_of_true rfl fun key p hp => nomatch hp
  | array items text ih =>
      rw [DataType.wellFormed_array, ← ih]
      exact Iff.rfl
  | object members text ih =>
      rw [DataType.wellFormed_object]
      refine DataType.checkMembers_eq_ok.trans ?_
      refine forall₂_congr fun m hm => and_congr_right fun _ => ?_
      rw [Param.check_eq_ok, ih m hm]
      exact ⟨fun h => ⟨h.1, h.2⟩, fun h => ⟨h.name, h.type⟩⟩

theorem Param.check_iff {p : Param} : p.check = .ok () ↔ p.WellFormed := by
  rw [Param.check_eq_ok, DataType.check_eq_ok]
  exact ⟨fun h => ⟨h.1, h.2⟩, fun h => ⟨h.name, h.type⟩⟩

/-! ### Bodies -/

/-- The headers of a body have distinct names, its examples have a mimetype, and its type is
well-formed. -/
structure Body.WellFormed (body : Body) : Prop where
  headers : ∀ h ∈ body.headers, Filled h.name
  distinct : (body.headers.map (·.name)).Nodup
  examples : ∀ e ∈ body.examples, Filled e.mimetype
  type : ∀ t, body.type = some t → t.WellFormed

/-- A request has a mimetype and a well-formed body. -/
structure Request.WellFormed (r : Request) : Prop where
  mimetype : Filled r.mimetype
  body : r.body.WellFormed

/-- A response has a status of HTTP, a mimetype and a well-formed body. -/
structure Response.WellFormed (r : Response) : Prop where
  status : 100 ≤ r.status ∧ r.status ≤ 599
  mimetype : Filled r.mimetype
  body : r.body.WellFormed

theorem Body.valid_iff {body : Body} : body.Valid ↔ body.WellFormed := by
  constructor
  · exact fun h => ⟨h.headers, h.distinct, h.examples,
      fun t ht => (DataType.check_eq_ok t).mp (h.type t ht)⟩
  · exact fun h => ⟨h.headers, h.distinct, h.examples,
      fun t ht => (DataType.check_eq_ok t).mpr (h.type t ht)⟩

theorem Request.check_iff {r : Request} : r.check = .ok () ↔ r.WellFormed := by
  rw [Request.check_eq_ok, Body.valid_iff]
  exact ⟨fun h => ⟨h.1, h.2⟩, fun h => ⟨h.mimetype, h.body⟩⟩

theorem Response.check_iff {r : Response} : r.check = .ok () ↔ r.WellFormed := by
  rw [Response.check_eq_ok, Body.valid_iff]
  exact ⟨fun h => ⟨h.1, h.2.1, h.2.2⟩, fun h => ⟨h.status, h.mimetype, h.body⟩⟩

/-! ### Endpoints -/

/-- An endpoint has an absolute path, and its parts are well-formed. -/
structure Endpoint.WellFormed (e : Endpoint) : Prop where
  path : e.path.toList.head? = some '/'
  tags : ∀ t ∈ e.tags, Filled t
  headers : ∀ h ∈ e.headers, Filled h.name
  params : ∀ p ∈ e.params, p.WellFormed
  queries : ∀ q ∈ e.queries, q.WellFormed
  request : ∀ r, e.request = some r → r.WellFormed
  responses : ∀ r ∈ e.responses, r.WellFormed

theorem Endpoint.check_iff {e : Endpoint} : e.check = .ok () ↔ e.WellFormed := by
  simp only [Endpoint.check, check_bind_eq_ok, each_eq_ok, optional_eq_ok, ensure_eq_ok,
    Header.check, filled_eq_ok, beq_iff_eq, Param.check_iff, Request.check_iff, Response.check_iff]
  constructor
  · rintro ⟨-, hpath, htags, hheaders, hparams, hqueries, hrequest, hresponses⟩
    exact ⟨hpath, htags, hheaders, hparams, hqueries, hrequest, hresponses⟩
  · exact fun h => ⟨Text.isBlankText_of_head h.path (by decide), h.path, h.tags, h.headers, h.params,
      h.queries, h.request, h.responses⟩

/-! ### Documents -/

/-- A document is well-formed. -/
structure ApiDoc.WellFormed (doc : ApiDoc) : Prop where
  title : Filled doc.title
  version : doc.version = "" ∨ Version.isValid doc.version = true
  servers : ∀ s ∈ doc.servers, Filled s.url ∧ Url.isLink s.url = true
  license : ∀ l, doc.license = some l → Filled l.name ∧ (l.url = "" ∨ Url.isLink l.url = true)
  externalDocs : ∀ d, doc.externalDocs = some d → Url.isLink d.url = true
  groups : ∀ g ∈ doc.groups, Filled g.name
  responses : ∀ r ∈ doc.responses, r.WellFormed
  /-- Shared responses of one status are the same. -/
  agree : doc.responses.Pairwise fun a b => a.status = b.status → (a == b) = true
  nonempty : doc.endpoints ≠ []
  endpoints : ∀ e ∈ doc.endpoints, e.WellFormed
  /-- No two endpoints answer the same method on the same template. -/
  slots : doc.endpoints.Pairwise fun a b =>
    ¬(a.method = b.method ∧ Route.template a.path = Route.template b.path)

namespace ApiDoc

/-- The checks of a document, in a row. -/
theorem sanitize_snd (doc : ApiDoc) : doc.sanitize.2 = (do
    filled doc.title "title"
    ensure (Version.isValid doc.fillVersion.version) .invalidFormat "version"
    doc.fillVersion.fillServers.checkParts) := by
  unfold sanitize
  cases filled doc.title "title" with
  | error fault => rfl
  | ok u =>
      simp only
      cases ensure (Version.isValid doc.fillVersion.version) .invalidFormat "version" <;> rfl

/-- Nothing but the version and the servers is filled in. -/
theorem fillServers_fillVersion (doc : ApiDoc) : doc.fillVersion.fillServers =
    { doc with version := doc.fillVersion.version, servers := doc.fillServers.servers } := by
  unfold fillVersion fillServers
  split <;> split <;> simp_all

/-- The version that is filled in is one. -/
theorem isValid_fillVersion {doc : ApiDoc} : Version.isValid doc.fillVersion.version = true ↔
    doc.version = "" ∨ Version.isValid doc.version = true := by
  unfold fillVersion
  split
  · rename_i hempty
    exact iff_of_true (show Version.isValid defaultVersion = true by decide +kernel)
      (.inl (String.isEmpty_iff.mp hempty))
  · rename_i hempty
    rw [String.isEmpty_iff] at hempty
    simp [hempty]

/-- The server that is filled in passes. -/
theorem each_fillServers (doc : ApiDoc) :
    each Server.check "servers" doc.fillServers.servers =
      each Server.check "servers" doc.servers := by
  unfold fillServers
  split
  · rename_i hempty
    rw [List.isEmpty_iff.mp hempty]
    show each Server.check "servers" [{ url := "/" }] = _
    decide +kernel
  · rfl

/-- **The checks of a document pass exactly on the well-formed ones.** -/
theorem sanitize_eq_ok {doc : ApiDoc} : doc.sanitize.2 = .ok () ↔ doc.WellFormed := by
  have hagree : (noClash (fun a b : Response => a.status == b.status && a != b)
      (fun i => (Fault.of .duplicate "status").withinIndex "responses" i) [] doc.responses =
        .ok ()) ↔ doc.responses.Pairwise fun a b => a.status = b.status → (a == b) = true := by
    rw [noClash_eq_ok]
    simp [bne]
  have hslots : (∀ e ∈ doc.endpoints, e.check = .ok () ∧
      ∀ b ∈ ([] : List Endpoint), b.sameSlot e = false) ∧
      (doc.endpoints.Pairwise fun a b => a.sameSlot b = false) ↔
        (∀ e ∈ doc.endpoints, e.WellFormed) ∧ doc.endpoints.Pairwise fun a b =>
          ¬(a.method = b.method ∧ Route.template a.path = Route.template b.path) := by
    simp [Endpoint.check_iff, Endpoint.sameSlot]
  rw [sanitize_snd, fillServers_fillVersion]
  simp only [checkParts, each_fillServers, check_bind_eq_ok, filled_eq_ok, ensure_eq_ok,
    each_eq_ok, optional_eq_ok, isValid_fillVersion, hagree, checkEndpoints_eq_ok, hslots,
    Response.check_iff]
  simp only [Server.check, License.check, ExternalDocs.check, Group.check, check_bind_eq_ok,
    filled_eq_ok, ensure_eq_ok, Bool.or_eq_true, String.isEmpty_iff, Bool.not_eq_true',
    List.isEmpty_eq_false_iff]
  constructor
  · rintro ⟨htitle, hversion, hservers, hlicense, hdocs, hgroups, hresponses, hagree, hne,
      hendpoints, hslots⟩
    exact ⟨htitle, hversion, hservers, hlicense, hdocs, hgroups, hresponses, hagree, hne,
      hendpoints, hslots⟩
  · exact fun h => ⟨h.title, h.version, h.servers, h.license, h.externalDocs, h.groups,
      h.responses, h.agree, h.nonempty, h.endpoints, h.slots⟩

end ApiDoc

end ApiNotes
