/-
The draft of a whole document.

A document is drafted in one pass over its shared responses and one over its endpoints,
and only then finished.  `Drafted` is what the two passes leave behind, and
`draft_isOk_iff` says when both go through; how the draft is finished is another matter.
-/
import ApiNotes.Proofs.Endpoints
import ApiNotes.Proofs.Linking

namespace ApiNotes.OpenApi

/-! ### The operation of an endpoint -/

/-- The responses of an operation: those of its table, each with a description. -/
def itemsOf (table : Dict Response) : Dict (Referable Response) :=
  table.map fun e => (e.1, .item (e.2.fillDescription e.1))

theorem keys_itemsOf (table : Dict Response) : Dict.keys (itemsOf table) = Dict.keys table := by
  simp [itemsOf, Dict.keys, Function.comp_def]

theorem get?_itemsOf (table : Dict Response) (k : String) :
    Dict.get? (itemsOf table) k =
      (Dict.get? table k).map fun r => .item (r.fillDescription k) :=
  Dict.get?_mapEntries (fun k (r : Response) => Referable.item (r.fillDescription k)) table k

/-- The operation of an endpoint, given its responses by status. -/
def operationWith (e : Endpoint) (table : Dict Response) : Operation :=
  { tags := e.tags
    summary := nonEmpty? e.summary
    description := nonEmpty? e.description
    parameters := parametersOf e
    requestBody := e.request.map RequestBody.ofModel
    responses := itemsOf table }

theorem operation_ofModel_eq_ok {e : Endpoint} {operation : Operation} :
    Operation.ofModel e = .ok operation ↔
      ∃ table, responsesOf e = .ok table ∧ operation = operationWith e table := by
  have hmap : Operation.ofModel e =
      responsesOf e >>= fun table => .ok (operationWith e table) := rfl
  rw [hmap, bind_eq_ok]
  simp only [Except.ok.injEq]
  exact exists_congr fun table => and_congr_right fun _ => eq_comm

/-- An endpoint has an operation exactly when every two of its responses of one status are
compatible. -/
theorem operation_isOk_iff {e : Endpoint} (he : ∀ r ∈ e.responses, r.Regular) :
    (∃ operation, Operation.ofModel e = .ok operation) ↔
      e.responses.Pairwise fun r r' => r.status = r'.status → Response.Compatible r r' := by
  rw [← responsesOf_isOk_iff he]
  simp only [operation_ofModel_eq_ok]
  exact ⟨fun ⟨_, table, h, _⟩ => ⟨table, h⟩, fun ⟨table, h⟩ => ⟨_, table, h, rfl⟩⟩

/-! ### Both passes -/

/-- The draft of a document, before it is finished. -/
def Draft.ofModel (doc : ApiDoc) : Checked Draft := do
  let d ← doc.responses.foldlM Draft.addCommonResponse (Draft.ofHeader doc)
  doc.endpoints.foldlM Draft.addEndpoint d

theorem document_ofModel_eq (doc : ApiDoc) :
    Document.ofModel doc = Draft.ofModel doc >>= Draft.build := by
  unfold Document.ofModel Draft.ofModel
  cases doc.responses.foldlM Draft.addCommonResponse (Draft.ofHeader doc) <;> rfl

/-- What both passes leave behind. -/
structure Drafted (doc : ApiDoc) (d : Draft) : Prop where
  header : d =
    { Draft.ofHeader doc with
      components := { responses := d.components.responses }
      paths := d.paths }
  nodup_shared : (Dict.keys d.components.responses).Nodup
  /-- Under a shared status stands the first response that was declared for it. -/
  get?_shared : ∀ k, Dict.get? d.components.responses k = (firstOf k doc.responses).map exported
  nodup_paths : (Dict.keys d.paths).Nodup
  holds : ∀ e ∈ doc.endpoints, ∃ table, responsesOf e = .ok table ∧
    d.operation? (Route.template e.path) e.method = some (operationWith e table)
  slots : ∀ path m operation, d.operation? path m = some operation →
    ∃ e ∈ doc.endpoints, Route.template e.path = path ∧ e.method = m ∧
      ∃ table, responsesOf e = .ok table ∧ operation = operationWith e table
  paths : ∀ path ∈ Dict.keys d.paths, ∃ e ∈ doc.endpoints, Route.template e.path = path
  count : operationCount d.paths = doc.endpoints.length

section Passes

variable {doc : ApiDoc} (hcommon : ∀ r ∈ doc.responses, r.Regular)

include hcommon

theorem drafted_of_ok {d : Draft} (h : Draft.ofModel doc = .ok d) : Drafted doc d := by
  rw [Draft.ofModel, bind_eq_ok] at h
  obtain ⟨s, hs, hd⟩ := h
  have hshared := addCommonResponses_shared (by rw [ofHeader_eq]) hcommon hs
  have hpaths : s.paths = [] := by
    rw [hshared.frame, ofHeader_eq]
  have hadded := addEndpoints_added hpaths hd
  have hcomponents : d.components = s.components := by rw [hadded.frame]
  refine ⟨?_, ?_, ?_, hadded.nodup, ?_, ?_, hadded.paths, hadded.count⟩
  · conv_lhs => rw [hadded.frame, hshared.frame]
    rw [hcomponents, ofHeader_eq]
  · rw [hcomponents]; exact hshared.nodup
  · rw [hcomponents]; exact hshared.get?
  · intro e he
    obtain ⟨operation, hoperation, hslot⟩ := hadded.holds e he
    obtain ⟨table, htable, rfl⟩ := operation_ofModel_eq_ok.mp hoperation
    exact ⟨table, htable, hslot⟩
  · intro path m operation hslot
    obtain ⟨e, he, hpath, hm, hoperation⟩ := hadded.slots path m operation hslot
    exact ⟨e, he, hpath, hm, operation_ofModel_eq_ok.mp hoperation⟩

/-- A document can be drafted exactly when shared responses of one status are the same when they
are shared, responses of one status can be taken together in each endpoint, and no two endpoints
want one slot. -/
theorem draft_isOk_iff (hresponses : ∀ e ∈ doc.endpoints, ∀ r ∈ e.responses, r.Regular) :
    (∃ d, Draft.ofModel doc = .ok d) ↔
      (doc.responses.Pairwise fun a b =>
        a.status = b.status → (exported a == exported b) = true) ∧
      (∀ e ∈ doc.endpoints, e.responses.Pairwise fun r r' =>
        r.status = r'.status → Response.Compatible r r') ∧
      doc.endpoints.Pairwise fun a b => a.sameSlot b = false := by
  have hstart : (Draft.ofHeader doc).components.responses = [] := by rw [ofHeader_eq]
  have hoperations : (∀ e ∈ doc.endpoints, ∃ operation, Operation.ofModel e = .ok operation) ↔
      ∀ e ∈ doc.endpoints, e.responses.Pairwise fun r r' =>
        r.status = r'.status → Response.Compatible r r' :=
    forall₂_congr fun e he => operation_isOk_iff (hresponses e he)
  have hendpoints : ∀ s, doc.responses.foldlM Draft.addCommonResponse (Draft.ofHeader doc) = .ok s →
      ((∃ d, doc.endpoints.foldlM Draft.addEndpoint s = .ok d) ↔
        (∀ e ∈ doc.endpoints, ∃ operation, Operation.ofModel e = .ok operation) ∧
          doc.endpoints.Pairwise fun a b => a.sameSlot b = false) := by
    intro s hs
    have hshared := addCommonResponses_shared hstart hcommon hs
    exact addEndpoints_isOk_iff (by rw [hshared.frame, ofHeader_eq])
  rw [← addCommonResponses_isOk_iff hstart hcommon, ← hoperations]
  simp only [Draft.ofModel, bind_eq_ok]
  constructor
  · rintro ⟨d, s, hs, hd⟩
    exact ⟨⟨s, hs⟩, (hendpoints s hs).mp ⟨d, hd⟩⟩
  · rintro ⟨⟨s, hs⟩, hrest⟩
    obtain ⟨d, hd⟩ := (hendpoints s hs).mpr hrest
    exact ⟨d, s, hs, hd⟩

end Passes

end ApiNotes.OpenApi
