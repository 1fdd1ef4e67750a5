/-
What can still be missing when a draft is finished.

A draft is checked once more as a document of its own.  Nearly all of these checks repeat
one that its endpoints went through before, in another form: a template starts with a
slash because its path does, a response without a text gets one, the version that a
document names is none that is blank.  Two have no counterpart.  An operation needs a
response, and a request body needs content; nothing else can stop a draft.
-/
import ApiNotes.Proofs.Drafts
import ApiNotes.Proofs.Templates

namespace ApiNotes

open Check

/-! ### Texts that are filled -/

namespace Text

theorem isBlankText_append (a b : String) :
    isBlankText (a ++ b) = (isBlankText a && isBlankText b) := by
  rw [isBlankText, String.toList_append, List.all_append, isBlankText, isBlankText]

end Text

/-- A version is not blank: without a dot it has no three numbers. -/
theorem Version.isBlankText_of_isValid {version : String} (h : isValid version = true) :
    Text.isBlankText version = false := by
  rw [Bool.eq_false_iff]
  intro hblank
  rw [Text.isBlankText, List.all_eq_true] at hblank
  have absent : ∀ c, Text.isBlank c = false → c ∉ version.toList := by
    intro c hc hmem
    rw [hblank c hmem] at hc
    cases hc
  have hbuild : Text.cutAt ['+'] version.toList = none :=
    Text.cutAt_singleton_of_not_mem (absent '+' (by decide))
  have hpre : Text.cutAt ['-'] version.toList = none :=
    Text.cutAt_singleton_of_not_mem (absent '-' (by decide))
  unfold isValid at h
  simp only [hbuild, hpre, List.splitOn_eq_singleton (absent '.' (by decide))] at h
  simp at h

/-- A type without content. -/
def DataType.isNothing : DataType → Bool
  | .leaf .nothing _ => true
  | _ => false

/-- The text on the type of a response is left out or says something; no annotation can give it a
text of blanks. -/
def Response.Described (r : Response) : Prop :=
  ∀ t, r.body.type = some t → t.description = "" ∨ Text.isBlankText t.description = false

/-- So are the texts of all responses of a document. -/
structure ApiDoc.Described (doc : ApiDoc) : Prop where
  common : ∀ r ∈ doc.responses, r.Described
  responses : ∀ e ∈ doc.endpoints, ∀ r ∈ e.responses, r.Described

namespace OpenApi

theorem ofType?_isSome_iff {t : DataType} : (Schema.ofType? t).isSome ↔ t.isNothing = false := by
  cases t with
  | leaf kind text => cases kind <;> simp [Schema.ofType?, Schema.ofLeaf?, DataType.isNothing]
  | array items text => cases items <;> simp [Schema.ofType?, DataType.isNothing]
  | object members text => simp [Schema.ofType?, DataType.isNothing]

theorem bodySchema_isSome_iff {body : Body} :
    (bodySchema body).isSome ↔ ∃ t, body.type = some t ∧ t.isNothing = false := by
  unfold bodySchema
  cases body.type with
  | none => simp
  | some t => simp [← ofType?_isSome_iff]

/-! ### Responses have a description -/

theorem isBlankText_fillDescription {status : String} {r : Response}
    (hstatus : Text.isBlankText status = false)
    (h : r.description = "" ∨ Text.isBlankText r.description = false) :
    Text.isBlankText (r.fillDescription status).description = false := by
  rw [fillDescription_description]
  rcases h with h | h
  · rw [h, if_pos (by rfl), Text.isBlankText_append, hstatus, Bool.false_and]
  · split
    · rw [Text.isBlankText_append, hstatus, Bool.false_and]
    · exact h

theorem bodyDescription_cases {r : ApiNotes.Response} (h : r.Described) :
    bodyDescription r.body = "" ∨ Text.isBlankText (bodyDescription r.body) = false := by
  unfold bodyDescription
  cases ht : r.body.type with
  | none => exact Or.inl rfl
  | some t => exact h t ht

theorem response_check_exported {r : ApiNotes.Response} (h : r.Described) :
    (exported r).check = .ok () :=
  filled_eq_ok.mpr (isBlankText_fillDescription (Text.isBlankText_toString r.status)
    (bodyDescription_cases h))

/-- The first text that is not empty is one of the texts, if there is one. -/
theorem firstText_cases (texts : List String) :
    Response.firstText texts = "" ∨ Response.firstText texts ∈ texts := by
  unfold Response.firstText
  cases hfind : texts.find? (!·.isEmpty) with
  | none => exact Or.inl rfl
  | some text => exact Or.inr (List.mem_of_find?_eq_some hfind)

theorem combines_description {declared : List ApiNotes.Response} {r : Response}
    (h : Response.Combines declared r) (hdescribed : ∀ d ∈ declared, d.Described) :
    r.description = "" ∨ Text.isBlankText r.description = false := by
  rw [h.description]
  rcases firstText_cases (declared.map fun d => bodyDescription d.body) with hempty | hmem
  · exact Or.inl hempty
  · obtain ⟨d, hd, htext⟩ := List.mem_map.mp hmem
    rw [← htext]
    exact bodyDescription_cases (hdescribed d hd)

/-! ### The parts that have been checked before -/

theorem parameter_check {e : Endpoint} (he : e.Valid) {p : Parameter} (hp : p ∈ parametersOf e) :
    p.check = .ok () := by
  have hqueryPath : ¬"query" = "path" := by decide
  have hheaderPath : ¬"header" = "path" := by decide
  have hquery : ["query", "header", "cookie"].contains "query" = true := by decide
  have hheader : ["query", "header", "cookie"].contains "header" = true := by decide
  unfold parametersOf at hp
  simp only [List.mem_append, List.mem_map] at hp
  rw [Parameter.check, check_bind_eq_ok, filled_eq_ok]
  rcases hp with (⟨q, hq, rfl⟩ | ⟨q, hq, rfl⟩) | ⟨h, hh, rfl⟩
  · exact ⟨(Param.check_eq_ok.mp (he.params q hq)).1, by rfl⟩
  · refine ⟨(Param.check_eq_ok.mp (he.queries q hq)).1, ?_⟩
    show (if "query" = "path" then _ else
      ensure (["query", "header", "cookie"].contains "query") .invalidFormat "in") = .ok ()
    rw [if_neg hqueryPath, hquery]
    rfl
  · refine ⟨?_, ?_⟩
    · rcases hh with hh | hh
      · exact he.headers h hh
      · cases hrequest : e.request with
        | none => rw [hrequest] at hh; cases hh
        | some request =>
            rw [hrequest] at hh
            exact (Request.check_eq_ok.mp (he.request request hrequest)).2.headers h hh
    · show (if "header" = "path" then _ else
        ensure (["query", "header", "cookie"].contains "header") .invalidFormat "in") = .ok ()
      rw [if_neg hheaderPath, hheader]
      rfl

/-- A linked response of an endpoint is a reference, or has a description. -/
theorem response_check_linked {e : Endpoint} {shared : Dict Response}
    (hshared : (Dict.keys shared).Nodup)
    (hregular : ∀ r ∈ e.responses, r.Regular) (hdescribed : ∀ r ∈ e.responses, r.Described)
    {table : Dict Response} (htable : responsesOf e = .ok table) {k : String}
    {v : Referable Response}
    (hv : Dict.get? ((operationWith e table).linkAll shared).responses k = some v) :
    v.check Response.check = .ok () := by
  have hgrouped := responsesOf_grouped hregular htable
  rw [get?_linkAll hshared] at hv
  split at hv
  · rw [← Option.some.inj hv]
    refine filled_eq_ok.mpr ?_
    refine Text.isBlankText_of_head (c := '#') ?_ (by decide)
    rw [String.toList_append, String.toList_append, String.toList_append]
    rfl
  · have hitem : Dict.get? (itemsOf table) k = some v := hv
    rw [get?_itemsOf, Option.map_eq_some_iff] at hitem
    obtain ⟨r, hr, rfl⟩ := hitem
    obtain ⟨hne, hcombines⟩ := hgrouped.group k r hr
    obtain ⟨d, hd⟩ := List.exists_mem_of_ne_nil _ hne
    have hk : Text.isBlankText k = false := by
      rw [← (mem_withStatus.mp hd).2]
      exact Text.isBlankText_toString d.status
    exact filled_eq_ok.mpr (isBlankText_fillDescription hk (combines_description hcombines
      fun d hd => hdescribed d (mem_withStatus.mp hd).1))

/-! ### What an operation can miss -/

/-- The request of an endpoint, if any, has content: a type that has some, or an example. -/
def HasContent (e : Endpoint) : Prop :=
  ∀ request, e.request = some request →
    (∃ t, request.body.type = some t ∧ t.isNothing = false) ∨ request.body.examples ≠ []

/-- An endpoint has a response, of its own or a shared one. -/
def HasResponse (doc : ApiDoc) (e : Endpoint) : Prop := e.responses ≠ [] ∨ doc.responses ≠ []

theorem contentOf_isEmpty_iff {mimetype : String} {body : Body} :
    (contentOf mimetype body).isEmpty = false ↔
      (∃ t, body.type = some t ∧ t.isNothing = false) ∨ body.examples ≠ [] := by
  have hnames : (contentOf mimetype body).isEmpty = false ↔ contentNames mimetype body ≠ [] := by
    have hkeys : (contentOf mimetype body).isEmpty = false ↔
        Dict.keys (contentOf mimetype body) ≠ [] := by
      cases contentOf mimetype body <;> simp
    rw [hkeys]
    constructor
    · intro h
      obtain ⟨name, hname⟩ := List.exists_mem_of_ne_nil _ h
      exact List.ne_nil_of_mem (mem_keys_contentOf.mp hname)
    · intro h
      obtain ⟨name, hname⟩ := List.exists_mem_of_ne_nil _ h
      exact List.ne_nil_of_mem (mem_keys_contentOf.mpr hname)
  rw [hnames, ← bodySchema_isSome_iff]
  unfold contentNames
  cases bodySchema body <;> simp

theorem requestBody_check_eq {request : Request} :
    (RequestBody.ofModel request).check =
      ensure (!(contentOf request.mimetype request.body).isEmpty) .missingField "content" := rfl

/-- The fault of a request body without content, and of an operation without responses. -/
def missing (path : FieldPath) : Fault := { kind := .missingField, path }

/-- The check of an operation comes down to its request body and whether it has responses. -/
theorem operation_check_linked {e : Endpoint} (he : e.Valid) {shared : Dict Response}
    (hshared : (Dict.keys shared).Nodup)
    (hfilled : ∀ k ∈ Dict.keys shared, Text.isBlankText k = false)
    (hregular : ∀ r ∈ e.responses, r.Regular) (hdescribed : ∀ r ∈ e.responses, r.Described)
    {table : Dict Response} (htable : responsesOf e = .ok table) :
    ((operationWith e table).linkAll shared).check =
      (Check.optional RequestBody.check "requestBody" (e.request.map RequestBody.ofModel) >>=
        fun _ => ensure (!((operationWith e table).linkAll shared).responses.isEmpty)
          .missingField "responses") := by
  have hgrouped := responsesOf_grouped hregular htable
  have hnodup : (Dict.keys ((operationWith e table).linkAll shared).responses).Nodup := by
    refine nodup_keys_linkAll shared ?_
    show (Dict.keys (itemsOf table)).Nodup
    rw [keys_itemsOf]
    exact hgrouped.nodup
  have hparameters : each Parameter.check "parameters"
      ((operationWith e table).linkAll shared).parameters = .ok () := by
    rw [linkAll_frame]
    exact each_eq_ok.mpr fun p hp => parameter_check he hp
  have hresponses : entries (Referable.check Response.check) "responses"
      ((operationWith e table).linkAll shared).responses = .ok () := by
    refine entries_eq_ok.mpr fun x hx => ⟨?_, ?_⟩
    · rcases (mem_keys_linkAll hshared _ _).mp (Dict.mem_keys_of_mem hx) with hown | hcommon
      · have hkey : x.1 ∈ Dict.keys (itemsOf table) := hown
        rw [keys_itemsOf, hgrouped.mem_keys] at hkey
        obtain ⟨d, -, hstatus⟩ := hkey
        rw [← hstatus]
        exact Text.isBlankText_toString d.status
      · exact hfilled _ hcommon
    · exact response_check_linked hshared hregular hdescribed htable (Dict.get?_of_mem hnodup hx)
  have hbody : ((operationWith e table).linkAll shared).requestBody =
      e.request.map RequestBody.ofModel := by
    rw [linkAll_frame]
    rfl
  rw [Operation.check, hparameters, hresponses, hbody]
  simp only [bind_ok_unit]
  rfl

theorem optional_requestBody_check (e : Endpoint) :
    (HasContent e ∧
      Check.optional RequestBody.check "requestBody" (e.request.map RequestBody.ofModel) = .ok ()) ∨
    (¬HasContent e ∧
      Check.optional RequestBody.check "requestBody" (e.request.map RequestBody.ofModel) =
        .error (missing [.field "requestBody", .field "content"])) := by
  unfold HasContent
  cases hrequest : e.request with
  | none => exact Or.inl ⟨by simp, rfl⟩
  | some request =>
      have hcontent : (contentOf request.mimetype request.body).isEmpty = false ↔ _ :=
        contentOf_isEmpty_iff
      rw [Option.map_some, Check.optional, requestBody_check_eq]
      simp only [Option.some.injEq, forall_eq', ← hcontent]
      cases (contentOf request.mimetype request.body).isEmpty with
      | false => exact Or.inl ⟨rfl, rfl⟩
      | true => exact Or.inr ⟨by simp, rfl⟩

/-! ### The operations of the finished document -/

theorem mem_keys_shared {doc : ApiDoc} {d : Draft} (hd : Drafted doc d) (k : String) :
    k ∈ Dict.keys d.components.responses ↔ ∃ r ∈ doc.responses, toString r.status = k := by
  rw [← Dict.get?_isSome_iff, hd.get?_shared, Option.isSome_map, firstOf_isSome_iff]

/-- The operation that a finished document has in a slot: the drafted one, linked. -/
theorem slot_document (d : Draft) (path : String) (m : Method) :
    ((Dict.get? d.document.paths path).bind (·.slot m)) =
      (d.operation? path m).map (Operation.linkAll d.components.responses) := by
  have hpaths : d.document.paths =
      Dict.mapValues (·.mapOperations (Operation.linkAll d.components.responses)) d.paths := rfl
  rw [hpaths, Dict.get?_mapValues, Draft.operation?]
  cases Dict.get? d.paths path with
  | none => rfl
  | some item => exact PathItem.slot_mapOperations _ item m

theorem nodup_keys_document {doc : ApiDoc} {d : Draft} (hd : Drafted doc d) :
    (Dict.keys d.document.paths).Nodup := by
  have hkeys : Dict.keys d.document.paths = Dict.keys d.paths := Dict.keys_mapValues _ _
  rw [hkeys]
  exact hd.nodup_paths

/-- Every operation of a finished document is that of an endpoint. -/
theorem endpoint_of_mem {doc : ApiDoc} {d : Draft} (hd : Drafted doc d)
    {p : String × PathItem} (hp : p ∈ d.document.paths) {o : Method × Operation}
    (ho : o ∈ p.2.operations) :
    ∃ e ∈ doc.endpoints, Route.template e.path = p.1 ∧ e.method = o.1 ∧
      ∃ table, responsesOf e = .ok table ∧
        o.2 = (operationWith e table).linkAll d.components.responses := by
  have hslot := slot_document d p.1 o.1
  rw [Dict.get?_of_mem (nodup_keys_document hd) hp, Option.bind_some,
    PathItem.mem_operations.mp ho] at hslot
  obtain ⟨operation, hoperation, hlinked⟩ := Option.map_eq_some_iff.mp hslot.symm
  obtain ⟨e, he, hpath, hm, table, htable, rfl⟩ := hd.slots _ _ _ hoperation
  exact ⟨e, he, hpath, hm, table, htable, hlinked.symm⟩

/-- Every endpoint has its operation in a finished document. -/
theorem mem_of_endpoint {doc : ApiDoc} {d : Draft} (hd : Drafted doc d) {e : Endpoint}
    (he : e ∈ doc.endpoints) :
    ∃ table item, responsesOf e = .ok table ∧ (Route.template e.path, item) ∈ d.document.paths ∧
      (e.method, (operationWith e table).linkAll d.components.responses) ∈ item.operations := by
  obtain ⟨table, htable, hoperation⟩ := hd.holds e he
  have hslot := slot_document d (Route.template e.path) e.method
  rw [hoperation, Option.map_some] at hslot
  obtain ⟨item, hitem, hmethod⟩ := Option.bind_eq_some_iff.mp hslot
  exact ⟨table, item, htable, Dict.mem_of_get? hitem, PathItem.mem_operations.mpr hmethod⟩

theorem filled_template {doc : ApiDoc} {d : Draft} (hvalid : doc.Valid) (hd : Drafted doc d)
    {p : String × PathItem} (hp : p ∈ d.document.paths) : Text.isBlankText p.1 = false := by
  have hkey : p.1 ∈ Dict.keys d.document.paths := Dict.mem_keys_of_mem hp
  have hkeys : Dict.keys d.document.paths = Dict.keys d.paths := Dict.keys_mapValues _ _
  rw [hkeys] at hkey
  obtain ⟨e, he, hpath⟩ := hd.paths _ hkey
  rw [← hpath]
  exact Text.isBlankText_of_head (Route.head?_template_iff.mpr (hvalid.endpointValid e he).path)
    (by decide)

section Finished

variable {doc : ApiDoc} {d : Draft} (hvalid : doc.Valid) (hkeyed : doc.Keyed)
  (hdescribed : doc.Described) (hd : Drafted doc d)

include hvalid hkeyed hd

theorem linked_isEmpty_iff {e : Endpoint} (he : e ∈ doc.endpoints) {table : Dict Response}
    (htable : responsesOf e = .ok table) :
    ((operationWith e table).linkAll d.components.responses).responses.isEmpty = false ↔
      HasResponse doc e := by
  have hgrouped := responsesOf_grouped (hvalid.regular_responses hkeyed e he) htable
  have hmem : ∀ k, k ∈ Dict.keys
      ((operationWith e table).linkAll d.components.responses).responses ↔
        (∃ r ∈ e.responses, toString r.status = k) ∨
          ∃ r ∈ doc.responses, toString r.status = k := by
    intro k
    rw [mem_keys_linkAll hd.nodup_shared, mem_keys_shared hd]
    show k ∈ Dict.keys (itemsOf table) ∨ _ ↔ _
    rw [keys_itemsOf, hgrouped.mem_keys]
  have hkeys : ∀ table : Dict (Referable Response), table.isEmpty = false ↔
      Dict.keys table ≠ [] := by
    intro table
    cases table <;> simp
  rw [hkeys, HasResponse]
  constructor
  · intro h
    obtain ⟨k, hk⟩ := List.exists_mem_of_ne_nil _ h
    rcases (hmem k).mp hk with ⟨r, hr, -⟩ | ⟨r, hr, -⟩
    · exact Or.inl (List.ne_nil_of_mem hr)
    · exact Or.inr (List.ne_nil_of_mem hr)
  · rintro (h | h)
    · obtain ⟨r, hr⟩ := List.exists_mem_of_ne_nil _ h
      exact List.ne_nil_of_mem ((hmem _).mpr (Or.inl ⟨r, hr, rfl⟩))
    · obtain ⟨r, hr⟩ := List.exists_mem_of_ne_nil _ h
      exact List.ne_nil_of_mem ((hmem _).mpr (Or.inr ⟨r, hr, rfl⟩))

include hdescribed

/-- What comes of the check of an operation: it passes, or it misses content, or, with content,
it misses a response. -/
theorem operation_check_cases {e : Endpoint} (he : e ∈ doc.endpoints) {table : Dict Response}
    (htable : responsesOf e = .ok table) :
    (HasContent e ∧ HasResponse doc e ∧
      ((operationWith e table).linkAll d.components.responses).check = .ok ()) ∨
    (¬HasContent e ∧ ((operationWith e table).linkAll d.components.responses).check =
      .error (missing [.field "requestBody", .field "content"])) ∨
    (¬HasResponse doc e ∧ ((operationWith e table).linkAll d.components.responses).check =
      .error (missing [.field "responses"])) := by
  have hfilled : ∀ k ∈ Dict.keys d.components.responses, Text.isBlankText k = false := by
    intro k hk
    obtain ⟨r, -, hr⟩ := (mem_keys_shared hd k).mp hk
    rw [← hr]
    exact Text.isBlankText_toString r.status
  rw [operation_check_linked (hvalid.endpointValid e he) hd.nodup_shared hfilled
    (hvalid.regular_responses hkeyed e he) (hdescribed.responses e he) htable]
  rcases optional_requestBody_check e with ⟨hcontent, hbody⟩ | ⟨hcontent, hbody⟩
  · rw [hbody, ← linked_isEmpty_iff hvalid hkeyed hd he htable]
    cases ((operationWith e table).linkAll d.components.responses).responses.isEmpty with
    | false => exact Or.inl ⟨hcontent, rfl, rfl⟩
    | true => exact Or.inr (Or.inr ⟨by simp, rfl⟩)
  · rw [hbody]
    exact Or.inr (Or.inl ⟨hcontent, rfl⟩)

/-- The way from the root of a document to a part of an operation. -/
def partOf (e : Endpoint) (rest : FieldPath) : FieldPath :=
  .field "paths" :: .key (Route.template e.path) :: .field e.method.field :: rest

theorem paths_check_eq_ok :
    entries PathItem.check "paths" d.document.paths = .ok () ↔
      ∀ e ∈ doc.endpoints, HasContent e ∧ HasResponse doc e := by
  rw [entries_eq_ok]
  constructor
  · intro hall e he
    obtain ⟨table, item, htable, hitem, hoperation⟩ := mem_of_endpoint hd he
    have hcheck := forM_eq_ok.mp (hall _ hitem).2 _ hoperation
    rw [mapError_eq_ok] at hcheck
    rcases operation_check_cases hvalid hkeyed hdescribed hd he htable with
      ⟨hcontent, hresponse, -⟩ | ⟨-, herror⟩ | ⟨-, herror⟩
    · exact ⟨hcontent, hresponse⟩
    · rw [herror] at hcheck; cases hcheck
    · rw [herror] at hcheck; cases hcheck
  · intro hall p hp
    refine ⟨?_, forM_eq_ok.mpr fun o ho => ?_⟩
    · exact filled_template hvalid hd hp
    · obtain ⟨e, he, -, -, table, htable, hoperation⟩ := endpoint_of_mem hd hp ho
      rw [mapError_eq_ok, hoperation]
      obtain ⟨hcontent, hresponse⟩ := hall e he
      rcases operation_check_cases hvalid hkeyed hdescribed hd he htable with
        ⟨-, -, hok⟩ | ⟨hnot, -⟩ | ⟨hnot, -⟩
      · exact hok
      · exact absurd hcontent hnot
      · exact absurd hresponse hnot

theorem paths_check_eq_error {fault : Fault}
    (h : entries PathItem.check "paths" d.document.paths = .error fault) :
    ∃ e ∈ doc.endpoints,
      (¬HasContent e ∧ fault = missing (partOf e [.field "requestBody", .field "content"])) ∨
      (¬HasResponse doc e ∧ fault = missing (partOf e [.field "responses"])) := by
  obtain ⟨p, hp, hentry⟩ := entries_eq_error h
  have hkey : (filled p.1 "").mapError (·.within "paths") = .ok () :=
    mapError_eq_ok.mpr (filled_eq_ok.mpr (filled_template hvalid hd hp))
  rw [entry, hkey] at hentry
  obtain ⟨inner, hitem, hfault⟩ := mapError_eq_error.mp hentry
  obtain ⟨o, ho, hoperation⟩ := forM_eq_error hitem
  obtain ⟨own, hown, hinner⟩ := mapError_eq_error.mp hoperation
  obtain ⟨e, he, hpath, hmethod, table, htable, hlinked⟩ := endpoint_of_mem hd hp ho
  rw [hlinked] at hown
  refine ⟨e, he, ?_⟩
  rw [← hfault, ← hinner, ← hpath, ← hmethod]
  rcases operation_check_cases hvalid hkeyed hdescribed hd he htable with
    ⟨-, -, hok⟩ | ⟨hnot, herror⟩ | ⟨hnot, herror⟩
  · rw [hok] at hown; cases hown
  · rw [herror] at hown
    rw [← Except.error.inj hown]
    exact Or.inl ⟨hnot, rfl⟩
  · rw [herror] at hown
    rw [← Except.error.inj hown]
    exact Or.inr ⟨hnot, rfl⟩

end Finished

/-! ### The document around them -/

section Around

variable {doc : ApiDoc} {d : Draft} (hvalid : doc.Valid) (hdescribed : doc.Described)
  (hd : Drafted doc d)

include hvalid hd

theorem checkHead_document : d.document.checkHead = .ok () := by
  have hversion : Version.isValid d.document.openapi = true := by
    show Version.isValid latestVersion = true
    decide +kernel
  have hinfo : d.document.info = (Draft.ofHeader doc).info := by
    show d.info = _
    rw [hd.header]
  rw [Document.checkHead, check_bind_eq_ok, ensure_eq_ok, mapError_eq_ok, hinfo, ofHeader_eq,
    Info.check, check_bind_eq_ok, check_bind_eq_ok, filled_eq_ok, filled_eq_ok, optional_eq_ok]
  refine ⟨hversion, hvalid.title, Version.isBlankText_of_isValid hvalid.version, ?_⟩
  intro license hlicense
  obtain ⟨l, hl, rfl⟩ := Option.map_eq_some_iff.mp hlicense
  obtain ⟨hname, hurl⟩ := hvalid.license l hl
  rw [License.check, check_bind_eq_ok, filled_eq_ok, ensure_eq_ok]
  refine ⟨hname, ?_⟩
  rw [nonEmpty?]
  rcases hurl with hempty | hlink
  · rw [if_pos hempty]; rfl
  · split
    · rfl
    · exact hlink

theorem servers_document : d.document.servers ≠ [] ∧
    each Server.check "servers" d.document.servers = .ok () := by
  have hservers : d.document.servers = (Draft.ofHeader doc).servers := by
    show d.servers = _
    rw [hd.header]
  rw [hservers, ofHeader_eq]
  refine ⟨by simpa using hvalid.servers, each_eq_ok.mpr fun s hs => ?_⟩
  obtain ⟨server, hserver, rfl⟩ := List.mem_map.mp hs
  exact ensure_eq_ok.mpr (hvalid.serverLinks server hserver)

theorem tags_document : each Tag.check "tags" d.document.tags = .ok () := by
  have htags : d.document.tags = (Draft.ofHeader doc).tags := by
    show d.tags = _
    rw [hd.header]
  rw [htags, ofHeader_eq]
  refine each_eq_ok.mpr fun t ht => ?_
  obtain ⟨g, hg, rfl⟩ := List.mem_map.mp ht
  rw [Tag.check, check_bind_eq_ok, filled_eq_ok]
  exact ⟨hvalid.groups g hg, rfl⟩

theorem externalDocs_document :
    Check.optional ExternalDocs.check "externalDocs" d.document.externalDocs = .ok () := by
  have hdocs : d.document.externalDocs = (Draft.ofHeader doc).externalDocs := by
    show d.externalDocs = _
    rw [hd.header]
  rw [hdocs, ofHeader_eq]
  refine optional_eq_ok.mpr fun x hx => ?_
  obtain ⟨docs, hdocs', rfl⟩ := Option.map_eq_some_iff.mp hx
  exact ensure_eq_ok.mpr (hvalid.externalDocs docs hdocs')

theorem paths_document : d.document.paths.isEmpty = false := by
  obtain ⟨e, he⟩ := List.exists_mem_of_ne_nil _ hvalid.endpoints
  obtain ⟨table, item, -, hitem, -⟩ := mem_of_endpoint hd he
  cases hpaths : d.document.paths with
  | nil => rw [hpaths] at hitem; cases hitem
  | cons p rest => rfl

omit hvalid

include hdescribed

theorem components_document :
    Check.optional Components.check "components" d.document.components = .ok () := by
  have hcomponents : d.components = { responses := d.components.responses } := by
    conv_lhs => rw [hd.header]
  refine optional_eq_ok.mpr fun c hc => ?_
  have hc' : c = { responses := d.components.responses } := by
    have hdocument : d.document.components =
        if d.components.isEmpty then none else some d.components := rfl
    rw [hdocument] at hc
    split at hc
    · cases hc
    · rw [← Option.some.inj hc]; exact hcomponents
  have hresponses : entries Response.check "responses" d.components.responses = .ok () := by
    refine entries_eq_ok.mpr fun x hx => ?_
    have hget := Dict.get?_of_mem hd.nodup_shared hx
    rw [hd.get?_shared] at hget
    obtain ⟨r, hr, hexported⟩ := Option.map_eq_some_iff.mp hget
    obtain ⟨hmem, hstatus⟩ := mem_of_firstOf hr
    rw [← hstatus, ← hexported]
    exact ⟨Text.isBlankText_toString r.status, response_check_exported (hdescribed.common r hmem)⟩
  rw [hc', Components.check, hresponses]
  rfl

end Around

/-- Finishing a draft fills nothing in: the version and the servers stand already. -/
theorem build_eq_checks {doc : ApiDoc} {d : Draft} (hvalid : doc.Valid) (hd : Drafted doc d) :
    d.build =
      (d.document.checkHead >>= fun _ => d.document.checkParts).map fun _ => d.document := by
  obtain ⟨hne, -⟩ := servers_document hvalid hd
  have hversion : d.document.fillVersion = d.document := by
    have hfilled : latestVersion.isEmpty = false := by decide
    show (if latestVersion.isEmpty then _ else d.document) = d.document
    rw [hfilled]
    rfl
  have hfill : d.document.fillServers = d.document := by
    unfold Document.fillServers
    exact if_neg (by simpa using hne)
  rw [Draft.build, Document.sanitized, Document.sanitize, hversion]
  simp only [hfill]
  cases d.document.checkHead <;> rfl

/-- A finished document passes its checks when its paths do. -/
theorem build_eq {doc : ApiDoc} {d : Draft} (hvalid : doc.Valid) (hdescribed : doc.Described)
    (hd : Drafted doc d) :
    d.build = (entries PathItem.check "paths" d.document.paths).map fun _ => d.document := by
  have hpaths : ensure (!d.document.paths.isEmpty) .missingField "paths" = .ok () := by
    rw [paths_document hvalid hd]
    rfl
  have hparts : d.document.checkParts = entries PathItem.check "paths" d.document.paths := by
    rw [Document.checkParts, (servers_document hvalid hd).2, hpaths,
      components_document hdescribed hd, tags_document hvalid hd, externalDocs_document hvalid hd]
    simp only [bind_ok_unit]
    rfl
  rw [build_eq_checks hvalid hd, checkHead_document hvalid hd, hparts]
  rfl

/-! ### When a document can be made -/

/-- A document with one endpoint, which takes an object and has a response of its own beside a
shared one. -/
def renamePet : ApiDoc where
  title := "Pets"
  version := "1.0.0"
  servers := [{ url := "/" }]
  responses := [{ status := 404, mimetype := "*" }]
  endpoints := [{
    method := .put
    path := "/pets/:id"
    params := [⟨"id", .leaf .string "", false, ""⟩]
    queries := [⟨"silent", .leaf .bool "", true, ""⟩]
    request := some
      { mimetype := "application/json"
        body := { type := some (.object [("name", ⟨"name", .leaf .string "", false, ""⟩)] "") } }
    responses :=
      [{ status := 204, mimetype := "*", body := { type := some (.leaf .any "done") } }] }]

theorem keyed_renamePet : renamePet.Keyed where
  common := by
    intro r hr t ht
    simp only [renamePet, List.mem_cons, List.not_mem_nil, or_false] at hr
    rw [hr] at ht
    cases ht
  responses := by
    intro e he r hr t ht
    simp only [renamePet, List.mem_cons, List.not_mem_nil, or_false] at he
    rw [he, List.mem_singleton] at hr
    rw [hr] at ht
    rw [← Option.some.inj ht]
    trivial
  requests := by
    intro e he r hr t ht
    simp only [renamePet, List.mem_cons, List.not_mem_nil, or_false] at he
    rw [he] at hr
    rw [← Option.some.inj hr] at ht
    rw [← Option.some.inj ht]
    refine DataType.keyed_object.mpr ⟨by decide, fun m hm => ?_⟩
    rw [List.mem_singleton.mp hm]
    trivial

end OpenApi

end ApiNotes
