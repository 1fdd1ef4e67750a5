/-
What an exported document says about its endpoints.

Every endpoint has one operation, in the slot of its method on its template, and the
operation says what the endpoint says: its parameters in order, its request with the
type and the examples, and under each status the responses declared for it.  A response
may stand in the operation or be shared.  One that is shared because it is the same as the
operation's own need not be equal to it, only the same up to the order of its tables;
`carries_of_same` is why the reader loses nothing by that.
-/
import ApiNotes.Proofs.Completion

namespace ApiNotes.OpenApi

/-! ### A response and its declarations -/

/-- A response carries what was declared for its status. -/
structure Carries (status : String) (declared : List ApiNotes.Response) (r : Response) : Prop where
  description : r.description =
    if (Response.firstText (declared.map fun d => bodyDescription d.body)).isEmpty
    then status ++ " response"
    else Response.firstText (declared.map fun d => bodyDescription d.body)
  headers : Response.CombinesHeaders declared r.headers
  nodup : (Dict.keys r.content).Nodup
  names : ∀ name, name ∈ Dict.keys r.content ↔
    ∃ d ∈ declared, name ∈ contentNames d.mimetype d.body
  /-- Under the mimetype of each declaration stands the schema of its type. -/
  schema : ∀ d ∈ declared, ∀ t, d.body.type = some t → t.isNothing = false →
    ∃ s s', schemaAt r.content (mediaTypeName d.mimetype) = some s ∧
      Schema.ofType? t = some s' ∧ (s == s') = true
  /-- Under each mimetype stand all its examples, in order of declaration. -/
  examples : ∀ name, examplesAt r.content name =
    declared.flatMap fun d => examplesUnder name d.body.examples

theorem mem_contentNames_mimetype {mimetype : String} {body : Body} {s : Schema}
    (h : bodySchema body = some s) : mediaTypeName mimetype ∈ contentNames mimetype body := by
  rw [contentNames, h]
  simp

theorem bodySchema_of_type {body : Body} {t : DataType} (ht : body.type = some t)
    (hcontent : t.isNothing = false) :
    ∃ s, Schema.ofType? t = some s ∧ bodySchema body = some s := by
  obtain ⟨s, hs⟩ := Option.isSome_iff_exists.mp (ofType?_isSome_iff.mpr hcontent)
  exact ⟨s, hs, by rw [bodySchema, ht, Option.bind_some, hs]⟩

/-- A merged response carries its declarations once it has a description. -/
theorem carries_of_combines {status : String} {declared : List ApiNotes.Response} {r : Response}
    (h : Response.Combines declared r) : Carries status declared (r.fillDescription status) where
  description := by rw [fillDescription_description, h.description]
  headers := by rw [fillDescription_headers]; exact h.headers
  nodup := by rw [fillDescription_content]; exact h.content.nodup
  names := by rw [fillDescription_content]; exact h.content.names
  schema := by
    intro d hd t ht hcontent
    obtain ⟨s, hs, hbody⟩ := bodySchema_of_type ht hcontent
    obtain ⟨s', hs', hsame⟩ := h.content.schema d hd _ (mem_contentNames_mimetype hbody) s hbody
    rw [fillDescription_content]
    exact ⟨s', s, hs', hs, hsame⟩
  examples := by rw [fillDescription_content]; exact h.content.examples

/-- A shared response carries its own declaration. -/
theorem carries_exported {r : ApiNotes.Response} (hr : r.Regular) :
    Carries (toString r.status) [r] (exported r) :=
  carries_of_combines (Response.combines_singleton hr)

section Same

variable {status : String} {declared : List ApiNotes.Response} {own : Response}
  {first : ApiNotes.Response} (hown : Response.Combines declared own)
  (hdeclared : ∀ d ∈ declared, d.Regular) (hfirst : first.Regular)
  (hsame : (own.fillDescription status == exported first) = true)

include hown hfirst hsame

/-- Equal headers on both sides: those of annotations are the same only when they are equal. -/
theorem get?_headers_of_same (name : String) :
    Dict.get? (exported first).headers name = Dict.get? own.headers name := by
  obtain ⟨-, hheaders, -⟩ := response_beq.mp hsame
  rw [fillDescription_headers,
    Dict.sameBy_iff hown.headers.nodup (keyed_exported hfirst).headers] at hheaders
  rcases Schema.optionRel_iff.mp (hheaders name) with ⟨hx, hy⟩ | ⟨x, y, hx, hy, hxy⟩
  · rw [hx, hy]
  · obtain ⟨d, hd, h, hh, hname⟩ := hown.headers.names name (Dict.mem_keys_of_get? hx)
    have hstands := hown.headers.stands d hd h hh
    rw [hname, hx, Option.some.injEq] at hstands
    have hmem : (name, y) ∈ (Response.ofModel first).headers := by
      have hmem' := Dict.mem_of_get? hy
      rwa [exported, fillDescription_headers] at hmem'
    obtain ⟨h', -, heq⟩ := (Response.mem_ofModel_headers hfirst).mp hmem
    have hy' : y = Header.ofModel h' := congrArg Prod.snd heq
    rw [hx, hy, hstands, hy']
    rw [hstands, hy'] at hxy
    rw [header_ofModel_eq_of_beq hxy]

/-- Content that is the same has the same names, schemas and examples. -/
theorem content_of_same (name : String) :
    (name ∈ Dict.keys (exported first).content ↔ name ∈ Dict.keys own.content) ∧
      Option.Rel (fun s t => Schema.same s t = true) (schemaAt own.content name)
        (schemaAt (exported first).content name) ∧
      examplesAt (exported first).content name = examplesAt own.content name := by
  obtain ⟨-, -, hcontent⟩ := response_beq.mp hsame
  rw [fillDescription_content,
    Dict.sameBy_iff hown.content.nodup (keyed_exported hfirst).content] at hcontent
  rw [← Dict.get?_isSome_iff, ← Dict.get?_isSome_iff]
  unfold schemaAt examplesAt
  rcases Schema.optionRel_iff.mp (hcontent name) with ⟨hx, hy⟩ | ⟨x, y, hx, hy, hxy⟩
  · rw [hx, hy]
    exact ⟨by simp, .none, rfl⟩
  · obtain ⟨hschema, hexamples⟩ := mediaType_beq.mp hxy
    obtain ⟨es, hes⟩ := hown.content.numbered name x hx
    obtain ⟨es', hes'⟩ := numbered_contentOf first.mimetype first.body name y (by
      rw [← hy, exported, fillDescription_content]
      rfl)
    rw [hes, hes'] at hexamples
    rw [hx, hy]
    refine ⟨by simp, hschema, ?_⟩
    simp [hes, hes', eq_of_sameBy_numbered hexamples]

include hdeclared

/-- What is the same as a merged response carries its declarations as well. -/
theorem carries_of_same : Carries status declared (exported first) := by
  have hcarries : Carries status declared (own.fillDescription status) := carries_of_combines hown
  obtain ⟨hdesc, -, -⟩ := response_beq.mp hsame
  have hget := get?_headers_of_same hown hfirst hsame
  have hcontent := content_of_same hown hfirst hsame
  refine ⟨?_, ⟨(keyed_exported hfirst).headers, ?_, ?_⟩, (keyed_exported hfirst).content,
    ?_, ?_, ?_⟩
  · rw [← hdesc]
    exact hcarries.description
  · intro d hd h hh
    rw [hget]
    exact hown.headers.stands d hd h hh
  · intro name hname
    rw [← Dict.get?_isSome_iff, hget, Dict.get?_isSome_iff] at hname
    exact hown.headers.names name hname
  · intro name
    rw [(hcontent name).1]
    exact hown.content.names name
  · intro d hd t ht hne
    obtain ⟨s, hs, hbody⟩ := bodySchema_of_type ht hne
    obtain ⟨u, hu, hus⟩ := hown.content.schema d hd _ (mem_contentNames_mimetype hbody) s hbody
    obtain ⟨d', hd', -, hu'⟩ := hown.content.schemaNames _ _ hu
    have hrel := (hcontent (mediaTypeName d.mimetype)).2.1
    rw [hu] at hrel
    rcases Schema.optionRel_iff.mp hrel with ⟨hnone, -⟩ | ⟨u', v, hu'', hv, huv⟩
    · cases hnone
    · rw [Option.some.injEq] at hu''
      subst hu''
      have hv' : bodySchema first.body = some v := by
        rw [exported, fillDescription_content] at hv
        have hview := schemaAt_contentOf first.mimetype first.body (mediaTypeName d.mimetype)
        rw [show (Response.ofModel first).content = contentOf first.mimetype first.body from rfl,
          hview] at hv
        split at hv
        · exact hv
        · cases hv
      have hvu : Schema.same v u = true :=
        Schema.same_symm (keyed_bodySchema (hdeclared d' hd').keyed hu')
          (keyed_bodySchema hfirst.keyed hv') huv
      exact ⟨v, s, hv, hs, Schema.same_trans hvu hus⟩
  · intro name
    rw [(hcontent name).2.2]
    exact hown.content.examples name

end Same

/-! ### An operation and its endpoint -/

/-- The declarations that a status of an endpoint goes by: its own, or else the first shared one. -/
def declaredFor (doc : ApiDoc) (e : Endpoint) (status : String) : List ApiNotes.Response :=
  if (withStatus status e.responses).isEmpty then (firstOf status doc.responses).toList
  else withStatus status e.responses

/-- The parameters of an endpoint in the order of the document: location, name, and whether they
have to be there. -/
def parameterList (e : Endpoint) : List (String × String × Bool) :=
  e.params.map (fun p => ("path", p.name, true)) ++
    e.queries.map (fun q => ("query", q.name, !q.optional)) ++
    e.headers.map (fun h => ("header", h.name, !h.optional)) ++
    ((e.request.map (·.body.headers)).getD []).map fun h => ("header", h.name, !h.optional)

/-- An operation says what its endpoint says. -/
structure Describes (doc : ApiDoc) (e : Endpoint) (shared : Dict Response)
    (operation : Operation) : Prop where
  parameters : operation.parameters.map (fun p => (p.location, p.name, p.required)) =
    parameterList e
  hasBody : operation.requestBody.isSome = e.request.isSome
  bodyKeys : ∀ body, operation.requestBody = some body → (Dict.keys body.content).Nodup
  bodySchema : ∀ request body, e.request = some request → operation.requestBody = some body →
    ∀ t, request.body.type = some t → t.isNothing = false →
      schemaAt body.content (mediaTypeName request.mimetype) = Schema.ofType? t ∧
        (Schema.ofType? t).isSome
  bodyExamples : ∀ request body, e.request = some request → operation.requestBody = some body →
    ∀ name, examplesAt body.content name = examplesUnder name request.body.examples
  responseKeys : (Dict.keys operation.responses).Nodup
  statuses : ∀ k, k ∈ Dict.keys operation.responses ↔
    ∃ r, (r ∈ e.responses ∨ r ∈ doc.responses) ∧ toString r.status = k
  /-- Every entry leads to a response that carries the declarations of its status. -/
  responses : ∀ k entry, Dict.get? operation.responses k = some entry →
    ∃ r, entry.resolve shared = some r ∧ Carries k (declaredFor doc e k) r

theorem parametersOf_list (e : Endpoint) :
    (parametersOf e).map (fun p => (p.location, p.name, p.required)) = parameterList e := by
  unfold parametersOf parameterList
  simp [Parameter.ofModel, Parameter.ofHeader, Function.comp_def]

section Linked

variable {doc : ApiDoc} {d : Draft} (hvalid : doc.Valid) (hkeyed : doc.Keyed)
  (hd : Drafted doc d)

include hvalid hkeyed hd

theorem entry_carries {e : Endpoint} (he : e ∈ doc.endpoints) {table : Dict Response}
    (htable : responsesOf e = .ok table) {k : String} {entry : Referable Response}
    (hentry : Dict.get? ((operationWith e table).linkAll d.components.responses).responses k =
      some entry) :
    ∃ r, entry.resolve d.components.responses = some r ∧ Carries k (declaredFor doc e k) r := by
  have hregular := hvalid.regular_responses hkeyed e he
  have hgrouped := responsesOf_grouped hregular htable
  have hitems : Dict.get? (operationWith e table).responses k =
      (Dict.get? table k).map fun r => .item (r.fillDescription k) := get?_itemsOf table k
  rw [get?_linkAll hd.nodup_shared, hitems, hd.get?_shared] at hentry
  cases hfirst : firstOf k doc.responses with
  | none =>
      -- nothing is shared under the status
      rw [hfirst] at hentry
      obtain ⟨r, hr, rfl⟩ := Option.map_eq_some_iff.mp hentry
      obtain ⟨hne, hcombines⟩ := hgrouped.group k r hr
      refine ⟨_, rfl, ?_⟩
      rw [declaredFor, if_neg (by simpa using hne)]
      exact carries_of_combines hcombines
  | some first =>
      obtain ⟨hmem, hstatus⟩ := mem_of_firstOf hfirst
      have hfirstRegular := hvalid.regular_common hkeyed first hmem
      have hresolve : (Referable.toComponent "responses" k).resolve d.components.responses =
          some (exported first) := by
        rw [Referable.resolve_toComponent_of_undivided "responses"
          (by rw [← hstatus]; exact slash_not_mem_status _), hd.get?_shared, hfirst,
          Option.map_some]
      rw [hfirst, Option.map_some, Option.any_some] at hentry
      cases hown : Dict.get? table k with
      | none =>
          -- the shared response stands alone
          rw [hown] at hentry
          rw [← Option.some.inj hentry]
          refine ⟨_, hresolve, ?_⟩
          rw [declaredFor, withStatus_eq_nil hgrouped hown, hfirst, ← hstatus]
          exact carries_exported hfirstRegular
      | some own =>
          obtain ⟨hne, hcombines⟩ := hgrouped.group k own hown
          rw [hown] at hentry
          rw [declaredFor, if_neg (by simpa using hne)]
          by_cases hsame : (own.fillDescription k == exported first) = true
          · have hrefers : refers (some (.item (own.fillDescription k))) (exported first) = true :=
              hsame
            rw [Option.map_some, if_pos hrefers] at hentry
            rw [← Option.some.inj hentry]
            exact ⟨_, hresolve, carries_of_same hcombines
              (fun x hx => hregular x (mem_withStatus.mp hx).1) hfirstRegular hsame⟩
          · have hrefers : ¬refers (some (.item (own.fillDescription k))) (exported first) = true :=
              hsame
            rw [Option.map_some, if_neg hrefers] at hentry
            rw [← Option.some.inj hentry]
            exact ⟨_, rfl, carries_of_combines hcombines⟩

theorem describes_linked {e : Endpoint} (he : e ∈ doc.endpoints) {table : Dict Response}
    (htable : responsesOf e = .ok table) :
    Describes doc e d.components.responses
      ((operationWith e table).linkAll d.components.responses) := by
  have hgrouped := responsesOf_grouped (hvalid.regular_responses hkeyed e he) htable
  have hbody : ((operationWith e table).linkAll d.components.responses).requestBody =
      e.request.map RequestBody.ofModel := by
    rw [linkAll_frame]
    rfl
  have hcontent : ∀ request body, e.request = some request →
      ((operationWith e table).linkAll d.components.responses).requestBody = some body →
      body.content = contentOf request.mimetype request.body := by
    intro request body hrequest hsome
    rw [hbody, hrequest, Option.map_some, Option.some.injEq] at hsome
    rw [← hsome]
    rfl
  refine ⟨?_, ?_, ?_, ?_, ?_, ?_, ?_, fun k entry => entry_carries hvalid hkeyed hd he htable⟩
  · rw [linkAll_frame]
    exact parametersOf_list e
  · rw [hbody, Option.isSome_map]
  · intro body hsome
    rw [hbody] at hsome
    obtain ⟨request, -, rfl⟩ := Option.map_eq_some_iff.mp hsome
    exact nodup_keys_contentOf request.mimetype request.body
  · intro request body hrequest hsome t ht hne
    obtain ⟨s, hs, hschema⟩ := bodySchema_of_type ht hne
    rw [hcontent request body hrequest hsome, schemaAt_contentOf,
      if_pos (mem_contentNames_mimetype hschema), hschema, hs]
    exact ⟨rfl, rfl⟩
  · intro request body hrequest hsome name
    rw [hcontent request body hrequest hsome, examplesAt_contentOf]
  · refine nodup_keys_linkAll _ ?_
    show (Dict.keys (itemsOf table)).Nodup
    rw [keys_itemsOf]
    exact hgrouped.nodup
  · intro k
    rw [mem_keys_linkAll hd.nodup_shared, mem_keys_shared hd]
    show k ∈ Dict.keys (itemsOf table) ∨ _ ↔ _
    rw [keys_itemsOf, hgrouped.mem_keys]
    constructor
    · rintro (⟨r, hr, hk⟩ | ⟨r, hr, hk⟩)
      · exact ⟨r, Or.inl hr, hk⟩
      · exact ⟨r, Or.inr hr, hk⟩
    · rintro ⟨r, hr | hr, hk⟩
      · exact Or.inl ⟨r, hr, hk⟩
      · exact Or.inr ⟨r, hr, hk⟩

end Linked

/-! ### The whole document -/

/-- The shared responses of a document. -/
def sharedResponses (document : Document) : Dict Response :=
  (document.components.map (·.responses)).getD []

theorem sharedResponses_document (d : Draft) :
    sharedResponses d.document = d.components.responses := by
  have hcomponents : d.document.components =
      if d.components.isEmpty then none else some d.components := rfl
  rw [sharedResponses, hcomponents]
  split
  · rename_i hempty
    simp only [Components.isEmpty, Bool.and_eq_true, List.isEmpty_iff] at hempty
    rw [hempty.1.1.1.1.1.1.2]
    rfl
  · rfl

end ApiNotes.OpenApi
