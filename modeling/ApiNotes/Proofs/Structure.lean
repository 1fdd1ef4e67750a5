/-
Finished documents are sound.

The checks of a finished draft look at its operations and shared responses from above: at names,
places and descriptions, and at whether there is any content.  They do not look into content,
headers or schemas.  What is in there is right because it was made right, and stays so: `Formed`
says what that is, for a response and for an operation, and holds of what is made of a model
whose types were built, through every merge and every link.  What is formed and passes the checks
is sound, and a finished draft is both.
-/
import ApiNotes.Proofs.SchemaShapes
import ApiNotes.Proofs.Sharing

namespace ApiNotes

/-! ### Models whose types were built -/

/-- The type of a body, if any, was built. -/
def Body.Built (body : Body) : Prop := ∀ t, body.type = some t → t.Built

/-- The types of an endpoint were built. -/
structure Endpoint.Built (e : Endpoint) : Prop where
  params : ∀ p ∈ e.params, p.type.Built
  queries : ∀ p ∈ e.queries, p.type.Built
  request : ∀ r, e.request = some r → r.body.Built
  responses : ∀ r ∈ e.responses, r.body.Built

theorem Body.Built.keyed {body : Body} (h : body.Built) : body.Keyed := fun t ht => (h t ht).keyed

namespace OpenApi

/-- The types that a call brings in were built. -/
def Call.Built : Call → Prop
  | .commonResponse r => r.body.Built
  | .endpoint e => e.Built
  | .info .. | .license _ | .externalDocs _ | .server _ | .group _ => True

/-! ### Content -/

/-- Under a mimetype stand a sound schema, if any, and examples that are counted from one. -/
structure MediaType.Sound (media : MediaType) : Prop where
  schema : ∀ s, media.schema = some s → s.Sound
  examples : Dict.keys media.examples =
    (List.range media.examples.length).map fun i => exampleKey (i + 1)

/-- No content stands under the bare `*`, and all of it is sound. -/
def ContentSound (content : Dict MediaType) : Prop := ∀ e ∈ content, e.1 ≠ "*" ∧ e.2.Sound

/-- A mimetype without examples. -/
theorem MediaType.sound_bare {schema : Option Schema} (h : ∀ s, schema = some s → s.Sound) :
    MediaType.Sound { schema } where
  schema := h
  examples := rfl

theorem MediaType.Sound.pushExample {media : MediaType} (h : media.Sound) (e : Example) :
    (media.pushExample e).Sound where
  schema := h.schema
  examples := by
    have hfree : exampleKey (media.examples.length + 1) ∉ Dict.keys media.examples := by
      rw [h.examples, List.mem_map]
      rintro ⟨i, hi, hkey⟩
      have hcount := exampleKey_inj hkey
      rw [List.mem_range] at hi
      omega
    have hexamples : (media.pushExample e).examples =
        media.examples ++ [(exampleKey (media.examples.length + 1), e)] :=
      Dict.insert_of_not_mem hfree e
    have hkeys : Dict.keys (media.pushExample e).examples =
        Dict.keys media.examples ++ [exampleKey (media.examples.length + 1)] := by
      rw [hexamples, Dict.keys, List.map_append]
      rfl
    rw [hkeys, h.examples, hexamples, List.length_append, List.length_singleton, List.range_succ,
      List.map_append, List.map_singleton]

theorem MediaType.Sound.absorb {own theirs : MediaType} (hown : own.Sound)
    (htheirs : theirs.Sound) : (own.absorb theirs).Sound := by
  have hpush : ∀ (es : List Example) (media : MediaType), media.Sound →
      (es.foldl MediaType.pushExample media).Sound := by
    intro es
    induction es with
    | nil => exact fun media hmedia => hmedia
    | cons e es ih => exact fun media hmedia => ih _ (hmedia.pushExample e)
  refine hpush _ _ ⟨?_, hown.examples⟩
  intro s hs
  rcases Option.or_eq_some_iff.mp hs with hs | ⟨-, hs⟩
  · exact hown.schema s hs
  · exact htheirs.schema s hs

theorem ContentSound.insert {content : Dict MediaType} (h : ContentSound content) {name : String}
    (hname : name ≠ "*") {media : MediaType} (hmedia : media.Sound) :
    ContentSound (Dict.insert content name media) := by
  intro e he
  rcases Dict.mem_insert he with he | rfl
  · exact h e he
  · exact ⟨hname, hmedia⟩

/-- What stands under a mimetype, or is taken where nothing does. -/
theorem ContentSound.getD {content : Dict MediaType} (h : ContentSound content) {media : MediaType}
    (hmedia : media.Sound) (name : String) : ((Dict.get? content name).getD media).Sound := by
  cases hget : Dict.get? content name with
  | none => exact hmedia
  | some own => exact (h _ (Dict.mem_of_get? hget)).2

theorem mediaTypeName_ne_star (mimetype : String) : mediaTypeName mimetype ≠ "*" := by
  unfold mediaTypeName
  by_cases h : mimetype = "*"
  · rw [if_pos h]
    decide
  · rwa [if_neg h]

theorem contentSound_contentOf {body : Body} (h : body.Keyed) (mimetype : String) :
    ContentSound (contentOf mimetype body) := by
  have hschema : ∀ s, body.type.bind Schema.ofType? = some s → s.Sound := by
    intro s hs
    obtain ⟨t, ht, hs⟩ := Option.bind_eq_some_iff.mp hs
    exact Schema.sound_ofType? (h t ht) hs
  unfold contentOf
  simp only
  generalize body.type.bind Schema.ofType? = schema at hschema ⊢
  induction body.examples using List.reverseRecOn with
  | nil =>
      intro e he
      rw [List.foldl_nil] at he
      by_cases htyped : schema.isSome = true
      · rw [if_pos htyped, List.mem_singleton] at he
        rw [he]
        exact ⟨mediaTypeName_ne_star mimetype, MediaType.sound_bare hschema⟩
      · rw [if_neg htyped] at he
        cases he
  | append_singleton es e ih =>
      rw [List.foldl_append]
      exact ih.insert (mediaTypeName_ne_star e.mimetype)
        ((ih.getD (MediaType.sound_bare hschema) _).pushExample _)

/-! ### Responses -/

/-- The schemas of headers are sound. -/
def HeadersSound (headers : Dict Header) : Prop :=
  ∀ e ∈ headers, ∀ s, e.2.schema = some s → s.Sound

/-- What is in a response is sound. -/
structure Response.Formed (r : Response) : Prop where
  headers : HeadersSound r.headers
  content : ContentSound r.content

/-- A response has a description, and what is in it is sound. -/
structure Response.Sound (r : Response) : Prop extends Response.Formed r where
  description : Text.isBlankText r.description = false

namespace Response

theorem headersSound_mergeHeaders {own theirs : Dict Header} (hown : HeadersSound own)
    (htheirs : HeadersSound theirs) : HeadersSound (mergeHeaders own theirs).1 := by
  induction theirs generalizing own with
  | nil => exact hown
  | cons e rest ih =>
      obtain ⟨name, header⟩ := e
      obtain ⟨hheader, hrest⟩ := List.forall_mem_cons.mp htheirs
      rw [mergeHeaders]
      split
      · refine ih (fun e he => ?_) hrest
        rcases Dict.mem_insert he with he | rfl
        · exact hown e he
        · exact hheader
      · split
        · exact ih hown hrest
        · exact hown

theorem contentSound_mergeContent {own theirs : Dict MediaType} (hown : ContentSound own)
    (htheirs : ContentSound theirs) : ContentSound (mergeContent own theirs).1 := by
  induction theirs generalizing own with
  | nil => exact hown
  | cons e rest ih =>
      obtain ⟨name, media⟩ := e
      obtain ⟨⟨hname, hmedia⟩, hrest⟩ := List.forall_mem_cons.mp htheirs
      have hmine : ((Dict.get? own name).getD {}).Sound :=
        hown.getD (MediaType.sound_bare (by simp)) name
      rw [mergeContent]
      split
      · exact hown.insert hname hmine
      · exact ih (hown.insert hname (hmine.absorb hmedia)) hrest

theorem Formed.merged {own theirs r : Response} (hown : own.Formed) (htheirs : theirs.Formed)
    (h : own.merged theirs = .ok r) : r.Formed := by
  obtain ⟨-, -, rfl⟩ := merged_eq_ok.mp h
  exact ⟨headersSound_mergeHeaders hown.headers htheirs.headers,
    contentSound_mergeContent hown.content htheirs.content⟩

theorem Formed.fillDescription {r : Response} (h : r.Formed) (status : String) :
    (r.fillDescription status).Formed where
  headers := by
    rw [fillDescription_headers]
    exact h.headers
  content := by
    rw [fillDescription_content]
    exact h.content

theorem formed_ofModel {r : ApiNotes.Response} (h : r.body.Keyed) : (ofModel r).Formed where
  headers := by
    intro e he s hs
    obtain ⟨header, -, rfl⟩ := List.mem_map.mp ((Dict.ofEntries_spec _).2 e he)
    rw [← Option.some.inj hs]
    exact Schema.sound_string
  content := contentSound_contentOf h r.mimetype

theorem formed_exported {r : ApiNotes.Response} (h : r.body.Keyed) : (exported r).Formed :=
  (formed_ofModel h).fillDescription _

/-- What is formed and passes the check is sound. -/
theorem Formed.sound {r : Response} (h : r.Formed) (hcheck : r.check = .ok ()) : r.Sound where
  toFormed := h
  description := Check.filled_eq_ok.mp hcheck

end Response

/-- Whatever is taken together for an endpoint is formed. -/
theorem formed_responsesOf {e : Endpoint} (he : ∀ r ∈ e.responses, r.body.Keyed)
    {table : Dict Response} (h : responsesOf e = .ok table) : ∀ x ∈ table, x.2.Formed := by
  have hstep : ∀ (_ : List ApiNotes.Response) t r t', r.body.Keyed → (∀ x ∈ t, x.2.Formed) →
      groupStep t r = .ok t' → ∀ x ∈ t', x.2.Formed := by
    intro _ t r t' hr ht hstep x hx
    obtain ⟨m, rfl, hm⟩ := groupStep_ok hstep
    have hformed : m.Formed := by
      rcases hm with ⟨-, rfl⟩ | ⟨own, hown, hmerged⟩
      · exact Response.formed_ofModel hr
      · exact (ht _ (Dict.mem_of_get? hown)).merged (Response.formed_ofModel hr) hmerged
    rcases Dict.mem_insert hx with hx | rfl
    · exact ht x hx
    · exact hformed
  rw [responsesOf_eq] at h
  exact foldlM_invariant hstep e.responses [] [] table he (by simp) h

/-! ### Operations -/

/-- A parameter has its place, and its schema is sound. -/
structure Parameter.Formed (p : Parameter) : Prop where
  location : p.location ∈ ["path", "query", "header"]
  schema : ∀ s, p.schema = some s → s.Sound

/-- It is named as well, and required in a path. -/
structure Parameter.Sound (p : Parameter) : Prop extends Parameter.Formed p where
  name : Text.isBlankText p.name = false
  required : p.location = "path" → p.required = true

/-- A request body has content, and that is sound. -/
structure RequestBody.Sound (body : RequestBody) : Prop where
  nonempty : body.content ≠ []
  content : ContentSound body.content

/-- What is in an operation is sound. -/
structure Operation.Formed (operation : Operation) : Prop where
  parameters : ∀ p ∈ operation.parameters, p.Formed
  requestBody : ∀ body, operation.requestBody = some body → ContentSound body.content
  responses : ∀ e ∈ operation.responses, ∀ r, e.2 = .item r → r.Formed

/-- An operation has responses, and everything in it is sound. -/
structure Operation.Sound (operation : Operation) : Prop where
  parameters : ∀ p ∈ operation.parameters, p.Sound
  requestBody : ∀ body, operation.requestBody = some body → body.Sound
  nonempty : operation.responses ≠ []
  responses : ∀ e ∈ operation.responses, ∀ r, e.2 = .item r → r.Sound

theorem Parameter.formed_ofModel {location : String}
    (hlocation : location ∈ ["path", "query", "header"]) (required : Bool) {q : Param}
    (hq : q.type.Built) : (ofModel location required q).Formed where
  location := hlocation
  schema := by
    intro s hs
    obtain ⟨t, ht, rfl⟩ := Option.map_eq_some_iff.mp hs
    exact Schema.sound_withDescription.mpr (Schema.sound_ofType? hq.keyed ht)

theorem Parameter.formed_ofHeader (h : ApiNotes.Header) : (ofHeader h).Formed where
  location := by simp [ofHeader]
  schema := by
    intro s hs
    rw [← Option.some.inj hs]
    exact Schema.sound_string

theorem formed_parametersOf {e : Endpoint} (he : e.Built) : ∀ p ∈ parametersOf e, p.Formed := by
  intro p hp
  unfold parametersOf at hp
  simp only [List.mem_append, List.mem_map] at hp
  rcases hp with (⟨q, hq, rfl⟩ | ⟨q, hq, rfl⟩) | ⟨h, -, rfl⟩
  · exact Parameter.formed_ofModel (by simp) _ (he.params q hq)
  · exact Parameter.formed_ofModel (by simp) _ (he.queries q hq)
  · exact Parameter.formed_ofHeader h

theorem Operation.formed_ofModel {e : Endpoint} (he : e.Built) {operation : Operation}
    (h : Operation.ofModel e = .ok operation) : operation.Formed := by
  obtain ⟨table, htable, rfl⟩ := operation_ofModel_eq_ok.mp h
  have htables : ∀ x ∈ table, x.2.Formed :=
    formed_responsesOf (fun r hr => (he.responses r hr).keyed) htable
  refine ⟨formed_parametersOf he, ?_, ?_⟩
  · intro body hbody
    obtain ⟨request, hrequest, rfl⟩ := Option.map_eq_some_iff.mp hbody
    exact contentSound_contentOf (he.request request hrequest).keyed request.mimetype
  · intro x hx r hr
    obtain ⟨own, hown, rfl⟩ := List.mem_map.mp hx
    rw [← Referable.item.inj hr]
    exact (htables own hown).fillDescription own.1

/-- A link writes references only. -/
theorem Operation.Formed.link {operation : Operation} (h : operation.Formed)
    (shared : String × Response) : (operation.link shared).Formed := by
  rw [link_eq]
  split
  · refine ⟨h.parameters, h.requestBody, fun e he r hr => ?_⟩
    rcases Dict.mem_insert he with he | rfl
    · exact h.responses e he r hr
    · cases hr
  · exact h

theorem Operation.Formed.linkAll (shared : Dict Response) {operation : Operation}
    (h : operation.Formed) : (operation.linkAll shared).Formed := by
  unfold Operation.linkAll
  induction shared generalizing operation with
  | nil => exact h
  | cons e rest ih => exact ih (h.link e)

theorem Parameter.Formed.sound {p : Parameter} (h : p.Formed) (hcheck : p.check = .ok ()) :
    p.Sound := by
  rw [Parameter.check, check_bind_eq_ok, Check.filled_eq_ok] at hcheck
  obtain ⟨hname, hplace⟩ := hcheck
  refine ⟨h, hname, fun hpath => ?_⟩
  rwa [if_pos hpath, Check.ensure_eq_ok] at hplace

/-- What is formed and passes the checks is sound. -/
theorem Operation.Formed.sound {operation : Operation} (h : operation.Formed)
    (hcheck : operation.check = .ok ()) : operation.Sound := by
  unfold Operation.check at hcheck
  simp only [check_bind_eq_ok, Check.each_eq_ok, Check.optional_eq_ok, Check.ensure_eq_ok,
    Check.entries_eq_ok] at hcheck
  obtain ⟨hparameters, hbody, hresponses, hitems⟩ := hcheck
  refine ⟨fun p hp => (h.parameters p hp).sound (hparameters p hp), ?_, by simpa using hresponses,
    ?_⟩
  · intro body hsome
    have hchecked := hbody body hsome
    rw [RequestBody.check, Check.ensure_eq_ok] at hchecked
    exact ⟨by simpa using hchecked, h.requestBody body hsome⟩
  · intro e he r hr
    have hchecked := (hitems e he).2
    rw [hr] at hchecked
    exact (h.responses e he r hr).sound hchecked

/-! ### Documents -/

/-- A document is sound: there are servers and paths, the operations are sound, and nothing is
shared but responses, which are sound as well. -/
structure Document.Sound (document : Document) : Prop where
  servers : document.servers ≠ []
  paths : document.paths ≠ []
  operations : ∀ p ∈ document.paths, ∀ o ∈ p.2.operations, o.2.Sound
  components : ∀ c, document.components = some c →
    c = { responses := c.responses } ∧ ∀ e ∈ c.responses, e.2.Sound

/-- A document that has passed its checks has servers, and its parts passed theirs. -/
theorem sanitized_eq_ok {doc document : Document} (h : doc.sanitized = .ok document) :
    document.servers ≠ [] ∧ document.checkParts = .ok () := by
  obtain ⟨_, hchecks, rfl⟩ := map_eq_ok.mp h
  unfold Document.sanitize at hchecks ⊢
  cases hhead : doc.fillVersion.checkHead with
  | error fault =>
      simp [hhead] at hchecks
  | ok u =>
      simp only [hhead] at hchecks ⊢
      refine ⟨?_, hchecks⟩
      unfold Document.fillServers
      split
      · simp
      · rename_i hservers
        simpa using hservers

/-- No call shares anything but responses. -/
theorem components_run (calls : List Call) :
    (Draft.run calls).components = { responses := (Draft.run calls).components.responses } := by
  induction calls using List.reverseRecOn with
  | nil => rfl
  | append_singleton calls c ih =>
      rw [Draft.run_append_singleton, Draft.step]
      cases hcall : (Draft.run calls).call c with
      | error fault => exact ih
      | ok d =>
          cases c with
          | info | license | externalDocs | server | group =>
              obtain rfl := Except.ok.inj hcall
              exact ih
          | commonResponse r =>
              rcases addCommonResponse_eq_ok.mp hcall with ⟨-, rfl⟩ | ⟨-, -, -, rfl⟩
              · show ({ (Draft.run calls).components with responses := _ } : Components) = _
                rw [ih]
              · exact ih
          | endpoint e =>
              obtain ⟨-, operation, -, rfl⟩ := addEndpoint_eq_ok.mp hcall
              exact ih

section Finished

variable {calls : List Call} {document : Document} (hbuilt : ∀ c ∈ calls, c.Built)
  (h : (Draft.run calls).build = .ok document)

include hbuilt h

/-- The operations of a finished document are formed. -/
theorem formed_operation {p : String × PathItem} (hp : p ∈ document.paths)
    {o : Method × Operation} (ho : o ∈ p.2.operations) : o.2.Formed := by
  have hreached := reached_run calls
  have hnodup : (Dict.keys document.paths).Nodup := by
    have hkeys : Dict.keys (Draft.run calls).document.paths = Dict.keys (Draft.run calls).paths :=
      Dict.keys_mapValues _ _
    rw [(build_eq_ok h).1, hkeys]
    exact hreached.nodup_paths
  have hslot : document.operation? p.1 o.1 = some o.2 := by
    rw [Document.operation?, Dict.get?_of_mem hnodup hp, Option.bind_some]
    exact PathItem.mem_operations.mp ho
  rw [operation?_of_build h] at hslot
  obtain ⟨own, hown, hlinked⟩ := Option.map_eq_some_iff.mp hslot
  obtain ⟨e, he, -, -, hoperation⟩ := hreached.slots p.1 o.1 own hown
  rw [← hlinked]
  exact (Operation.formed_ofModel (hbuilt _ he) hoperation).linkAll _

/-- The shared responses of a finished document are formed. -/
theorem formed_shared {c : Components} (hc : document.components = some c) :
    c = (Draft.run calls).components ∧ ∀ e ∈ c.responses, e.2.Formed := by
  have hreached := reached_run calls
  have hcomponents : c = (Draft.run calls).components := by
    have hsome : (if (Draft.run calls).components.isEmpty then none
        else some (Draft.run calls).components) = some c := by
      rw [← hc, (build_eq_ok h).2]
      rfl
    split at hsome
    · cases hsome
    · exact (Option.some.inj hsome).symm
  refine ⟨hcomponents, fun e he => ?_⟩
  rw [hcomponents] at he
  obtain ⟨r, hr, -, hexported⟩ :=
    hreached.shared e.1 e.2 (Dict.get?_of_mem hreached.nodup_shared he)
  have hkeyed : r.body.Keyed := Body.Built.keyed (hbuilt _ hr)
  rw [hexported]
  exact Response.formed_exported hkeyed

end Finished

/-- **Finished documents are sound.**  Whatever calls are made with types that were built, in any
order and with failures in between: when the draft can be finished, the document is sound, at every
depth of its schemas. -/
theorem build_sound {calls : List Call} {document : Document} (hbuilt : ∀ c ∈ calls, c.Built)
    (h : (Draft.run calls).build = .ok document) : document.Sound := by
  obtain ⟨hservers, hchecks⟩ := sanitized_eq_ok h
  unfold Document.checkParts at hchecks
  simp only [check_bind_eq_ok, Check.ensure_eq_ok, Check.entries_eq_ok,
    Check.optional_eq_ok] at hchecks
  obtain ⟨-, hpaths, hitems, hshared, -⟩ := hchecks
  refine ⟨hservers, by simpa using hpaths, fun p hp o ho => ?_, fun c hc => ?_⟩
  · have hitem := (hitems p hp).2
    rw [PathItem.check, Check.forM_eq_ok] at hitem
    exact (formed_operation hbuilt h hp ho).sound (mapError_eq_ok.mp (hitem o ho))
  · obtain ⟨hcomponents, hformed⟩ := formed_shared hbuilt h hc
    refine ⟨?_, fun e he => ?_⟩
    · rw [hcomponents]
      exact components_run calls
    · have hchecked := hshared c hc
      unfold Components.check at hchecked
      simp only [check_bind_eq_ok, Check.entries_eq_ok] at hchecked
      exact (hformed e he).sound (hchecked.2.1 e he).2

/-- Pets, each with an owner, who has a name. -/
def ownedPets : DataType :=
  .array (some (.object [("owner", ⟨"owner",
    .object [("name", ⟨"name", .leaf .string "", false, ""⟩)] "", false, "who keeps it"⟩)] "")) ""

/-- The type is read from its token and given two members, the second in the first. -/
theorem built_ownedPets : ownedPets.Built := by
  have hparse : DataType.parse "array.object" = .ok (.array (some (.object [] "")) "") := rfl
  have hname : (DataType.leaf .string "").Built := .leaf .string ""
  have howner : (DataType.object [] "").Built := .object ""
  have howned : (DataType.array (some (.object
      [("owner", ⟨"owner", .object [] "", false, "who keeps it"⟩)] "")) "").Built :=
    .attached (.parsed hparse) (p := ⟨"owner", .object [] "", false, "who keeps it"⟩) howner
      "owner" [] rfl
  exact .attached howned (p := ⟨"name", .leaf .string "", false, ""⟩) hname "name" ["owner"] rfl

/-- An endpoint that takes pets, with samples, and answers in two mimetypes; one that is refused,
since it has the slot of the first; and a shared response. -/
def adoptPetCalls : List Call :=
  [.commonResponse { status := 404, mimetype := "*" },
    .endpoint
      { method := .put
        path := "/pets/:id"
        params := [⟨"id", .leaf .string "", false, ""⟩]
        queries := [⟨"silent", .leaf .bool "", true, ""⟩]
        request := some
          { mimetype := "application/json"
            body := { type := some ownedPets, examples := [⟨"*", "", "[]"⟩, ⟨"*", "none", "{}"⟩] } }
        responses := [plainResponse 200 "adopted",
          { status := 200, mimetype := "*", body := { type := some (.array none "all pets") } }] },
    .endpoint { method := .put, path := "/pets/{id}" }]

theorem built_adoptPetCalls : ∀ c ∈ adoptPetCalls, c.Built := by
  intro c hc
  simp only [adoptPetCalls, List.mem_cons, List.not_mem_nil, or_false] at hc
  rcases hc with rfl | rfl | rfl
  · intro t ht
    cases ht
  · refine ⟨?_, ?_, ?_, ?_⟩
    · simpa using .leaf .string ""
    · simpa using .leaf .bool ""
    · intro request hrequest t ht
      rw [← Option.some.inj hrequest] at ht
      rw [← Option.some.inj ht]
      exact built_ownedPets
    · rw [List.forall_mem_cons, List.forall_mem_singleton]
      refine ⟨fun t ht => ?_, fun t ht => ?_⟩
      · rw [← Option.some.inj ht]
        exact .leaf .string "adopted"
      · rw [← Option.some.inj ht]
        exact .bare "all pets"
  · exact ⟨by simp, by simp, by simp, by simp⟩

theorem build_adoptPet : ∃ document, (Draft.run adoptPetCalls).build = .ok document ∧
    document.Sound ∧
    (document.operation? "/pets/{id}" .put).map (fun operation => Dict.keys operation.responses) =
      some ["200", "404"] := by
  obtain ⟨document, hdocument, hoperation⟩ : ∃ document,
      (Draft.run adoptPetCalls).build = .ok document ∧
      (document.operation? "/pets/{id}" .put).map
        (fun operation => Dict.keys operation.responses) = some ["200", "404"] := ⟨_, rfl, rfl⟩
  exact ⟨document, hdocument, build_sound built_adoptPetCalls hdocument, hoperation⟩

end OpenApi

end ApiNotes
