/-
Responses of one status, taken together.

An endpoint may declare a status several times, for instance once per mimetype, and the
document has one response for each status.  `Combines` says what that response is made
of: every declared header, every schema under each of its names, and all examples in
order of declaration.  Merging one response more keeps that relation, and the merge goes
through exactly when the new response is `Compatible` with each of those before it; so
the fold over all responses goes through exactly when every two of one status are
compatible.
-/
import ApiNotes.Proofs.Merge
import ApiNotes.Proofs.Validity

namespace ApiNotes

namespace OpenApi

theorem keyed_bodySchema {body : Body} (h : body.Keyed) {s : Schema}
    (hs : bodySchema body = some s) :
    s.Keyed := by
  unfold bodySchema at hs
  cases ht : body.type with
  | none => rw [ht] at hs; cases hs
  | some t =>
      rw [ht, Option.bind_some] at hs
      have hkeyed := Schema.keyed_ofType? (h t ht)
      rwa [hs] at hkeyed

/-! ### Headers of annotations -/

theorem nonEmpty?_inj {a b : String} (h : nonEmpty? a = nonEmpty? b) : a = b := by
  unfold nonEmpty? at h
  by_cases ha : a.isEmpty = true <;> by_cases hb : b.isEmpty = true <;> simp_all

theorem header_beq (a b : Header) :
    (a == b) = true ↔ a.description = b.description ∧ a.required = b.required ∧
      (a.schema == b.schema) = true := by
  obtain ⟨d, r, s⟩ := a
  obtain ⟨d', r', s'⟩ := b
  show ((d == d') && ((r == r') && (s == s'))) = true ↔ _
  simp

theorem header_ofModel_beq (h h' : ApiNotes.Header) :
    (Header.ofModel h == Header.ofModel h') = true ↔
      h.summary = h'.summary ∧ h.optional = h'.optional := by
  have hschema : (some (Schema.named "string") == some (Schema.named "string")) = true := by decide
  rw [header_beq]
  unfold Header.ofModel
  simp only [hschema, and_true]
  constructor
  · rintro ⟨hsummary, hoptional⟩
    exact ⟨nonEmpty?_inj hsummary, by simpa using hoptional⟩
  · rintro ⟨hsummary, hoptional⟩
    rw [hsummary, hoptional]
    exact ⟨rfl, rfl⟩

theorem header_ofModel_eq_of_beq {h h' : ApiNotes.Header}
    (hbeq : (Header.ofModel h == Header.ofModel h') = true) :
    Header.ofModel h = Header.ofModel h' := by
  obtain ⟨hsummary, hoptional⟩ := (header_ofModel_beq h h').mp hbeq
  unfold Header.ofModel
  rw [hsummary, hoptional]

namespace Response

theorem ofModel_headers {r : ApiNotes.Response} (hr : r.Regular) :
    (ofModel r).headers = r.body.headers.map fun h => (h.name, Header.ofModel h) := by
  refine Dict.ofEntries_of_nodup ?_
  rw [Dict.keys, List.map_map]
  exact hr.headers

theorem nodup_keys_ofModel_headers {r : ApiNotes.Response} (hr : r.Regular) :
    (Dict.keys (ofModel r).headers).Nodup := by
  rw [ofModel_headers hr, Dict.keys, List.map_map]
  exact hr.headers

theorem mem_ofModel_headers {r : ApiNotes.Response} (hr : r.Regular) {e : String × Header} :
    e ∈ (ofModel r).headers ↔ ∃ h ∈ r.body.headers, e = (h.name, Header.ofModel h) := by
  rw [ofModel_headers hr, List.mem_map]
  exact ⟨fun ⟨h, hh, he⟩ => ⟨h, hh, he.symm⟩, fun ⟨h, hh, he⟩ => ⟨h, hh, he.symm⟩⟩

theorem get?_ofModel_headers {r : ApiNotes.Response} (hr : r.Regular) {h : ApiNotes.Header}
    (hh : h ∈ r.body.headers) :
    Dict.get? (ofModel r).headers h.name = some (Header.ofModel h) := by
  have hmem : (h.name, Header.ofModel h) ∈ (ofModel r).headers :=
    (mem_ofModel_headers hr).mpr ⟨h, hh, rfl⟩
  exact Dict.get?_of_mem (nodup_keys_ofModel_headers hr) hmem

/-! ### Compatible responses -/

/-- Two responses can stand under one status: what both declare, a header or a schema, is the
same on both. -/
structure Compatible (r r' : ApiNotes.Response) : Prop where
  headers : ∀ h ∈ r.body.headers, ∀ h' ∈ r'.body.headers, h.name = h'.name →
    h.summary = h'.summary ∧ h.optional = h'.optional
  schemas : ∀ name ∈ contentNames r.mimetype r.body, name ∈ contentNames r'.mimetype r'.body →
    ∀ s s', bodySchema r.body = some s → bodySchema r'.body = some s' → (s == s') = true

/-- The first text that is not empty. -/
def firstText (texts : List String) : String := (texts.find? (!·.isEmpty)).getD ""

theorem firstText_append_singleton (texts : List String) (text : String) :
    firstText (texts ++ [text]) =
      if (firstText texts).isEmpty then text else firstText texts := by
  unfold firstText
  rw [List.find?_append]
  cases hfind : texts.find? (!·.isEmpty) with
  | none =>
      by_cases htext : text.isEmpty = true
      · have hnil : text = "" := by simpa using htext
        simp [hnil]
      · simp [htext]
  | some found =>
      have hfound := List.find?_some hfind
      simp only [Bool.not_eq_eq_eq_not, Bool.not_true] at hfound
      simp [hfound]

/-- The headers of a response are those declared for its status. -/
structure CombinesHeaders (declared : List ApiNotes.Response) (headers : Dict Header) : Prop where
  nodup : (Dict.keys headers).Nodup
  /-- Every declared header stands as it was declared. -/
  stands : ∀ d ∈ declared, ∀ h ∈ d.body.headers,
    Dict.get? headers h.name = some (Header.ofModel h)
  /-- There are no other headers. -/
  names : ∀ name ∈ Dict.keys headers, ∃ d ∈ declared, ∃ h ∈ d.body.headers, h.name = name

/-- The content of a response is that declared for its status. -/
structure CombinesContent (declared : List ApiNotes.Response) (content : Dict MediaType) :
    Prop where
  nodup : (Dict.keys content).Nodup
  numbered : Numbered content
  /-- Every declared schema stands under each of its names. -/
  schema : ∀ d ∈ declared, ∀ name ∈ contentNames d.mimetype d.body, ∀ s,
    bodySchema d.body = some s → ∃ t, schemaAt content name = some t ∧ (t == s) = true
  /-- There are no other schemas. -/
  schemaNames : ∀ name t, schemaAt content name = some t →
    ∃ d ∈ declared, name ∈ contentNames d.mimetype d.body ∧ bodySchema d.body = some t
  names : ∀ name, name ∈ Dict.keys content ↔
    ∃ d ∈ declared, name ∈ contentNames d.mimetype d.body
  examples : ∀ name, examplesAt content name =
    declared.flatMap fun d => examplesUnder name d.body.examples

/-- A response is made of the responses declared for its status. -/
structure Combines (declared : List ApiNotes.Response) (r : Response) : Prop where
  description : r.description = firstText (declared.map fun d => bodyDescription d.body)
  headers : CombinesHeaders declared r.headers
  content : CombinesContent declared r.content

/-! ### A single response -/

section Single

variable {r : ApiNotes.Response} (hr : r.Regular)

include hr

theorem combinesHeaders_singleton : CombinesHeaders [r] (ofModel r).headers where
  nodup := nodup_keys_ofModel_headers hr
  stands := by
    intro d hd h hh
    rw [List.mem_singleton.mp hd] at hh
    exact get?_ofModel_headers hr hh
  names := by
    intro name hname
    obtain ⟨e, he, rfl⟩ := List.mem_map.mp hname
    obtain ⟨h, hh, rfl⟩ := (mem_ofModel_headers hr).mp he
    exact ⟨r, List.mem_singleton_self r, h, hh, rfl⟩

theorem combinesContent_singleton : CombinesContent [r] (contentOf r.mimetype r.body) where
  nodup := nodup_keys_contentOf r.mimetype r.body
  numbered := numbered_contentOf r.mimetype r.body
  schema := by
    intro d hd name hname s hs
    rw [List.mem_singleton.mp hd] at hname hs
    exact ⟨s, by rw [schemaAt_contentOf, if_pos hname, hs],
      Schema.same_refl (keyed_bodySchema hr.keyed hs)⟩
  schemaNames := by
    intro name t ht
    rw [schemaAt_contentOf] at ht
    split at ht
    · rename_i hname
      exact ⟨r, List.mem_singleton_self r, hname, ht⟩
    · cases ht
  names := by
    intro name
    rw [mem_keys_contentOf]
    simp
  examples := by
    intro name
    rw [examplesAt_contentOf]
    simp

theorem combines_singleton : Combines [r] (ofModel r) where
  description := by
    have hfirst := firstText_append_singleton [] (bodyDescription r.body)
    rw [List.nil_append, if_pos (by rfl)] at hfirst
    exact hfirst.symm
  headers := combinesHeaders_singleton hr
  content := combinesContent_singleton hr

end Single

/-! ### Merging one response more -/

variable {declared : List ApiNotes.Response} {headers : Dict Header} {content : Dict MediaType}
  {own m : Response} {r : ApiNotes.Response}

/-- Header by header, one response more agrees with what stands exactly when it declares the same
as each response before it. -/
theorem headersAgree_iff (h : CombinesHeaders declared headers) (hr : r.Regular) :
    HeadersAgree headers (ofModel r).headers ↔
      ∀ d ∈ declared, ∀ x ∈ d.body.headers, ∀ y ∈ r.body.headers, x.name = y.name →
        x.summary = y.summary ∧ x.optional = y.optional := by
  constructor
  · intro hagree d hd x hx y hy hxy
    have hmem : (y.name, Header.ofModel y) ∈ (ofModel r).headers :=
      (mem_ofModel_headers hr).mpr ⟨y, hy, rfl⟩
    exact (header_ofModel_beq x y).mp (hagree _ hmem _ (hxy ▸ h.stands d hd x hx))
  · intro hall e he mine hmine
    obtain ⟨y, hy, rfl⟩ := (mem_ofModel_headers hr).mp he
    obtain ⟨d, hd, x, hx, hxy⟩ := h.names y.name (Dict.mem_keys_of_get? hmine)
    have hstands := h.stands d hd x hx
    rw [hxy, hmine, Option.some.injEq] at hstands
    rw [hstands]
    exact (header_ofModel_beq x y).mpr (hall d hd x hx y hy hxy)

/-- Mimetype by mimetype, one response more agrees with what stands exactly when it has the schema
of each response before it. -/
theorem schemasAgree_iff (h : CombinesContent declared content)
    (hdeclared : ∀ d ∈ declared, d.Regular) :
    SchemasAgree content (contentOf r.mimetype r.body) ↔
      ∀ d ∈ declared, ∀ name ∈ contentNames d.mimetype d.body,
        name ∈ contentNames r.mimetype r.body → ∀ s s', bodySchema d.body = some s →
          bodySchema r.body = some s' → (s == s') = true := by
  constructor
  · intro hagree d hd name hname hname' s s' hs hs'
    obtain ⟨t, ht, hts⟩ := h.schema d hd name hname s hs
    obtain ⟨d', hd', -, ht'⟩ := h.schemaNames name t ht
    obtain ⟨media, hmedia⟩ := Dict.exists_get?_of_mem_keys (mem_keys_contentOf.mpr hname')
    have hschema : media.schema = some s' := by
      rw [get?_contentOf, if_pos hname', Option.some.injEq] at hmedia
      rw [← hmedia, hs']
    have hts' : (t == s') = true := hagree _ (Dict.mem_of_get? hmedia) t s' ht hschema
    have hst : (s == t) = true := Schema.same_symm (keyed_bodySchema (hdeclared d' hd').keyed ht')
      (keyed_bodySchema (hdeclared d hd).keyed hs) hts
    exact Schema.same_trans hst hts'
  · intro hall e he s t hs ht
    obtain ⟨d, hd, hname, hs'⟩ := h.schemaNames e.1 s hs
    have hget := Dict.get?_of_mem (nodup_keys_contentOf r.mimetype r.body) he
    have hname' : e.1 ∈ contentNames r.mimetype r.body :=
      mem_keys_contentOf.mp (Dict.mem_keys_of_get? hget)
    rw [get?_contentOf, if_pos hname', Option.some.injEq] at hget
    refine hall d hd e.1 hname hname' s t hs' ?_
    rw [← ht, ← hget]

/-- One response more goes in exactly when it is compatible with each of those before it. -/
theorem merged_isOk_iff_compatible (h : Combines declared own)
    (hdeclared : ∀ d ∈ declared, d.Regular) (hr : r.Regular) :
    (∃ m, own.merged (ofModel r) = .ok m) ↔ ∀ d ∈ declared, Compatible d r := by
  have hschemas : SchemasAgree own.content (ofModel r).content ↔ _ :=
    schemasAgree_iff h.content hdeclared
  rw [merged_isOk_iff (nodup_keys_ofModel_headers hr) (nodup_keys_contentOf r.mimetype r.body),
    headersAgree_iff h.headers hr, hschemas]
  exact ⟨fun hboth d hd => ⟨hboth.1 d hd, hboth.2 d hd⟩,
    fun hall => ⟨fun d hd => (hall d hd).headers, fun d hd => (hall d hd).schemas⟩⟩

theorem combinesHeaders_merged (h : CombinesHeaders declared headers) (hr : r.Regular)
    (hok : (mergeHeaders headers (ofModel r).headers).2 = .ok ()) :
    CombinesHeaders (declared ++ [r]) (mergeHeaders headers (ofModel r).headers).1 := by
  have hagree := (mergeHeaders_ok_iff (nodup_keys_ofModel_headers hr)).mp hok
  have hget := get?_mergeHeaders hok
  refine ⟨nodup_keys_mergeHeaders h.nodup, ?_, ?_⟩
  · intro d hd x hx
    rw [hget]
    rcases List.mem_append.mp hd with hd | hd
    · rw [h.stands d hd x hx, Option.some_or]
    · rw [List.mem_singleton.mp hd] at hx
      rw [get?_ofModel_headers hr hx]
      cases hmine : Dict.get? headers x.name with
      | none => rfl
      | some mine =>
          -- the header that stands came from an annotation, so the same means equal
          obtain ⟨d', hd', y, hy, hyx⟩ := h.names x.name (Dict.mem_keys_of_get? hmine)
          have hstands := h.stands d' hd' y hy
          rw [hyx, hmine, Option.some.injEq] at hstands
          have hbeq := hagree _ ((mem_ofModel_headers hr).mpr ⟨x, hx, rfl⟩) mine hmine
          rw [hstands] at hbeq ⊢
          rw [Option.some_or, header_ofModel_eq_of_beq hbeq]
  · intro name hname
    obtain ⟨v, hv⟩ := Dict.exists_get?_of_mem_keys hname
    rw [hget, Option.or_eq_some_iff] at hv
    rcases hv with hv | ⟨-, hv⟩
    · obtain ⟨d, hd, x, hx, hxn⟩ := h.names name (Dict.mem_keys_of_get? hv)
      exact ⟨d, List.mem_append_left _ hd, x, hx, hxn⟩
    · obtain ⟨x, hx, hxe⟩ := (mem_ofModel_headers hr).mp (Dict.mem_of_get? hv)
      exact ⟨r, by simp, x, hx, (congrArg Prod.fst hxe).symm⟩

theorem combinesContent_merged (h : CombinesContent declared content) (hr : r.Regular)
    (hok : (mergeContent content (contentOf r.mimetype r.body)).2 = .ok ()) :
    CombinesContent (declared ++ [r]) (mergeContent content (contentOf r.mimetype r.body)).1 := by
  have hnodup := nodup_keys_contentOf r.mimetype r.body
  have hagree := (mergeContent_ok_iff hnodup).mp hok
  have hnumbered := numbered_contentOf r.mimetype r.body
  have hschema := schemaAt_mergeContent h.numbered hnumbered hnodup hok
  refine ⟨nodup_keys_mergeContent h.nodup, numbered_mergeContent h.numbered hnumbered hnodup hok,
    ?_, ?_, ?_, ?_⟩
  · intro d hd name hname s hs
    rw [hschema]
    rcases List.mem_append.mp hd with hd | hd
    · obtain ⟨t, ht, hts⟩ := h.schema d hd name hname s hs
      exact ⟨t, by rw [ht, Option.some_or], hts⟩
    · rw [List.mem_singleton.mp hd] at hname hs
      rw [schemaAt_contentOf, if_pos hname, hs]
      cases hmine : schemaAt content name with
      | none => exact ⟨s, rfl, Schema.same_refl (keyed_bodySchema hr.keyed hs)⟩
      | some t =>
          obtain ⟨media, hmedia⟩ := Dict.exists_get?_of_mem_keys (mem_keys_contentOf.mpr hname)
          refine ⟨t, rfl, hagree _ (Dict.mem_of_get? hmedia) t s hmine ?_⟩
          rw [get?_contentOf, if_pos hname, Option.some.injEq] at hmedia
          rw [← hmedia, hs]
  · intro name t ht
    rw [hschema, Option.or_eq_some_iff, schemaAt_contentOf] at ht
    rcases ht with ht | ⟨-, ht⟩
    · obtain ⟨d, hd, hrest⟩ := h.schemaNames name t ht
      exact ⟨d, List.mem_append_left _ hd, hrest⟩
    · split at ht
      · rename_i hname
        exact ⟨r, by simp, hname, ht⟩
      · cases ht
  · intro name
    rw [mem_keys_mergeContent hnodup hok, h.names, mem_keys_contentOf]
    simp only [List.mem_append, List.mem_singleton, or_and_right, exists_or, exists_eq_left]
  · intro name
    rw [examplesAt_mergeContent h.numbered hnumbered hnodup hok, h.examples, examplesAt_contentOf]
    simp

/-- What stands after one response more is made of that one too. -/
theorem combines_merged (h : Combines declared own) (hr : r.Regular)
    (hm : own.merged (ofModel r) = .ok m) : Combines (declared ++ [r]) m := by
  obtain ⟨hheaders, hcontent, rfl⟩ := merged_eq_ok.mp hm
  refine ⟨?_, combinesHeaders_merged h.headers hr hheaders,
    combinesContent_merged h.content hr hcontent⟩
  rw [List.map_append, List.map_singleton, firstText_append_singleton, ← h.description]
  rfl

end Response

/-! ### All responses of an endpoint -/

/-- One response more in a table of responses by status. -/
def groupStep (table : Dict Response) (response : ApiNotes.Response) : Checked (Dict Response) :=
  let status := toString response.status
  let converted := Response.ofModel response
  match Dict.get? table status with
  | none => .ok (Dict.insert table status converted)
  | some own =>
    match own.merged converted with
    | .ok merged => .ok (Dict.insert table status merged)
    | .error fault => .error (fault.withinKey "responses" status)

theorem responsesOf_eq (e : Endpoint) : responsesOf e = e.responses.foldlM groupStep [] := rfl

/-- The responses that a status was declared with. -/
def withStatus (k : String) (responses : List ApiNotes.Response) : List ApiNotes.Response :=
  responses.filter fun d => toString d.status == k

theorem mem_withStatus {k : String} {responses : List ApiNotes.Response} {d : ApiNotes.Response} :
    d ∈ withStatus k responses ↔ d ∈ responses ∧ toString d.status = k := by
  rw [withStatus, List.mem_filter, beq_iff_eq]

theorem withStatus_append_singleton (k : String) (responses : List ApiNotes.Response)
    (r : ApiNotes.Response) :
    withStatus k (responses ++ [r]) =
      withStatus k responses ++ if toString r.status = k then [r] else [] := by
  rw [withStatus, withStatus, List.filter_append]
  by_cases h : toString r.status = k
  · rw [if_pos h, List.filter_cons_of_pos (by simpa using h), List.filter_nil]
  · rw [if_neg h, List.filter_cons_of_neg (by simpa using h), List.filter_nil]

/-- What a table of responses by status holds after some responses. -/
structure Grouped (before : List ApiNotes.Response) (table : Dict Response) : Prop where
  regular : ∀ d ∈ before, d.Regular
  nodup : (Dict.keys table).Nodup
  mem_keys : ∀ k, k ∈ Dict.keys table ↔ ∃ d ∈ before, toString d.status = k
  group : ∀ k r, Dict.get? table k = some r → (withStatus k before) ≠ [] ∧
    Response.Combines (withStatus k before) r

theorem grouped_nil : Grouped [] [] where
  regular := by simp
  nodup := by simp
  mem_keys := by simp
  group := by simp

theorem withStatus_eq_nil {before : List ApiNotes.Response} {table : Dict Response}
    (h : Grouped before table) {k : String} (hk : Dict.get? table k = none) :
    withStatus k before = [] := by
  rw [List.eq_nil_iff_forall_not_mem]
  intro d hd
  obtain ⟨hmem, hstatus⟩ := mem_withStatus.mp hd
  exact Dict.get?_eq_none_iff.mp hk ((h.mem_keys k).mpr ⟨d, hmem, hstatus⟩)

/-- A step writes the response under its status and leaves the others. -/
theorem groupStep_ok {table table' : Dict Response} {r : ApiNotes.Response}
    (h : groupStep table r = .ok table') :
    ∃ m, table' = Dict.insert table (toString r.status) m ∧
      ((Dict.get? table (toString r.status) = none ∧ m = Response.ofModel r) ∨
        ∃ own, Dict.get? table (toString r.status) = some own ∧
          own.merged (Response.ofModel r) = .ok m) := by
  unfold groupStep at h
  simp only at h
  split at h
  · rename_i hnone
    exact ⟨_, (Except.ok.inj h).symm, Or.inl ⟨hnone, rfl⟩⟩
  · rename_i own hown
    split at h
    · rename_i m hm
      exact ⟨m, (Except.ok.inj h).symm, Or.inr ⟨own, hown, hm⟩⟩
    · cases h

theorem grouped_step {before : List ApiNotes.Response} {table table' : Dict Response}
    {r : ApiNotes.Response} (hr : r.Regular) (h : Grouped before table)
    (hstep : groupStep table r = .ok table') : Grouped (before ++ [r]) table' := by
  obtain ⟨m, rfl, hm⟩ := groupStep_ok hstep
  refine ⟨?_, Dict.nodup_keys_insert h.nodup _ _, ?_, ?_⟩
  · intro d hd
    rcases List.mem_append.mp hd with hd | hd
    · exact h.regular d hd
    · rw [List.mem_singleton.mp hd]; exact hr
  · intro k
    rw [Dict.mem_keys_insert, h.mem_keys]
    simp only [List.mem_append, List.mem_singleton, or_and_right, exists_or, exists_eq_left]
    rw [eq_comm]
  · intro k r' hr'
    rw [Dict.get?_insert] at hr'
    rw [withStatus_append_singleton]
    by_cases hk : toString r.status = k
    · rw [if_pos hk] at hr' ⊢
      rw [← Option.some.inj hr']
      refine ⟨by simp, ?_⟩
      rcases hm with ⟨hnone, rfl⟩ | ⟨own, hown, hmerged⟩
      · rw [withStatus_eq_nil h (hk ▸ hnone), List.nil_append]
        exact Response.combines_singleton hr
      · exact Response.combines_merged (h.group k own (hk ▸ hown)).2 hr hmerged
    · rw [if_neg hk] at hr' ⊢
      rw [List.append_nil]
      exact h.group k r' hr'

theorem groupStep_isOk_iff {before : List ApiNotes.Response} {table : Dict Response}
    {r : ApiNotes.Response} (hr : r.Regular) (h : Grouped before table) :
    (∃ table', groupStep table r = .ok table') ↔
      ∀ d ∈ before, d.status = r.status → Response.Compatible d r := by
  have hwith : (∀ d ∈ before, d.status = r.status → Response.Compatible d r) ↔
      ∀ d ∈ withStatus (toString r.status) before, Response.Compatible d r := by
    refine forall_congr' fun d => ?_
    rw [mem_withStatus]
    exact ⟨fun hall ⟨hd, hs⟩ => hall hd (Text.toString_nat_inj hs),
      fun hall hd hs => hall ⟨hd, by rw [hs]⟩⟩
  rw [hwith]
  unfold groupStep
  simp only
  split
  · rename_i hnone
    rw [withStatus_eq_nil h hnone]
    simp
  · rename_i own hown
    have hgroup := (h.group _ own hown).2
    rw [← Response.merged_isOk_iff_compatible hgroup
      (fun d hd => h.regular d (mem_withStatus.mp hd).1) hr]
    cases own.merged (Response.ofModel r) <;> simp

/-- The responses of an endpoint by status, each made of those declared for it. -/
theorem responsesOf_grouped {e : Endpoint} (he : ∀ r ∈ e.responses, r.Regular)
    {table : Dict Response} (h : responsesOf e = .ok table) : Grouped e.responses table :=
  foldlM_invariant (fun _ _ _ _ hr => grouped_step hr) e.responses [] [] table he grouped_nil h

/-- **When responses merge.**  The responses of an endpoint can be taken together exactly when
every two of one status are compatible. -/
theorem responsesOf_isOk_iff {e : Endpoint} (he : ∀ r ∈ e.responses, r.Regular) :
    (∃ table, responsesOf e = .ok table) ↔
      e.responses.Pairwise fun r r' => r.status = r'.status → Response.Compatible r r' := by
  have hfold : (∃ table, e.responses.foldlM groupStep [] = .ok table) ↔
      (∀ r ∈ e.responses, True ∧ ∀ d ∈ ([] : List ApiNotes.Response),
        d.status = r.status → Response.Compatible d r) ∧
      e.responses.Pairwise fun r r' => r.status = r'.status → Response.Compatible r r' :=
    foldlM_isOk_iff (fun _ _ _ _ hr => grouped_step hr)
      (fun before table r hr h => by rw [groupStep_isOk_iff hr h, true_and])
      e.responses [] [] he grouped_nil
  rw [responsesOf_eq, hfold]
  simp

end OpenApi

end ApiNotes
