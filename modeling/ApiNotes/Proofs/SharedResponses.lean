/-
Shared responses, twice declared.

A document may declare a shared response several times as long as all declarations are
the same.  That is asked twice: of the annotations, where the order of an object's
members does not count, and of the responses made from them, where it shows in the list
of required members.  So the second question is the stricter one.  `same_exported_iff`
says by how much, and `addCommonResponses_spec` what that does to a document: shared
responses go in exactly when repeated ones list their required members in one order.
-/
import ApiNotes.Proofs.Grouping

namespace ApiNotes

theorem option_beq {α : Type} [BEq α] {x y : Option α} :
    (x == y) = true ↔ Option.Rel (fun a b => (a == b) = true) x y := by
  rw [OpenApi.Schema.optionRel_iff]
  cases x <;> cases y <;> simp

/-! ### The test on annotations, field by field -/

/-- The types of two bodies list their required members in the same order, at every depth. -/
def Body.Aligned (a b : Body) : Prop :=
  ∀ t t', a.type = some t → b.type = some t' → DataType.Aligned t t'

theorem Body.beq_iff {a b : Body} :
    (a == b) = true ↔ a.headers = b.headers ∧ a.examples = b.examples ∧
      Option.Rel (fun t t' => DataType.same t t' = true) a.type b.type := by
  obtain ⟨headers, examples, type⟩ := a
  obtain ⟨headers', examples', type'⟩ := b
  show (headers == headers' && (examples == examples' && type == type')) = true ↔ _
  rw [Bool.and_eq_true, Bool.and_eq_true, beq_iff_eq, beq_iff_eq, option_beq]
  rfl

theorem Response.beq_iff {a b : Response} :
    (a == b) = true ↔
      a.status = b.status ∧ a.mimetype = b.mimetype ∧ (a.body == b.body) = true := by
  obtain ⟨status, mimetype, body⟩ := a
  obtain ⟨status', mimetype', body'⟩ := b
  show (status == status' && (mimetype == mimetype' && body == body')) = true ↔ _
  rw [Bool.and_eq_true, Bool.and_eq_true, beq_iff_eq, beq_iff_eq]

namespace OpenApi

/-! ### The test on responses -/

theorem mediaType_beq {a b : MediaType} :
    (a == b) = true ↔ Option.Rel (fun s t => Schema.same s t = true) a.schema b.schema ∧
      Dict.sameBy (· == ·) a.examples b.examples = true := by
  have hschema : (a.schema == b.schema) = true ↔
      Option.Rel (fun s t => Schema.same s t = true) a.schema b.schema := option_beq
  rw [← hschema, ← Bool.and_eq_true]
  rfl

theorem example_beq {a b : Example} : (a == b) = true ↔ a = b := by
  obtain ⟨summary, description, value, externalValue⟩ := a
  obtain ⟨summary', description', value', externalValue'⟩ := b
  show (summary == summary' && (description == description' && (value == value' &&
    externalValue == externalValue'))) = true ↔ _
  simp

/-- Numbered examples that are the same are the same in order. -/
theorem eq_of_sameBy_numbered {es es' : List Example}
    (h : Dict.sameBy (· == ·) (numbered es) (numbered es') = true) : es = es' := by
  rw [Dict.sameBy_iff (nodup_keys_numbered es) (nodup_keys_numbered es')] at h
  refine List.ext_getElem? fun i => ?_
  have hi := h (exampleKey (i + 1))
  rw [get?_numbered, get?_numbered] at hi
  rcases Schema.optionRel_iff.mp hi with ⟨hx, hy⟩ | ⟨x, y, hx, hy, hxy⟩
  · rw [hx, hy]
  · rw [hx, hy, example_beq.mp hxy]

/-- The tables of a response have distinct keys, down to its schemas. -/
structure Response.Keyed (r : Response) : Prop where
  headers : (Dict.keys r.headers).Nodup
  headerSchemas : ∀ e ∈ r.headers, ∀ s, e.2.schema = some s → s.Keyed
  content : (Dict.keys r.content).Nodup
  schemas : ∀ e ∈ r.content, ∀ s, e.2.schema = some s → s.Keyed
  examples : ∀ e ∈ r.content, (Dict.keys e.2.examples).Nodup

/-- Whether two headers carry the same, field by field. -/
theorem header_beq_iff {a b : Header} :
    (a == b) = true ↔ a.description = b.description ∧ a.required = b.required ∧
      Option.Rel (fun s t => Schema.same s t = true) a.schema b.schema := by
  rw [header_beq, option_beq]
  rfl

theorem response_beq {a b : Response} :
    (a == b) = true ↔ a.description = b.description ∧
      Dict.sameBy (· == ·) a.headers b.headers = true ∧
      Dict.sameBy (· == ·) a.content b.content = true := by
  show (a.description == b.description && Dict.sameBy (· == ·) a.headers b.headers &&
    sameContent a.content b.content) = true ↔ _
  rw [Bool.and_eq_true, Bool.and_eq_true, beq_iff_eq, and_assoc]
  rfl

theorem schemaRel_refl {x : Option Schema} (h : ∀ s, x = some s → s.Keyed) :
    Option.Rel (fun s t => Schema.same s t = true) x x := by
  cases x with
  | none => exact .none
  | some s => exact .some (Schema.same_refl (h s rfl))

theorem schemaRel_symm {x y : Option Schema} (hx : ∀ s, x = some s → s.Keyed)
    (hy : ∀ s, y = some s → s.Keyed) (h : Option.Rel (fun s t => Schema.same s t = true) x y) :
    Option.Rel (fun s t => Schema.same s t = true) y x := by
  cases h with
  | none => exact .none
  | some hst => exact .some (Schema.same_symm (hx _ rfl) (hy _ rfl) hst)

theorem schemaRel_trans {x y z : Option Schema}
    (h : Option.Rel (fun s t => Schema.same s t = true) x y)
    (h' : Option.Rel (fun s t => Schema.same s t = true) y z) :
    Option.Rel (fun s t => Schema.same s t = true) x z := by
  cases h with
  | none => exact h'
  | some hst =>
      cases h' with
      | some htu => exact .some (Schema.same_trans hst htu)

namespace Response

theorem same_refl {r : Response} (h : r.Keyed) : (r == r) = true := by
  refine response_beq.mpr ⟨rfl, Dict.sameBy_refl h.headers fun e he => ?_,
    Dict.sameBy_refl h.content fun e he => ?_⟩
  · exact header_beq_iff.mpr ⟨rfl, rfl, schemaRel_refl (h.headerSchemas e he)⟩
  · refine mediaType_beq.mpr ⟨schemaRel_refl (h.schemas e he), ?_⟩
    exact Dict.sameBy_refl (h.examples e he) fun e' _ => example_beq.mpr rfl

theorem same_symm {r r' : Response} (h : r.Keyed) (h' : r'.Keyed) (hsame : (r == r') = true) :
    (r' == r) = true := by
  obtain ⟨hdesc, hheaders, hcontent⟩ := response_beq.mp hsame
  refine response_beq.mpr ⟨hdesc.symm, Dict.sameBy_symm h.headers h'.headers ?_ hheaders,
    Dict.sameBy_symm h.content h'.content ?_ hcontent⟩
  · intro x hx y hy hxy
    obtain ⟨hd, hr, hs⟩ := header_beq_iff.mp hxy
    exact header_beq_iff.mpr ⟨hd.symm, hr.symm,
      schemaRel_symm (h.headerSchemas x hx) (h'.headerSchemas y hy) hs⟩
  · intro x hx y hy hxy
    obtain ⟨hs, hes⟩ := mediaType_beq.mp hxy
    refine mediaType_beq.mpr ⟨schemaRel_symm (h.schemas x hx) (h'.schemas y hy) hs, ?_⟩
    exact Dict.sameBy_symm (h.examples x hx) (h'.examples y hy)
      (fun _ _ _ _ heq => example_beq.mpr (example_beq.mp heq).symm) hes

theorem same_trans {r r' r'' : Response} (h : (r == r') = true) (h' : (r' == r'') = true) :
    (r == r'') = true := by
  obtain ⟨hdesc, hheaders, hcontent⟩ := response_beq.mp h
  obtain ⟨hdesc', hheaders', hcontent'⟩ := response_beq.mp h'
  refine response_beq.mpr ⟨hdesc.trans hdesc', Dict.sameBy_trans ?_ hheaders hheaders',
    Dict.sameBy_trans ?_ hcontent hcontent'⟩
  · intro x _ v w hxv hvw
    obtain ⟨hd, hr, hs⟩ := header_beq_iff.mp hxv
    obtain ⟨hd', hr', hs'⟩ := header_beq_iff.mp hvw
    exact header_beq_iff.mpr ⟨hd.trans hd', hr.trans hr', schemaRel_trans hs hs'⟩
  · intro x _ v w hxv hvw
    obtain ⟨hs, hes⟩ := mediaType_beq.mp hxv
    obtain ⟨hs', hes'⟩ := mediaType_beq.mp hvw
    exact mediaType_beq.mpr ⟨schemaRel_trans hs hs', Dict.sameBy_trans
      (fun _ _ _ _ heq heq' => example_beq.mpr
        ((example_beq.mp heq).trans (example_beq.mp heq'))) hes hes'⟩

end Response

/-! ### A response as it is shared -/

/-- The response that goes to the component tables. -/
def exported (r : ApiNotes.Response) : Response :=
  (Response.ofModel r).fillDescription (toString r.status)

@[simp] theorem fillDescription_headers (status : String) (r : Response) :
    (r.fillDescription status).headers = r.headers := by
  unfold Response.fillDescription; split <;> rfl

@[simp] theorem fillDescription_content (status : String) (r : Response) :
    (r.fillDescription status).content = r.content := by
  unfold Response.fillDescription; split <;> rfl

theorem fillDescription_description (status : String) (r : Response) :
    (r.fillDescription status).description =
      if r.description.isEmpty then status ++ " response" else r.description := by
  unfold Response.fillDescription; split <;> rfl

theorem keyed_exported {r : ApiNotes.Response} (hr : r.Regular) : (exported r).Keyed := by
  have hcontent : ∀ e ∈ contentOf r.mimetype r.body,
      e.2 = ⟨bodySchema r.body, numbered (examplesUnder e.1 r.body.examples)⟩ := by
    intro e he
    have hget := Dict.get?_of_mem (nodup_keys_contentOf r.mimetype r.body) he
    rw [get?_contentOf] at hget
    split at hget
    · exact (Option.some.inj hget).symm
    · cases hget
  unfold exported
  refine ⟨?_, ?_, ?_, ?_, ?_⟩
  · rw [fillDescription_headers]
    exact Response.nodup_keys_ofModel_headers hr
  · intro e he s hs
    rw [fillDescription_headers] at he
    obtain ⟨h, -, rfl⟩ := (Response.mem_ofModel_headers hr).mp he
    rw [← Option.some.inj hs]
    exact Schema.keyed_iff.mpr ⟨by simp [Schema.named], by simp [Schema.named]⟩
  · rw [fillDescription_content]
    exact nodup_keys_contentOf r.mimetype r.body
  · intro e he s hs
    rw [fillDescription_content] at he
    rw [hcontent e he] at hs
    exact keyed_bodySchema hr.keyed hs
  · intro e he
    rw [fillDescription_content] at he
    rw [hcontent e he]
    exact nodup_keys_numbered _

/-! ### The same annotations, the same responses -/

theorem bodySchema_isSome_of_same {a b : Body} (h : (a == b) = true) :
    (bodySchema a).isSome = (bodySchema b).isSome := by
  obtain ⟨-, -, htype⟩ := Body.beq_iff.mp h
  unfold bodySchema
  rcases Schema.optionRel_iff.mp htype with ⟨ht, ht'⟩ | ⟨t, t', ht, ht', hsame⟩
  · rw [ht, ht']
  · rw [ht, ht']
    exact Schema.ofType?_isSome_of_same hsame

/-- Bodies that are the same have the same schema exactly when they are aligned. -/
theorem bodySchema_rel_iff {a b : Body} (ha : a.Keyed) (hb : b.Keyed) (h : (a == b) = true) :
    Option.Rel (fun s t => Schema.same s t = true) (bodySchema a) (bodySchema b) ↔
      a.Aligned b := by
  have hsome := bodySchema_isSome_of_same h
  obtain ⟨-, -, htype⟩ := Body.beq_iff.mp h
  unfold bodySchema at hsome ⊢
  rcases Schema.optionRel_iff.mp htype with ⟨ht, ht'⟩ | ⟨t, t', ht, ht', hsame⟩
  · rw [ht, ht']
    exact iff_of_true .none fun u u' hu => by rw [ht] at hu; cases hu
  · have haligned : a.Aligned b ↔ DataType.Aligned t t' := by
      constructor
      · exact fun hall => hall t t' ht ht'
      · intro halign u u' hu hu'
        rw [ht, Option.some.injEq] at hu
        rw [ht', Option.some.injEq] at hu'
        rwa [← hu, ← hu']
    rw [haligned, ← Schema.same_ofType?_iff (ha t ht) (hb t' ht') hsame]
    rw [ht, ht', Option.bind_some, Option.bind_some] at hsome ⊢
    cases hs : Schema.ofType? t with
    | none =>
        rw [hs] at hsome
        have hs' : Schema.ofType? t' = none :=
          Option.not_isSome_iff_eq_none.mp (by rw [← hsome]; simp)
        rw [hs']
        exact iff_of_true .none (by decide)
    | some s =>
        rw [hs] at hsome
        obtain ⟨s', hs'⟩ := Option.isSome_iff_exists.mp hsome.symm
        rw [hs', Schema.optionRel_iff]
        simp

theorem contentNames_of_same {a b : ApiNotes.Response} (h : (a == b) = true) :
    contentNames a.mimetype a.body = contentNames b.mimetype b.body := by
  obtain ⟨-, hmimetype, hbody⟩ := Response.beq_iff.mp h
  obtain ⟨-, hexamples, -⟩ := Body.beq_iff.mp hbody
  rw [contentNames, contentNames, bodySchema_isSome_of_same hbody, hmimetype, hexamples]

theorem bodyDescription_of_same {a b : Body} (h : (a == b) = true) :
    bodyDescription a = bodyDescription b := by
  obtain ⟨-, -, htype⟩ := Body.beq_iff.mp h
  unfold bodyDescription
  rcases Schema.optionRel_iff.mp htype with ⟨ht, ht'⟩ | ⟨t, t', ht, ht', hsame⟩
  · rw [ht, ht']
  · rw [ht, ht', Option.map_some, Option.map_some, DataType.same_description hsame]

/-- **What the second test adds to the first.**  Responses that are the same as annotations are
shared as the same response exactly when their types are aligned. -/
theorem same_exported_iff {a b : ApiNotes.Response} (ha : a.Regular) (hb : b.Regular)
    (h : (a == b) = true) : (exported a == exported b) = true ↔ a.body.Aligned b.body := by
  obtain ⟨hstatus, -, hbody⟩ := Response.beq_iff.mp h
  obtain ⟨hheaders, hexamples, -⟩ := Body.beq_iff.mp hbody
  have hcontent : (exported a).content = contentOf a.mimetype a.body := fillDescription_content _ _
  have hcontent' : (exported b).content = contentOf b.mimetype b.body := fillDescription_content _ _
  have hsame : Dict.sameBy (· == ·) (exported a).content (exported b).content = true ↔ _ :=
    Dict.sameBy_iff (keyed_exported ha).content (keyed_exported hb).content
  rw [response_beq, ← bodySchema_rel_iff ha.keyed hb.keyed hbody, hsame, hcontent, hcontent']
  simp only [get?_contentOf, ← contentNames_of_same h, ← hexamples]
  constructor
  · rintro ⟨-, -, hrel⟩
    have hsome := bodySchema_isSome_of_same hbody
    cases hs : bodySchema a.body with
    | none =>
        rw [hs] at hsome
        have hs' : bodySchema b.body = none :=
          Option.not_isSome_iff_eq_none.mp (by rw [← hsome]; simp)
        rw [hs']
        exact .none
    | some s =>
        -- the schema shows under the mimetype of the body
        have hname : mediaTypeName a.mimetype ∈ contentNames a.mimetype a.body := by
          simp [contentNames, hs]
        have hat := hrel (mediaTypeName a.mimetype)
        rw [if_pos hname, if_pos hname] at hat
        cases hat with
        | some hmedia =>
            rw [← hs]
            exact (mediaType_beq.mp hmedia).1
  · intro hrel
    refine ⟨?_, ?_, fun name => ?_⟩
    · unfold exported
      rw [fillDescription_description, fillDescription_description, hstatus]
      show (if (bodyDescription a.body).isEmpty then _ else bodyDescription a.body) =
        if (bodyDescription b.body).isEmpty then _ else bodyDescription b.body
      rw [bodyDescription_of_same hbody]
    · have heq : (exported a).headers = (exported b).headers := by
        unfold exported
        rw [fillDescription_headers, fillDescription_headers]
        show Dict.ofEntries (a.body.headers.map _) = Dict.ofEntries (b.body.headers.map _)
        rw [hheaders]
      obtain ⟨-, hrefl, -⟩ := response_beq.mp (Response.same_refl (keyed_exported hb))
      rwa [heq]
    · split
      · refine .some (mediaType_beq.mpr ⟨hrel, ?_⟩)
        exact Dict.sameBy_refl (nodup_keys_numbered _) fun _ _ => example_beq.mpr rfl
      · exact .none

/-! ### Adding shared responses to a draft -/

/-- The fault of a shared response that differs from the one of its status. -/
def clash (r : ApiNotes.Response) : Fault :=
  ((Fault.of .duplicate "").withinKey "responses" (toString r.status)).within "components"

/-- The first response that was declared for a status. -/
def firstOf (k : String) (responses : List ApiNotes.Response) : Option ApiNotes.Response :=
  responses.find? fun r => toString r.status == k

theorem firstOf_append_singleton (k : String) (responses : List ApiNotes.Response)
    (r : ApiNotes.Response) :
    firstOf k (responses ++ [r]) =
      (firstOf k responses).or (if toString r.status = k then some r else none) := by
  rw [firstOf, List.find?_append, ← firstOf, List.find?_singleton]
  simp only [beq_iff_eq]

theorem mem_of_firstOf {k : String} {responses : List ApiNotes.Response} {r : ApiNotes.Response}
    (h : firstOf k responses = some r) : r ∈ responses ∧ toString r.status = k :=
  ⟨List.mem_of_find?_eq_some h, by simpa using List.find?_some h⟩

theorem firstOf_isSome_iff {k : String} {responses : List ApiNotes.Response} :
    (firstOf k responses).isSome ↔ ∃ r ∈ responses, toString r.status = k := by
  simp [firstOf]

/-- What a draft holds after some shared responses: under each status the first of them, as it is
shared, and all others of that status are the same. -/
structure Shared (start : Draft) (before : List ApiNotes.Response) (d : Draft) : Prop where
  frame : d = { start with
    components := { start.components with responses := d.components.responses } }
  nodup : (Dict.keys d.components.responses).Nodup
  get? : ∀ k, Dict.get? d.components.responses k = (firstOf k before).map exported
  regular : ∀ r ∈ before, r.Regular
  same : ∀ r ∈ before, ∀ own, firstOf (toString r.status) before = some own →
    (exported own == exported r) = true

theorem shared_start {start : Draft} (h : start.components.responses = []) :
    Shared start [] start where
  frame := rfl
  nodup := by rw [h]; simp
  get? := by rw [h]; intro k; rfl
  regular := by simp
  same := by simp

theorem Shared.mem_keys {start d : Draft} {before : List ApiNotes.Response}
    (h : Shared start before d) (k : String) :
    k ∈ Dict.keys d.components.responses ↔ ∃ r ∈ before, toString r.status = k := by
  rw [← Dict.get?_isSome_iff, h.get?, Option.isSome_map, firstOf_isSome_iff]

theorem addCommonResponse_eq_error {d : Draft} {r : ApiNotes.Response} {fault : Fault}
    (h : d.addCommonResponse r = .error fault) : fault = clash r := by
  unfold Draft.addCommonResponse at h
  simp only at h
  split at h
  · cases h
  · split at h
    · cases h
    · exact (Except.error.inj h).symm

/-- A shared response goes in when its status is new or it is the same as the one that stands. -/
theorem addCommonResponse_eq_ok {d d' : Draft} {r : ApiNotes.Response} :
    d.addCommonResponse r = .ok d' ↔
      (Dict.get? d.components.responses (toString r.status) = none ∧
        d' = { d with components := { d.components with
          responses := Dict.insert d.components.responses (toString r.status) (exported r) } }) ∨
      (∃ own, Dict.get? d.components.responses (toString r.status) = some own ∧
        (own == exported r) = true ∧ d' = d) := by
  unfold Draft.addCommonResponse
  simp only
  rw [← exported]
  cases Dict.get? d.components.responses (toString r.status) with
  | none =>
      simp only [Except.ok.injEq, true_and, reduceCtorEq, false_and, exists_false, or_false]
      exact eq_comm
  | some own =>
      simp only [reduceCtorEq, false_and, false_or, Option.some.injEq, exists_eq_left']
      split
      · rename_i hsame
        rw [Except.ok.injEq, and_iff_right hsame, eq_comm]
      · rename_i hdiffer
        exact iff_of_false (by simp) fun h => hdiffer h.1

theorem shared_step {start d d' : Draft} {before : List ApiNotes.Response}
    {r : ApiNotes.Response} (hr : r.Regular) (h : Shared start before d)
    (hstep : d.addCommonResponse r = .ok d') : Shared start (before ++ [r]) d' := by
  have hregular : ∀ x ∈ before ++ [r], x.Regular := by
    intro x hx
    rcases List.mem_append.mp hx with hx | hx
    · exact h.regular x hx
    · rw [List.mem_singleton.mp hx]; exact hr
  rcases addCommonResponse_eq_ok.mp hstep with ⟨hnone, rfl⟩ | ⟨own, hown, hsame, rfl⟩
  · rw [h.get?, Option.map_eq_none_iff] at hnone
    refine ⟨?_, Dict.nodup_keys_insert h.nodup _ _, ?_, hregular, ?_⟩
    · conv_lhs => rw [h.frame]
    · intro k
      rw [Dict.get?_insert, h.get?, firstOf_append_singleton]
      by_cases hk : toString r.status = k
      · rw [if_pos hk, if_pos hk, ← hk, hnone]; rfl
      · rw [if_neg hk, if_neg hk, Option.or_none]
    · intro x hx own hown
      rw [firstOf_append_singleton] at hown
      rcases List.mem_append.mp hx with hx | hx
      · obtain ⟨y, hy⟩ := Option.isSome_iff_exists.mp (firstOf_isSome_iff.mpr ⟨x, hx, rfl⟩)
        rw [hy, Option.some_or, Option.some.injEq] at hown
        exact h.same x hx own (hown ▸ hy)
      · rw [List.mem_singleton.mp hx, hnone, Option.none_or, if_pos rfl, Option.some.injEq] at hown
        rw [List.mem_singleton.mp hx, ← hown]
        exact Response.same_refl (keyed_exported hr)
  · rw [h.get?, Option.map_eq_some_iff] at hown
    obtain ⟨first, hfirst, rfl⟩ := hown
    refine ⟨h.frame, h.nodup, ?_, hregular, ?_⟩
    · intro k
      rw [h.get?, firstOf_append_singleton]
      by_cases hk : toString r.status = k
      · rw [← hk, hfirst, Option.some_or]
      · rw [if_neg hk, Option.or_none]
    · intro x hx own hown
      rw [firstOf_append_singleton] at hown
      rcases List.mem_append.mp hx with hx | hx
      · obtain ⟨y, hy⟩ := Option.isSome_iff_exists.mp (firstOf_isSome_iff.mpr ⟨x, hx, rfl⟩)
        rw [hy, Option.some_or, Option.some.injEq] at hown
        exact h.same x hx own (hown ▸ hy)
      · rw [List.mem_singleton.mp hx] at hown ⊢
        rw [hfirst, Option.some_or, Option.some.injEq] at hown
        rwa [← hown]

theorem addCommonResponse_isOk_iff {start d : Draft} {before : List ApiNotes.Response}
    {r : ApiNotes.Response} (h : Shared start before d) :
    (∃ d', d.addCommonResponse r = .ok d') ↔
      ∀ x ∈ before, x.status = r.status → (exported x == exported r) = true := by
  have hstatus : ∀ x : ApiNotes.Response, x.status = r.status →
      toString x.status = toString r.status := fun x hx => by rw [hx]
  simp only [addCommonResponse_eq_ok, h.get?, Option.map_eq_none_iff, Option.map_eq_some_iff]
  cases hfirst : firstOf (toString r.status) before with
  | none =>
      refine iff_of_true ⟨_, Or.inl ⟨rfl, rfl⟩⟩ fun x hx hxr => ?_
      have hsome := firstOf_isSome_iff.mpr ⟨x, hx, hstatus x hxr⟩
      rw [hfirst] at hsome
      cases hsome
  | some first =>
      obtain ⟨hmem, hk⟩ := mem_of_firstOf hfirst
      constructor
      · rintro ⟨d', ⟨hnone, -⟩ | ⟨own, ⟨y, hy, rfl⟩, hsame, -⟩⟩ x hx hxr
        · cases hnone
        · rw [Option.some.injEq] at hy
          subst hy
          have hfirstx := h.same x hx first (by rw [hstatus x hxr]; exact hfirst)
          exact Response.same_trans (Response.same_symm (keyed_exported (h.regular first hmem))
            (keyed_exported (h.regular x hx)) hfirstx) hsame
      · intro hall
        exact ⟨d, Or.inr ⟨_, ⟨first, rfl, rfl⟩, hall first hmem (Text.toString_nat_inj hk), rfl⟩⟩

theorem addCommonResponses_shared {start d : Draft} {responses : List ApiNotes.Response}
    (hstart : start.components.responses = []) (hr : ∀ r ∈ responses, r.Regular)
    (h : responses.foldlM Draft.addCommonResponse start = .ok d) : Shared start responses d :=
  foldlM_invariant (fun _ _ _ _ => shared_step) responses [] start d hr (shared_start hstart) h

theorem addCommonResponses_isOk_iff {start : Draft} {responses : List ApiNotes.Response}
    (hstart : start.components.responses = []) (hr : ∀ r ∈ responses, r.Regular) :
    (∃ d, responses.foldlM Draft.addCommonResponse start = .ok d) ↔
      responses.Pairwise fun a b => a.status = b.status → (exported a == exported b) = true := by
  have hfold : (∃ d, responses.foldlM Draft.addCommonResponse start = .ok d) ↔
      (∀ r ∈ responses, True ∧ ∀ x ∈ ([] : List ApiNotes.Response),
        x.status = r.status → (exported x == exported r) = true) ∧
      responses.Pairwise fun a b => a.status = b.status → (exported a == exported b) = true :=
    foldlM_isOk_iff (fun _ _ _ _ => shared_step)
      (fun before d r _ h => by rw [addCommonResponse_isOk_iff h, true_and])
      responses [] start hr (shared_start hstart)
  rw [hfold]
  simp

/-! ### The shared responses of a document -/

theorem foldl_addServer (servers : List ApiNotes.Server) : ∀ d : Draft,
    servers.foldl Draft.addServer d =
      { d with servers := d.servers ++ servers.map fun s => ⟨s.url, nonEmpty? s.description⟩ } := by
  induction servers with
  | nil => intro d; simp
  | cons s rest ih => intro d; rw [List.foldl_cons, ih]; simp [Draft.addServer]

theorem foldl_addGroup (groups : List Group) : ∀ d : Draft,
    groups.foldl Draft.addGroup d =
      { d with
        tags := d.tags ++ groups.map fun g =>
          { name := g.name, description := nonEmpty? g.description } } := by
  induction groups with
  | nil => intro d; simp
  | cons g rest ih => intro d; rw [List.foldl_cons, ih]; simp [Draft.addGroup]

/-- The draft that responses and endpoints are added to, field by field. -/
theorem ofHeader_eq (doc : ApiDoc) :
    Draft.ofHeader doc =
      { info :=
          { title := doc.title
            description := nonEmpty? doc.description
            license := doc.license.map fun l => ⟨l.name, nonEmpty? l.url⟩
            version := doc.version }
        servers := doc.servers.map fun s => ⟨s.url, nonEmpty? s.description⟩
        tags := doc.groups.map fun g => { name := g.name, description := nonEmpty? g.description }
        externalDocs := doc.externalDocs.map fun x => ⟨x.url, nonEmpty? x.description⟩ } := by
  unfold Draft.ofHeader
  simp only [foldl_addGroup, foldl_addServer]
  cases doc.license <;> cases doc.externalDocs <;>
    simp [Draft.withInfo, Draft.withLicense, Draft.withExternalDocs]

/-- **Repeated shared responses.**  The shared responses of a document that passed its checks go
into its draft exactly when those of one status list their required members in the same order, at
every depth.  The draft then has one entry for each status; otherwise the fault is a duplicate of
the status of one of them. -/
theorem addCommonResponses_spec {raw doc : ApiDoc} (h : raw.sanitized = .ok doc)
    (hkeyed : ∀ r ∈ doc.responses, r.body.Keyed) :
    ((∃ d, doc.responses.foldlM Draft.addCommonResponse (Draft.ofHeader doc) = .ok d) ↔
      doc.responses.Pairwise fun a b => a.status = b.status → a.body.Aligned b.body) ∧
    (∀ d, doc.responses.foldlM Draft.addCommonResponse (Draft.ofHeader doc) = .ok d →
      (Dict.keys d.components.responses).Nodup ∧
      ∀ k, k ∈ Dict.keys d.components.responses ↔ ∃ r ∈ doc.responses, toString r.status = k) ∧
    ∀ fault, doc.responses.foldlM Draft.addCommonResponse (Draft.ofHeader doc) = .error fault →
      ∃ r ∈ doc.responses, fault =
        { kind := .duplicate
          path := [.field "components", .field "responses", .key (toString r.status)] } := by
  have hvalid := ApiDoc.valid_of_sanitized h
  have hregular : ∀ r ∈ doc.responses, r.Regular := fun r hr =>
    Response.regular_of_check (hvalid.responses r hr) (hkeyed r hr)
  have hstart : (Draft.ofHeader doc).components.responses = [] := by rw [ofHeader_eq]
  refine ⟨?_, fun d hd => ?_, fun fault hfault => ?_⟩
  · rw [addCommonResponses_isOk_iff hstart hregular]
    have hmem : doc.responses.Pairwise fun a b => a ∈ doc.responses ∧ b ∈ doc.responses :=
      List.Pairwise.imp_of_mem (fun ha hb _ => ⟨ha, hb⟩) hvalid.agree
    constructor
    · intro hsame
      refine (hmem.and (hvalid.agree.and hsame)).imp fun {a b} hab hstatus => ?_
      obtain ⟨⟨ha, hb⟩, heq, hexported⟩ := hab
      exact (same_exported_iff (hregular a ha) (hregular b hb) (heq hstatus)).mp
        (hexported hstatus)
    · intro haligned
      refine (hmem.and (hvalid.agree.and haligned)).imp fun {a b} hab hstatus => ?_
      obtain ⟨⟨ha, hb⟩, heq, hal⟩ := hab
      exact (same_exported_iff (hregular a ha) (hregular b hb) (heq hstatus)).mpr (hal hstatus)
  · have hshared := addCommonResponses_shared hstart hregular hd
    exact ⟨hshared.nodup, hshared.mem_keys⟩
  · obtain ⟨r, hr, d, hd⟩ := foldlM_eq_error _ _ hfault
    exact ⟨r, hr, addCommonResponse_eq_error hd⟩

/-- A document that declares the response 404 twice, with members in two orders. -/
def declaredTwice (first second : List String) : ApiDoc where
  title := "Pets"
  version := "1.0.0"
  servers := [{ url := "/" }]
  responses := [first, second].map fun names =>
    let members := names.map fun name => (name, ⟨name, .leaf .string "", false, ""⟩)
    { status := 404, mimetype := "*", body := { type := some (.object members "") } }
  endpoints := [{ method := .get, path := "/pets" }]

theorem keyed_declaredTwice {first second : List String} (hfirst : first.Nodup)
    (hsecond : second.Nodup) :
    ∀ r ∈ (declaredTwice first second).responses, r.body.Keyed := by
  have hobject : ∀ names : List String, names.Nodup → (DataType.object (names.map fun name =>
      (name, ⟨name, .leaf .string "", false, ""⟩)) "").Keyed := by
    intro names hnames
    refine DataType.keyed_object.mpr ⟨by simpa [Dict.keys, Function.comp_def] using hnames, ?_⟩
    intro e he
    obtain ⟨name, -, rfl⟩ := List.mem_map.mp he
    trivial
  intro r hr t ht
  simp only [declaredTwice, List.map_cons, List.map_nil, List.mem_cons, List.not_mem_nil,
    or_false] at hr
  rcases hr with rfl | rfl
  · rw [← Option.some.inj ht]; exact hobject first hfirst
  · rw [← Option.some.inj ht]; exact hobject second hsecond

theorem addCommonResponses_declaredTwice :
    (declaredTwice ["id", "name"] ["id", "name"]).sanitized =
        .ok (declaredTwice ["id", "name"] ["id", "name"]) ∧
      ∃ d, (declaredTwice ["id", "name"] ["id", "name"]).responses.foldlM Draft.addCommonResponse
        (Draft.ofHeader (declaredTwice ["id", "name"] ["id", "name"])) = .ok d := by
  have hsanitized : (declaredTwice ["id", "name"] ["id", "name"]).sanitized =
      .ok (declaredTwice ["id", "name"] ["id", "name"]) := rfl
  have hkeyed : ∀ r ∈ (declaredTwice ["id", "name"] ["id", "name"]).responses, r.body.Keyed :=
    keyed_declaredTwice (by decide) (by decide)
  refine ⟨hsanitized, (addCommonResponses_spec hsanitized hkeyed).1.mpr ?_⟩
  refine List.pairwise_pair.mpr fun _ t t' ht ht' => ?_
  rw [← Option.some.inj ht, ← Option.some.inj ht']
  exact .refl _

/-- Two declarations that the annotations count as one, and the document as two. -/
theorem addCommonResponses_clash :
    (declaredTwice ["id", "name"] ["name", "id"]).sanitized =
        .ok (declaredTwice ["id", "name"] ["name", "id"]) ∧
      (declaredTwice ["id", "name"] ["name", "id"]).responses.foldlM Draft.addCommonResponse
          (Draft.ofHeader (declaredTwice ["id", "name"] ["name", "id"])) =
        .error
          { kind := .duplicate
            path := [.field "components", .field "responses", .key "404"] } :=
  ⟨rfl, rfl⟩

end OpenApi

end ApiNotes
