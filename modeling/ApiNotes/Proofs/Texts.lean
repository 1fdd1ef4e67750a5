/-
Which texts of responses reach a document.

The text on the type of a response goes to two places: to the description of the response
and, when the type has content, to its schema.  Responses of one status are taken together,
and then the first text that is not empty becomes the description, while every schema
keeps its own.  So a text is lost when its type has no content and another text comes
first, unless it is repeated on a type that has content.  `mentions_merged` is that for one
status of an endpoint; a shared response that stands in its place says the same
(`mentions_of_same`).
-/
import ApiNotes.Proofs.Sharing

namespace ApiNotes.OpenApi

/-! ### Texts of one status -/

/-- A text appears in a response: as its description, or as that of a schema in its content. -/
def Response.Mentions (r : Response) (text : String) : Prop :=
  r.description = text ∨ ∃ name s, schemaAt r.content name = some s ∧ s.description = some text

/-- The texts of the responses that an endpoint declares for a status. -/
def textsFor (e : Endpoint) (status : String) : List String :=
  (withStatus status e.responses).map fun d => bodyDescription d.body

theorem firstText_ne_empty {texts : List String} {text : String} (h : text ∈ texts)
    (hne : text ≠ "") : Response.firstText texts ≠ "" := by
  unfold Response.firstText
  cases hfind : texts.find? (!·.isEmpty) with
  | none =>
      have hempty := List.find?_eq_none.mp hfind text h
      exact absurd (by simpa using hempty) hne
  | some first => simpa using List.find?_some hfind

/-- The schema of a body says what its type says. -/
theorem description_bodySchema {body : Body} {s : Schema} (h : bodySchema body = some s)
    {text : String} (hne : text ≠ "") :
    s.description = some text ↔ bodyDescription body = text := by
  obtain ⟨t, ht, hs⟩ := Option.bind_eq_some_iff.mp h
  have hbody : bodyDescription body = t.description := by
    rw [bodyDescription, ht]
    rfl
  rw [Schema.description_ofType? hs, hbody]
  split
  · rename_i hempty
    rw [String.isEmpty_iff.mp hempty]
    exact iff_of_false (by simp) (Ne.symm hne)
  · exact Option.some_inj

/-- **Which texts a merged response keeps:** the first one, and those on types with content. -/
theorem mentions_merged {status text : String} {declared : List ApiNotes.Response} {own : Response}
    (h : Response.Combines declared own) (hne : text ≠ "")
    (hmem : text ∈ declared.map fun d => bodyDescription d.body) :
    (own.fillDescription status).Mentions text ↔
      Response.firstText (declared.map fun d => bodyDescription d.body) = text ∨
      ∃ d ∈ declared, (bodySchema d.body).isSome ∧ bodyDescription d.body = text := by
  have hdescription : (own.fillDescription status).description =
      Response.firstText (declared.map fun d => bodyDescription d.body) := by
    rw [fillDescription_description, ← h.description, if_neg]
    rw [String.isEmpty_iff, h.description]
    exact firstText_ne_empty hmem hne
  rw [Response.Mentions, hdescription, fillDescription_content]
  refine or_congr_right ⟨?_, ?_⟩
  · rintro ⟨name, s, hs, htext⟩
    obtain ⟨d, hd, -, hbody⟩ := h.content.schemaNames name s hs
    exact ⟨d, hd, by rw [hbody]; rfl, (description_bodySchema hbody hne).mp htext⟩
  · rintro ⟨d, hd, hcontent, htext⟩
    obtain ⟨s, hbody⟩ := Option.isSome_iff_exists.mp hcontent
    obtain ⟨t, ht, hsame⟩ := h.content.schema d hd _ (mem_contentNames_mimetype hbody) s hbody
    refine ⟨_, t, ht, ?_⟩
    rw [(Schema.same_iff.mp hsame).2.1]
    exact (description_bodySchema hbody hne).mpr htext

/-- A shared response that is the same has the same texts. -/
theorem mentions_of_same {status text : String} {declared : List ApiNotes.Response}
    {own : Response} {first : ApiNotes.Response} (hown : Response.Combines declared own)
    (hfirst : first.Regular) (hsame : (own.fillDescription status == exported first) = true) :
    (exported first).Mentions text ↔ (own.fillDescription status).Mentions text := by
  have hschemas : ∀ name, (∃ s, schemaAt (exported first).content name = some s ∧
      s.description = some text) ↔
        ∃ s, schemaAt own.content name = some s ∧ s.description = some text := by
    intro name
    rcases Schema.optionRel_iff.mp (content_of_same hown hfirst hsame name).2.1 with
      ⟨hs, ht⟩ | ⟨s, t, hs, ht, hst⟩
    · rw [hs, ht]
    · rw [hs, ht]
      simp [(Schema.same_iff.mp hst).2.1]
  rw [Response.Mentions, Response.Mentions, (response_beq.mp hsame).1, fillDescription_content]
  exact or_congr_right (exists_congr hschemas)

/-! ### Texts of a document -/

/-- **Which texts of responses reach a document.**  When a document that passed its checks is
exported, each response of an endpoint is found under its status in the operation of the endpoint.
A text on the type of the response appears there exactly when it is the first of that status or
stands, on this response or on another of the status, on a type with content. -/
theorem response_text_appears_iff {raw doc : ApiDoc} {document : Document}
    (h : raw.sanitized = .ok doc) (hkeyed : doc.Keyed)
    (hdocument : Document.ofModel doc = .ok document) {e : Endpoint} (he : e ∈ doc.endpoints)
    {r : ApiNotes.Response} (hr : r ∈ e.responses) (htext : bodyDescription r.body ≠ "") :
    ∃ operation entry found,
      document.operation? (Route.template e.path) e.method = some operation ∧
      Dict.get? operation.responses (toString r.status) = some entry ∧
      entry.resolve (sharedResponses document) = some found ∧
      (found.Mentions (bodyDescription r.body) ↔
        Response.firstText (textsFor e (toString r.status)) = bodyDescription r.body ∨
        ∃ d ∈ withStatus (toString r.status) e.responses,
          (∃ t, d.body.type = some t ∧ t.isNothing = false) ∧
          bodyDescription d.body = bodyDescription r.body) := by
  have hvalid := ApiDoc.valid_of_sanitized h
  rw [document_ofModel_eq, bind_eq_ok] at hdocument
  obtain ⟨d, hd, hbuild⟩ := hdocument
  have hdrafted := drafted_of_ok (hvalid.regular_common hkeyed) hd
  obtain ⟨table, htable, hslot⟩ := hdrafted.holds e he
  have hgrouped := responsesOf_grouped (hvalid.regular_responses hkeyed e he) htable
  obtain ⟨own, hown⟩ := Dict.exists_get?_of_mem_keys
    ((hgrouped.mem_keys (toString r.status)).mpr ⟨r, hr, rfl⟩)
  obtain ⟨-, hcombines⟩ := hgrouped.group _ own hown
  have hslash : ∀ k ∈ Dict.keys d.components.responses, '/' ∉ k.toList := by
    intro k hk
    obtain ⟨first, -, rfl⟩ := (mem_keys_shared hdrafted k).mp hk
    exact slash_not_mem_status first.status
  have hitem : Dict.get? (operationWith e table).responses (toString r.status) =
      some (.item (own.fillDescription (toString r.status))) := by
    show Dict.get? (itemsOf table) _ = _
    rw [get?_itemsOf, hown, Option.map_some]
  obtain ⟨entry, found, hentry, hresolve, hfound, -⟩ :=
    (links_linkAll hdrafted.nodup_shared hslash
      (nodup_keys_operationWith htable)).declared _ _ hitem
  have hmentions : found.Mentions (bodyDescription r.body) ↔
      (own.fillDescription (toString r.status)).Mentions (bodyDescription r.body) := by
    rcases hfound with rfl | ⟨hshared, hsame⟩
    · exact Iff.rfl
    · rw [hdrafted.get?_shared] at hshared
      obtain ⟨first, hfirst, rfl⟩ := Option.map_eq_some_iff.mp hshared
      exact mentions_of_same hcombines
        (hvalid.regular_common hkeyed first (mem_of_firstOf hfirst).1) hsame
  have hmem : bodyDescription r.body ∈
      (withStatus (toString r.status) e.responses).map fun d => bodyDescription d.body :=
    List.mem_map_of_mem (mem_withStatus.mpr ⟨hr, rfl⟩)
  refine ⟨_, entry, found, ?_, hentry, ?_, ?_⟩
  · rw [operation?_of_build hbuild, hslot, sharedResponses_of_build hbuild, Option.map_some]
  · rw [sharedResponses_of_build hbuild]
    exact hresolve
  · rw [hmentions, mentions_merged hcombines htext hmem]
    simp only [bodySchema_isSome_iff]
    rfl

/-- A response without content that says something. -/
def bareResponse (text : String) : ApiNotes.Response :=
  { status := 200, mimetype := "*", body := { type := some (.leaf .nothing text) } }

/-- A document with one endpoint, which says two things of the same status. -/
def deletePet : ApiDoc where
  title := "Pets"
  version := "1.0.0"
  servers := [{ url := "/" }]
  endpoints := [{
    method := .delete
    path := "/pets"
    responses := [bareResponse "deleted", bareResponse "was not there"] }]

theorem keyed_deletePet : deletePet.Keyed where
  common := fun _ hr => nomatch hr
  responses := by
    intro e he r hr t ht
    rw [List.mem_singleton.mp he] at hr
    have hbody : ∃ text, r = bareResponse text := by
      rcases List.mem_cons.mp hr with rfl | hr
      · exact ⟨_, rfl⟩
      · exact ⟨_, List.mem_singleton.mp hr⟩
    obtain ⟨text, rfl⟩ := hbody
    rw [← Option.some.inj ht]
    trivial
  requests := by
    intro e he r hr
    rw [List.mem_singleton.mp he] at hr
    cases hr

theorem deletePet_mentions_deleted : ∃ document operation entry found,
    deletePet.sanitized = .ok deletePet ∧ Document.ofModel deletePet = .ok document ∧
    document.operation? "/pets" .delete = some operation ∧
    Dict.get? operation.responses "200" = some entry ∧
    entry.resolve (sharedResponses document) = some found ∧ found.Mentions "deleted" := by
  have hsanitized : deletePet.sanitized = .ok deletePet := rfl
  obtain ⟨document, hdocument⟩ : ∃ document, Document.ofModel deletePet = .ok document := ⟨_, rfl⟩
  obtain ⟨operation, entry, found, hoperation, hentry, hfound, hiff⟩ :=
    response_text_appears_iff hsanitized keyed_deletePet hdocument List.mem_cons_self
      (show bareResponse "deleted" ∈ _ from List.mem_cons_self) (by decide)
  exact ⟨document, operation, entry, found, hsanitized, hdocument, hoperation, hentry, hfound,
    hiff.mpr (.inl (by decide +kernel))⟩

/-- The second text of a status is dropped when neither has content. -/
theorem deletePet_drops_text : deletePet.sanitized = .ok deletePet ∧
    ∃ e ∈ deletePet.endpoints, ∃ r ∈ e.responses, bodyDescription r.body = "was not there" ∧
    ∃ document operation entry found, Document.ofModel deletePet = .ok document ∧
      document.operation? (Route.template e.path) e.method = some operation ∧
      Dict.get? operation.responses (toString r.status) = some entry ∧
      entry.resolve (sharedResponses document) = some found ∧
      ¬found.Mentions "was not there" := by
  refine ⟨rfl, _, List.mem_cons_self, bareResponse "was not there", by simp, rfl,
    _, _, _, { description := "deleted" }, rfl, rfl, rfl, rfl, ?_⟩
  rintro (hdescription | ⟨name, s, hs, -⟩)
  · exact absurd hdescription (by decide)
  · cases hs

end ApiNotes.OpenApi
