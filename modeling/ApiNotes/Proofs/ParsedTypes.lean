/-
The types that an annotation declares are as tags build them.

A type comes into an annotation by a token, as that of a parameter or as that of a request or a
response, and then changes only by members attached to it.  Both keep to what `Parsed` says, and
so does every loop that reads tags: a body in the making and a list of parameters hold parsed
types after each tag, whichever members it adds, replaces or drops.  Only the type of a request
or a response gets a text, the one of its tag.
-/
import ApiNotes.Proofs.Attachment
import ApiNotes.Proofs.Sections
import ApiNotes.Proofs.TypeParts

namespace ApiNotes.Annotation

/-! ### Single tags -/

/-- A token names a type as tags build it. -/
theorem parsed_of_parse {token : String} {t : DataType} (h : DataType.parse token = .ok t) :
    t.description = "" ∧ t.Parsed := by
  have hbare : t.bare = t := by
    unfold DataType.parse at h
    split at h
    next found hfound =>
      rw [← Except.ok.inj h]
      exact DataType.bare_of_ofSegments? hfound
    next => cases h
  refine ⟨?_, DataType.parsed_of_bare hbare⟩
  rw [← hbare]
  exact DataType.description_bare t

theorem parsed_of_typeAt {tag : Tag} {token : String} {t : DataType}
    (h : typeAt tag token = .ok t) : t.description = "" ∧ t.Parsed := by
  unfold typeAt at h
  split at h
  next found hparse =>
    rw [← Except.ok.inj h]
    exact parsed_of_parse hparse
  next => cases h

/-- A parameter tag gives a parameter with a parsed type; its name may have dots in it. -/
theorem parsed_of_paramOf? {tag : Tag} {p : Param} (h : paramOf? tag = .ok (some p)) :
    p.type.description = "" ∧ p.type.Parsed := by
  unfold paramOf? at h
  split at h
  next name token flag rest hfields =>
    obtain ⟨type, htype, h⟩ := bind_eq_ok.mp h
    obtain rfl := Option.some.inj (Except.ok.inj h)
    exact parsed_of_typeAt htype
  next => cases Except.ok.inj h

theorem leaf_undotted (name : String) : '.' ∉ (splitName name).2.toList := by
  unfold splitName
  intro hdot
  obtain ⟨front, last, hsplit⟩ := Text.exists_splitOn '.' name.toList
  have hlast : last ∈ name.toList.splitOn '.' := by simp [hsplit]
  apply Text.not_mem_of_mem_splitOn hlast
  simpa [hsplit] using hdot

/-- The last part of its name is the name that a parameter is attached under. -/
theorem parsed_leaf_of_type {p : Param} (hplain : p.type.description = "")
    (htype : p.type.Parsed) : { p with name := (splitName p.name).2 }.Parsed :=
  ⟨leaf_undotted p.name, hplain, htype⟩

end ApiNotes.Annotation

namespace ApiNotes

open Annotation

/-! ### Bodies -/

/-- The type of a body is as tags build it. -/
def Body.TypeParsed (body : Body) : Prop := ∀ t, body.type = some t → t.Parsed

namespace Body

theorem TypeParsed.attach {body : Body} (h : body.TypeParsed) {p : Param}
    (hplain : p.type.description = "") (htype : p.type.Parsed) : (body.attach p).TypeParsed := by
  unfold Body.attach
  rcases hsplit : splitName p.name with ⟨parents, leaf⟩
  have hleaf := parsed_leaf_of_type hplain htype
  rw [hsplit] at hleaf
  dsimp only at hleaf ⊢
  split
  next type hattach =>
    obtain ⟨old, hold, hattach⟩ := Option.bind_eq_some_iff.mp hattach
    intro t ht
    rw [← Option.some.inj ht]
    exact DataType.Parsed.attach? hleaf (h old hold) hattach
  next => exact h

/-- A tag of a section leaves the type of the body as tags build it. -/
theorem TypeParsed.addTag {body body' : Body} (h : body.TypeParsed) {tag : Tag}
    (hstep : body.addTag tag = .ok body') : body'.TypeParsed := by
  unfold Body.addTag at hstep
  split at hstep
  next =>
    rw [← Except.ok.inj hstep]
    exact h
  next =>
    rw [← Except.ok.inj hstep]
    exact h
  next =>
    unfold Body.addParam at hstep
    obtain ⟨param, hparam, hstep⟩ := bind_eq_ok.mp hstep
    cases param with
    | none =>
        rw [← Except.ok.inj hstep]
        exact h
    | some p =>
        obtain ⟨hplain, htype⟩ := parsed_of_paramOf? hparam
        rw [← Except.ok.inj hstep]
        exact h.attach hplain htype
  next =>
    rw [← Except.ok.inj hstep]
    exact h

theorem TypeParsed.addTags {body body' : Body} (h : body.TypeParsed) {tags : List Tag}
    (hrun : body.addTags tags = .ok body') : body'.TypeParsed := by
  have hstep : ∀ (_ : List Tag) (found : Body) (tag : Tag) (found' : Body), True →
      found.TypeParsed → found.addTag tag = .ok found' → found'.TypeParsed := by
    intro _ found tag found' _ hfound hadd
    exact hfound.addTag hadd
  exact foldlM_invariant hstep tags [] body body' (fun _ _ => trivial) h hrun

/-- A section starts with the type of its tag, and the text of its tag. -/
theorem typeParsed_start {t : DataType} (h : t.Parsed) (text : String) :
    Body.TypeParsed { type := some (t.withDescription text) } := by
  intro u hu
  rw [← Option.some.inj hu]
  exact DataType.parsed_withDescription.mpr h

end Body

namespace Annotation

/-! ### Sections -/

theorem typeParsed_responseOf? {tag : Tag} {owned : List Tag} {r : Response}
    (h : responseOf? tag owned = .ok (some r)) : r.body.TypeParsed := by
  unfold responseOf? at h
  split at h
  next status token mimetype rest hfields =>
    cases hstatus : statusOf? status with
    | none =>
        rw [hstatus] at h
        cases h
    | some code =>
        rw [hstatus] at h
        obtain ⟨status, -, h⟩ := bind_eq_ok.mp h
        obtain ⟨type, htype, h⟩ := bind_eq_ok.mp h
        obtain ⟨body, hbody, h⟩ := bind_eq_ok.mp h
        obtain rfl := Option.some.inj (Except.ok.inj h)
        exact (Body.typeParsed_start (parsed_of_typeAt htype).2 _).addTags hbody
  next => cases Except.ok.inj h

theorem typeParsed_requestOf? {tag : Tag} {owned : List Tag} {r : Request}
    (h : requestOf? tag owned = .ok (some r)) : r.body.TypeParsed := by
  unfold requestOf? at h
  split at h
  next token mimetype rest hfields =>
    obtain ⟨type, htype, h⟩ := bind_eq_ok.mp h
    obtain ⟨body, hbody, h⟩ := bind_eq_ok.mp h
    obtain rfl := Option.some.inj (Except.ok.inj h)
    exact (Body.typeParsed_start (parsed_of_typeAt htype).2 _).addTags hbody
  next => cases Except.ok.inj h

/-- An answer that is kept was given for some element. -/
theorem mem_of_filterMapM {α β : Type} {f : α → Checked (Option β)} {xs : List α} {ys : List β}
    (h : xs.filterMapM f = .ok ys) {y : β} (hy : y ∈ ys) : ∃ x ∈ xs, f x = .ok (some y) := by
  induction xs generalizing ys with
  | nil =>
      obtain rfl : [] = ys := Except.ok.inj h
      cases hy
  | cons x rest ih =>
      rw [List.filterMapM_cons] at h
      obtain ⟨kept, hkept, h⟩ := bind_eq_ok.mp h
      cases kept with
      | none =>
          obtain ⟨x', hx', hfound⟩ := ih h hy
          exact ⟨x', List.mem_cons_of_mem x hx', hfound⟩
      | some first =>
          obtain ⟨ys', hys', h⟩ := bind_eq_ok.mp h
          obtain rfl : first :: ys' = ys := Except.ok.inj h
          rcases List.mem_cons.mp hy with rfl | hy
          · exact ⟨x, List.mem_cons_self, hkept⟩
          · obtain ⟨x', hx', hfound⟩ := ih hys' hy
            exact ⟨x', List.mem_cons_of_mem x hx', hfound⟩

theorem typeParsed_responses {sections : List (Tag × List Tag)} {responses : List Response}
    (h : sections.filterMapM (fun s => responseOf? s.1 s.2) = .ok responses) :
    ∀ r ∈ responses, r.body.TypeParsed := by
  intro r hr
  obtain ⟨s, -, hs⟩ := mem_of_filterMapM h hr
  exact typeParsed_responseOf? hs

/-! ### Lists of parameters -/

theorem parsed_attachTo {param : Param} {first leaf : String} {nested : List String}
    (hleaf : { param with name := leaf }.Parsed) {params : List Param}
    (h : ∀ p ∈ params, p.Parsed) :
    ∀ p ∈ attachParam.attachTo param first nested leaf params, p.Parsed := by
  induction params with
  | nil => exact h
  | cons p rest ih =>
      rw [List.forall_mem_cons] at h
      rw [attachParam.attachTo]
      by_cases hp : p.name = first
      · rw [if_pos hp]
        split
        next type hattach =>
          have htype := DataType.Parsed.attach? hleaf h.1.type hattach
          have hplain := (DataType.description_of_attach? hattach).trans h.1.plain
          rw [List.forall_mem_cons]
          exact ⟨⟨h.1.undotted, hplain, htype⟩, h.2⟩
        next =>
          rw [List.forall_mem_cons]
          exact h
      · rw [if_neg hp, List.forall_mem_cons]
        exact ⟨h.1, ih h.2⟩

/-- A parameter that is added to a list, attached or dropped leaves the list parsed. -/
theorem parsed_attachParam {params : List Param} (h : ∀ p ∈ params, p.Parsed) {param : Param}
    (hplain : param.type.description = "") (htype : param.type.Parsed) :
    ∀ p ∈ attachParam params param, p.Parsed := by
  have hleaf := parsed_leaf_of_type hplain htype
  rcases hsplit : splitName param.name with ⟨_ | ⟨first, nested⟩, leaf⟩
  · have hdot := undotted_of_splitName hsplit
    rw [attachParam_undotted hdot, List.forall_mem_append, List.forall_mem_singleton]
    exact ⟨h, hdot, hplain, htype⟩
  · rw [attachParam_dotted hsplit]
    rw [hsplit] at hleaf
    exact parsed_attachTo hleaf h

theorem parsed_foldl_attachParam {more : List Param}
    (hmore : ∀ p ∈ more, p.type.description = "" ∧ p.type.Parsed) {params : List Param}
    (h : ∀ p ∈ params, p.Parsed) : ∀ p ∈ more.foldl attachParam params, p.Parsed := by
  induction more generalizing params with
  | nil => exact h
  | cons param rest ih =>
      rw [List.forall_mem_cons] at hmore
      exact ih hmore.2 (parsed_attachParam h hmore.1.1 hmore.1.2)

/-- The parameters that tags make up together. -/
theorem parsed_params {tags : List Tag} {params : List Param}
    (h : tags.filterMapM paramOf? = .ok params) : ∀ p ∈ params.foldl attachParam [], p.Parsed := by
  apply parsed_foldl_attachParam
  · intro p hp
    obtain ⟨tag, -, htag⟩ := mem_of_filterMapM h hp
    exact parsed_of_paramOf? htag
  · simp

/-! ### Annotations -/

namespace Block

/-- The parameters of a block, those of the path and those of the query. -/
def params : Block → List Param
  | .endpoint e => e.params ++ e.queries
  | _ => []

/-- The bodies of the requests and the responses of a block. -/
def bodies : Block → List Body
  | .doc header => header.responses.map (·.body)
  | .endpoint e => (e.request.map (·.body)).toList ++ e.responses.map (·.body)
  | .empty => []

/-- All types of a block are as tags build them. -/
structure TypesParsed (block : Block) : Prop where
  params : ∀ p ∈ block.params, p.Parsed
  bodies : ∀ body ∈ block.bodies, ∀ t, body.type = some t → t.Parsed

end Block

/-- What an annotation declares is nothing, or read from an opener and the tags behind it. -/
theorem blockOf_reads {tags : List Tag} {block : Block} (h : blockOf tags = .ok block) :
    block = .empty ∨ (∃ opener rest e, block = .endpoint e ∧ ReadFrom opener rest e) ∨
      ∃ rest doc, block = .doc doc ∧
        (sectionsOf (· == .response) rest).filterMapM (fun s => responseOf? s.1 s.2) =
          .ok doc.responses := by
  cases hfind : tags.find? (·.kind.opensBlock) with
  | none =>
      have hdrop : (tags.dropWhile fun tag => !tag.kind.opensBlock) = [] := by
        rw [List.dropWhile_eq_nil_iff]
        simpa using hfind
      unfold blockOf at h
      rw [hdrop] at h
      exact .inl (Except.ok.inj h).symm
  | some opener =>
      obtain ⟨hopens, before, rest, rfl, hbefore⟩ := List.find?_eq_some_iff_append.mp hfind
      have hbefore : ∀ tag ∈ before, tag.kind.opensBlock = false := by
        intro tag htag
        simpa using hbefore tag htag
      rw [blockOf_append hbefore] at h
      have howns := ownsSections hopens rest
      have hkind : opener.kind = .doc ∨ opener.kind = .endpoint := by
        simpa [TagKind.opensBlock] using hopens
      by_cases hcomplete : opener.complete = true
      · rcases hkind with hkind | hkind
        · obtain ⟨doc, hdoc, hresponses⟩ := howns.doc hkind hcomplete block h
          exact .inr (.inr ⟨rest, doc, hdoc, hresponses⟩)
        · obtain ⟨e, he, hreads⟩ := howns.endpoint hkind hcomplete block h
          exact .inr (.inl ⟨opener, rest, e, he, hreads⟩)
      · have hempty := howns.incomplete (by simpa using hcomplete)
        rw [h] at hempty
        exact .inl (Except.ok.inj hempty)

theorem ReadFrom.typesParsed {opener : Tag} {rest : List Tag} {e : Endpoint}
    (h : ReadFrom opener rest e) : (Block.endpoint e).TypesParsed where
  params := by
    obtain ⟨params, hparams, heq⟩ := h.params
    obtain ⟨queries, hqueries, heq'⟩ := h.queries
    rw [Block.params, heq, heq', List.forall_mem_append]
    exact ⟨parsed_params hparams, parsed_params hqueries⟩
  bodies := by
    intro body hbody
    rcases List.mem_append.mp hbody with hbody | hbody
    · obtain ⟨requests, hrequests, heq⟩ := h.request
      obtain ⟨request, hrequest, rfl⟩ := Option.map_eq_some_iff.mp (Option.mem_toList.mp hbody)
      rw [heq] at hrequest
      obtain ⟨s, -, hs⟩ := mem_of_filterMapM hrequests (List.mem_of_head? hrequest)
      exact typeParsed_requestOf? hs
    · obtain ⟨response, hresponse, rfl⟩ := List.mem_map.mp hbody
      exact typeParsed_responses h.responses response hresponse

/-- **All types that an annotation declares are as tags build them.**  The parts of each fit its
kind, its members stand under their own names, each once and without dots, at every depth, and no
type has a text but that of a request or a response as a whole. -/
theorem blockOf_typesParsed {tags : List Tag} {block : Block} (h : blockOf tags = .ok block) :
    block.TypesParsed := by
  rcases blockOf_reads h with rfl | ⟨opener, rest, e, rfl, hreads⟩ | ⟨rest, doc, rfl, hresponses⟩
  · exact ⟨by simp [Block.params], by simp [Block.bodies]⟩
  · exact hreads.typesParsed
  · refine ⟨by simp [Block.params], ?_⟩
    intro body hbody
    obtain ⟨response, hresponse, rfl⟩ := List.mem_map.mp hbody
    exact typeParsed_responses hresponses response hresponse

/-- An annotation with a member below an array, which a second tag of its name replaces, and two
members that nothing can take. -/
def findPetTags : List Tag :=
  [⟨"api", "POST /pets find a pet", ⟨1, 1⟩⟩,
    ⟨"apiQuery", "by object required", ⟨2, 1⟩⟩,
    ⟨"apiQuery", "by.owners array.object optional who may own it", ⟨3, 1⟩⟩,
    ⟨"apiQuery", "by.owners.name int required", ⟨4, 1⟩⟩,
    ⟨"apiQuery", "by.owners.name string required their name", ⟨5, 1⟩⟩,
    ⟨"apiQuery", "by.name.first string required", ⟨6, 1⟩⟩,
    ⟨"apiRequest", "array.object application/json what it looks like", ⟨7, 1⟩⟩,
    ⟨"apiParam", "kind string required", ⟨8, 1⟩⟩,
    ⟨"apiResponse", "200 array * some pets", ⟨9, 1⟩⟩,
    ⟨"apiParam", "lost string required", ⟨10, 1⟩⟩]

theorem blockOf_findPetTags : ∃ block, blockOf findPetTags = .ok block ∧
    block.params.map (fun p => (p.name, (p.type.membersAt? ["owners"]).map Dict.keys)) =
      [("by", some ["name"])] ∧
    block.bodies.map (fun b => b.type.map fun t => (t.description, t.members?.map Dict.keys)) =
      [some ("what it looks like", some ["kind"]), some ("some pets", none)] ∧
    block.TypesParsed := by
  have hread : (blockOf findPetTags).map (fun block =>
      (block.params.map (fun p => (p.name, (p.type.membersAt? ["owners"]).map Dict.keys)),
        block.bodies.map fun b => b.type.map fun t => (t.description, t.members?.map Dict.keys))) =
      .ok ([("by", some ["name"])],
        [some ("what it looks like", some ["kind"]), some ("some pets", none)]) := by
    decide +kernel
  obtain ⟨block, hblock, hparts⟩ := map_eq_ok.mp hread
  obtain ⟨hparams, hbodies⟩ := Prod.mk.inj hparts
  exact ⟨block, hblock, hparams, hbodies, blockOf_typesParsed hblock⟩

end Annotation

end ApiNotes
