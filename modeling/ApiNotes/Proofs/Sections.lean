/-
Sections own exactly their tags.

What an annotation declares is said here without the loops that read it.  A section is its
opener and the run of tags behind it, up to the next opener of a section and whatever becomes
of the two; the run in front of the first section belongs to the annotation as a whole.  Two
questions are left for a list of tags.  When it is read to the end, `ReadFrom` says which of
the tags each part of an endpoint comes from.  When it is not, some tag is malformed, and the
one to blame is the first of those that are looked into (`annotationReads`); `faultOf?` carries
this from the single tag up to the annotation, with one lemma for each way of putting readers
together.
-/
import ApiNotes.Proofs.UnknownTags

namespace ApiNotes.Annotation

/-! ### Runs -/

/-- The tags up to the first opener of a section. -/
def openRun (tags : List Tag) : List Tag := tags.takeWhile fun tag => !tag.kind.opensSection

/-- The tags of some kinds, each with the run of tags behind it. -/
def sectionsOf (opens : TagKind → Bool) : List Tag → List (Tag × List Tag)
  | [] => []
  | tag :: rest =>
    if opens tag.kind then (tag, openRun rest) :: sectionsOf opens rest else sectionsOf opens rest

/-- The tags of one kind. -/
def ofKind (kind : TagKind) (tags : List Tag) : List Tag := tags.filter fun tag => tag.kind == kind

theorem filter_kind_singleton {α : Type} (kindOf : α → TagKind) (kind : TagKind) (x : α) :
    [x].filter (fun y => kindOf y == kind) = if kindOf x = kind then [x] else [] := by
  by_cases h : kindOf x = kind
  · rw [if_pos h]
    exact List.filter_cons_of_pos (beq_iff_eq.mpr h)
  · rw [if_neg h]
    exact List.filter_cons_of_neg fun hkind => h (beq_iff_eq.mp hkind)

theorem ofKind_singleton (kind : TagKind) (tag : Tag) :
    ofKind kind [tag] = if tag.kind = kind then [tag] else [] :=
  filter_kind_singleton Tag.kind kind tag

/-- Tags are cut at every opener of a section. -/
theorem splitSections_eq (tags : List Tag) :
    splitSections tags = (openRun tags, sectionsOf TagKind.opensSection tags) := by
  induction tags with
  | nil => rfl
  | cons tag rest ih =>
      rw [splitSections, ih, sectionsOf]
      by_cases hopens : tag.kind.opensSection = true
      · simp [hopens, openRun]
      · simp [hopens, openRun]

/-- The sections of one kind are cut like all others. -/
theorem filter_sectionsOf (kind : TagKind) (h : kind.opensSection = true) (tags : List Tag) :
    (sectionsOf TagKind.opensSection tags).filter (fun s => s.1.kind == kind) =
      sectionsOf (· == kind) tags := by
  induction tags with
  | nil => rfl
  | cons tag rest ih =>
      rw [sectionsOf, sectionsOf]
      by_cases hkind : tag.kind = kind
      · rw [if_pos (by rw [hkind, h]), if_pos (by simpa using hkind),
          List.filter_cons_of_pos (by simpa using hkind), ih]
      · rw [if_neg (c := (tag.kind == kind) = true) (by simpa using hkind), ← ih]
        by_cases hopens : tag.kind.opensSection = true
        · rw [if_pos hopens, List.filter_cons_of_neg (by simpa using hkind)]
        · rw [if_neg hopens]

theorem kind_of_mem_sectionsOf {opens : TagKind → Bool} {tags : List Tag} {s : Tag × List Tag}
    (h : s ∈ sectionsOf opens tags) : opens s.1.kind = true := by
  induction tags with
  | nil => cases h
  | cons tag rest ih =>
      rw [sectionsOf] at h
      split at h
      next hopens =>
        rcases List.mem_cons.mp h with rfl | h
        · exact hopens
        · exact ih h
      next => exact ih h

/-! ### Malformed tags -/

namespace Tag

/-- Whether a tag has as many fields as it needs to say anything. -/
def complete (tag : Tag) : Bool :=
  match tag.kind with
  | .doc => !(headAndTail tag.body).1.isEmpty
  | .endpoint => 2 ≤ (splitFields (headAndTail tag.body).1 3).length
  | .param | .query | .response => 3 ≤ (tag.fields 4).length
  | .request => 2 ≤ (tag.fields 3).length
  | _ => true

/-- The fault of a token that names no type. -/
def typeFault? (tag : Tag) (token : String) : Option Fault :=
  match DataType.parse token with
  | .ok _ => none
  | .error _ => some ((Fault.of .invalidType "type").located tag.position)

/-- The fault of a word that is no status. -/
def statusFault? (tag : Tag) (word : String) : Option Fault :=
  match statusOf? word with
  | some _ => none
  | none => some ((Fault.of .invalidStatus "status").located tag.position)

/-- The fault of a word that is no method. -/
def methodFault? (tag : Tag) (word : String) : Option Fault :=
  match Method.ofName? word with
  | some _ => none
  | none => some ((Fault.of .invalidFormat "method").located tag.position)

/-- The fault of a tag that has all its fields, one of them malformed. -/
def fault? (tag : Tag) : Option Fault :=
  if tag.complete then
    match tag.kind with
    | .endpoint => tag.methodFault? (fieldAt (splitFields (headAndTail tag.body).1 3) 0)
    | .param | .query => tag.typeFault? (fieldAt (tag.fields 4) 1)
    | .request => tag.typeFault? (fieldAt (tag.fields 3) 0)
    | .response =>
      (tag.statusFault? (fieldAt (tag.fields 4) 0)).or (tag.typeFault? (fieldAt (tag.fields 4) 1))
    | _ => none
  else none

end Tag

/-- The tags of a section that are looked into: its opener, and when that is complete the
parameters that it owns. -/
def sectionReads (s : Tag × List Tag) : List Tag :=
  s.1 :: if s.1.complete then ofKind .param s.2 else []

/-- The tags of an endpoint that are looked into, behind its opener. -/
def endpointReads (rest : List Tag) : List Tag :=
  ((openRun rest).filter fun tag => tag.kind == .param || tag.kind == .query) ++
    (sectionsOf TagKind.opensSection rest).flatMap sectionReads

/-- The tags of a document header that are looked into, behind its opener. -/
def docReads (rest : List Tag) : List Tag :=
  (sectionsOf (· == .response) rest).flatMap sectionReads

/-- The tags of an annotation that are looked into: its opener, and when that is complete those
behind it. -/
def annotationReads (opener : Tag) (rest : List Tag) : List Tag :=
  opener ::
    if opener.complete then
      if opener.kind = .doc then docReads rest else endpointReads rest
    else []

/-! ### The first fault

The fault that ends a reading is the first among the faults of its steps.
-/

section FirstFault

variable {α β σ : Type}

/-- The fault that ended a reading. -/
def faultOf? : Checked α → Option Fault
  | .ok _ => none
  | .error fault => some fault

theorem faultOf?_eq_some {x : Checked α} {fault : Fault} :
    faultOf? x = some fault ↔ x = .error fault := by
  cases x <;> simp [faultOf?]

theorem faultOf?_bind {x : Checked α} {f : α → Checked β} {next : Option Fault}
    (h : ∀ a, x = .ok a → faultOf? (f a) = next) : faultOf? (x >>= f) = (faultOf? x).or next := by
  cases x with
  | error fault => rfl
  | ok a => exact h a rfl

/-- What is made of an answer has no fault of its own. -/
theorem faultOf?_bind_ok (x : Checked α) (f : α → β) :
    faultOf? (x >>= fun a => .ok (f a)) = faultOf? x := by
  cases x <;> rfl

theorem faultOf?_foldlM {f : σ → α → Checked σ} {step : α → Option Fault} {xs : List α}
    (h : ∀ x ∈ xs, ∀ s, faultOf? (f s x) = step x) :
    ∀ s, faultOf? (xs.foldlM f s) = xs.findSome? step := by
  induction xs with
  | nil => intro s; rfl
  | cons x rest ih =>
      rw [List.forall_mem_cons] at h
      intro s
      rw [List.foldlM_cons, faultOf?_bind fun s' _ => ih h.2 s', h.1 s, List.findSome?_cons]
      cases step x <;> rfl

theorem faultOf?_filterMapM {f : α → Checked (Option β)} {step : α → Option Fault} {xs : List α}
    (h : ∀ x ∈ xs, faultOf? (f x) = step x) :
    faultOf? (xs.filterMapM f) = xs.findSome? step := by
  induction xs with
  | nil => rfl
  | cons x rest ih =>
      rw [List.forall_mem_cons] at h
      rw [List.filterMapM_cons, List.findSome?_cons]
      refine (faultOf?_bind fun kept _ => (?_ : _ = rest.findSome? step)).trans ?_
      · cases kept with
        | none => exact ih h.2
        | some y => exact (faultOf?_bind_ok _ (y :: ·)).trans (ih h.2)
      · rw [h.1]
        cases step x <;> rfl

theorem findSome?_flatMap (g : β → Option σ) (f : α → List β) (xs : List α) :
    (xs.flatMap f).findSome? g = xs.findSome? fun x => (f x).findSome? g := by
  induction xs with
  | nil => rfl
  | cons x rest ih =>
      rw [List.flatMap_cons, List.findSome?_append, ih, List.findSome?_cons]
      cases (f x).findSome? g <;> rfl

theorem findSome?_filter (g : α → Option β) (p : α → Bool) (xs : List α) :
    (xs.filter p).findSome? g = xs.findSome? fun x => if p x then g x else none := by
  induction xs with
  | nil => rfl
  | cons x rest ih =>
      by_cases hx : p x = true
      · rw [List.filter_cons_of_pos hx, List.findSome?_cons, List.findSome?_cons, if_pos hx, ih]
      · rw [List.filter_cons_of_neg hx, List.findSome?_cons, if_neg hx, ih]

/-- A loop over tags that is stopped by the faults of some of them only. -/
theorem faultOf?_foldlM_filter {f : σ → Tag → Checked σ} {looks : Tag → Bool}
    (hlook : ∀ tag, looks tag = true → ∀ s, faultOf? (f s tag) = tag.fault?)
    (hpass : ∀ tag, looks tag = false → ∀ s, faultOf? (f s tag) = none) (tags : List Tag)
    (s : σ) : faultOf? (tags.foldlM f s) = (tags.filter looks).findSome? Tag.fault? := by
  rw [findSome?_filter]
  refine faultOf?_foldlM (fun tag _ s => ?_) s
  by_cases htag : looks tag = true
  · rw [if_pos htag, hlook tag htag]
  · rw [if_neg htag, hpass tag (by simpa using htag)]

end FirstFault

/-! ### Faults of readers -/

theorem parse_eq_error {token : String} {fault : Fault} (h : DataType.parse token = .error fault) :
    fault = Fault.of .invalidType "type" := by
  unfold DataType.parse at h
  split at h
  · cases h
  · exact (Except.error.inj h).symm

theorem faultOf?_typeAt (tag : Tag) (token : String) :
    faultOf? (typeAt tag token) = tag.typeFault? token := by
  unfold typeAt Tag.typeFault?
  cases hparse : DataType.parse token with
  | ok type => rfl
  | error fault => rw [parse_eq_error hparse]; rfl

/-- A parameter fails when its tag has a fault. -/
theorem faultOf?_paramOf? {tag : Tag} (hkind : tag.kind = .param ∨ tag.kind = .query) :
    faultOf? (paramOf? tag) = tag.fault? := by
  have hfault : tag.fault? =
      if 3 ≤ (tag.fields 4).length then tag.typeFault? (fieldAt (tag.fields 4) 1) else none := by
    rcases hkind with hkind | hkind <;> simp [Tag.fault?, Tag.complete, hkind]
  rw [hfault]
  unfold paramOf?
  rcases tag.fields 4 with _ | ⟨name, _ | ⟨token, _ | ⟨flag, rest⟩⟩⟩
  · rfl
  · rfl
  · rfl
  · exact (faultOf?_bind_ok _ _).trans (faultOf?_typeAt tag token)

theorem faultOf?_addParam (body : Body) {tag : Tag} (hkind : tag.kind = .param) :
    faultOf? (body.addParam tag) = tag.fault? := by
  rw [← faultOf?_paramOf? (.inl hkind)]
  unfold Body.addParam
  cases paramOf? tag with
  | error fault => rfl
  | ok param => cases param <;> rfl

/-- A body fails at the first of its parameters that has a fault. -/
theorem faultOf?_addTags (body : Body) (owned : List Tag) :
    faultOf? (body.addTags owned) = (ofKind .param owned).findSome? Tag.fault? := by
  refine faultOf?_foldlM_filter (fun tag hkind body => ?_) (fun tag hkind body => ?_) owned body
  · unfold Body.addTag
    rw [beq_iff_eq.mp hkind]
    exact faultOf?_addParam body (beq_iff_eq.mp hkind)
  · unfold Body.addTag
    split
    next => rfl
    next => rfl
    next hparam => rw [hparam] at hkind; cases hkind
    next => rfl

/-- A section whose opener is complete looks into the parameters that it owns. -/
theorem findSome?_sectionReads (s : Tag × List Tag) :
    (sectionReads s).findSome? Tag.fault? =
      if s.1.complete then s.1.fault?.or ((ofKind .param s.2).findSome? Tag.fault?) else none := by
  rw [sectionReads, List.findSome?_cons]
  by_cases hcomplete : s.1.complete = true
  · rw [if_pos hcomplete, if_pos hcomplete]
    cases s.1.fault? <;> rfl
  · rw [if_neg hcomplete, if_neg hcomplete, Tag.fault?, if_neg hcomplete]
    rfl

/-- A response fails at the first of the tags of its section that are looked into. -/
theorem faultOf?_responseOf? {tag : Tag} (hkind : tag.kind = .response) (owned : List Tag) :
    faultOf? (responseOf? tag owned) = (sectionReads (tag, owned)).findSome? Tag.fault? := by
  rw [findSome?_sectionReads, Tag.fault?, Tag.complete, hkind]
  unfold responseOf?
  simp only
  rcases tag.fields 4 with _ | ⟨status, _ | ⟨token, _ | ⟨mimetype, rest⟩⟩⟩
  · rfl
  · rfl
  · rfl
  · rw [if_pos (by simp), if_pos (by simp), Option.or_assoc, Tag.statusFault?,
      show fieldAt (status :: token :: mimetype :: rest) 0 = status from rfl]
    dsimp only
    cases statusOf? status with
    | none => rfl
    | some n =>
        refine (faultOf?_bind fun status _ => faultOf?_bind fun type _ =>
          (faultOf?_bind_ok _ _).trans (faultOf?_addTags _ owned)).trans ?_
        rw [faultOf?_typeAt]
        rfl

/-- So does a request. -/
theorem faultOf?_requestOf? {tag : Tag} (hkind : tag.kind = .request) (owned : List Tag) :
    faultOf? (requestOf? tag owned) = (sectionReads (tag, owned)).findSome? Tag.fault? := by
  rw [findSome?_sectionReads, Tag.fault?, Tag.complete, hkind]
  unfold requestOf?
  simp only
  rcases tag.fields 3 with _ | ⟨token, _ | ⟨mimetype, rest⟩⟩
  · rfl
  · rfl
  · rw [if_pos (by simp), if_pos (by simp)]
    refine (faultOf?_bind fun type _ =>
      (faultOf?_bind_ok _ _).trans (faultOf?_addTags _ owned)).trans ?_
    rw [faultOf?_typeAt]
    rfl

/-- A document header fails at the first of the tags of its response sections that are looked
into. -/
theorem faultOf?_docOf? {opener : Tag} (hkind : opener.kind = .doc) (rest : List Tag) :
    faultOf? (docOf? opener rest) =
      if opener.complete then (docReads rest).findSome? Tag.fault? else none := by
  have hcomplete : opener.complete = !(headAndTail opener.body).1.isEmpty := by
    rw [Tag.complete, hkind]
  rw [hcomplete]
  unfold docOf?
  rw [splitSections_eq]
  simp only [filter_sectionsOf .response rfl]
  cases (headAndTail opener.body).1.isEmpty with
  | true => rfl
  | false =>
      refine (faultOf?_bind_ok _ _).trans ?_
      rw [docReads, findSome?_flatMap]
      refine faultOf?_filterMapM fun s hs => faultOf?_responseOf? ?_ s.2
      exact beq_iff_eq.mp (kind_of_mem_sectionsOf hs)

theorem faultOf?_describeEndpoint {tag : Tag} (hkind : tag.kind = .param ∨ tag.kind = .query)
    (e : Endpoint) : faultOf? (describeEndpoint e tag) = tag.fault? := by
  rw [← faultOf?_paramOf? hkind]
  unfold describeEndpoint
  rcases hkind with hkind | hkind
  · rw [hkind]
    cases paramOf? tag with
    | error fault => rfl
    | ok param => cases param <;> rfl
  · rw [hkind]
    cases paramOf? tag with
    | error fault => rfl
    | ok param => cases param <;> rfl

theorem faultOf?_describeSection {s : Tag × List Tag} (hopens : s.1.kind.opensSection = true)
    (e : Endpoint) :
    faultOf? (describeSection e s.1 s.2) = (sectionReads s).findSome? Tag.fault? := by
  have hkind : s.1.kind = .request ∨ s.1.kind = .response := by
    simpa [TagKind.opensSection] using hopens
  unfold describeSection
  rcases hkind with hkind | hkind
  · rw [hkind]
    exact (faultOf?_bind_ok _ _).trans (faultOf?_requestOf? hkind s.2)
  · rw [hkind]
    exact (faultOf?_bind_ok _ _).trans (faultOf?_responseOf? hkind s.2)

theorem faultOf?_describeEndpoints (tags : List Tag) (e : Endpoint) :
    faultOf? (tags.foldlM describeEndpoint e) =
      (tags.filter fun tag => tag.kind == .param || tag.kind == .query).findSome? Tag.fault? := by
  refine faultOf?_foldlM_filter (fun tag hlooks e => ?_) (fun tag hlooks e => ?_) tags e
  · exact faultOf?_describeEndpoint (by simpa using hlooks) e
  · unfold describeEndpoint
    split
    next => rfl
    next hkind => rw [hkind] at hlooks; cases hlooks
    next hkind => rw [hkind] at hlooks; cases hlooks
    next => rfl
    next => rfl

theorem faultOf?_describeSections (tags : List Tag) (e : Endpoint) :
    faultOf? ((sectionsOf TagKind.opensSection tags).foldlM
        (fun e s => describeSection e s.1 s.2) e) =
      ((sectionsOf TagKind.opensSection tags).flatMap sectionReads).findSome? Tag.fault? := by
  rw [findSome?_flatMap]
  exact faultOf?_foldlM (fun s hs => faultOf?_describeSection (kind_of_mem_sectionsOf hs)) e

/-- An endpoint fails at the first of its tags that are looked into: at its opener, in front of
the sections, or in one of them. -/
theorem faultOf?_endpointOf? {opener : Tag} (hkind : opener.kind = .endpoint) (rest : List Tag) :
    faultOf? (endpointOf? opener rest) =
      if opener.complete then opener.fault?.or ((endpointReads rest).findSome? Tag.fault?)
      else none := by
  rw [Tag.fault?, Tag.complete, hkind]
  unfold endpointOf?
  rw [splitSections_eq]
  dsimp only
  rcases splitFields (headAndTail opener.body).1 3 with _ | ⟨method, _ | ⟨path, summary⟩⟩
  · rfl
  · rfl
  · rw [if_pos (by simp), if_pos (by simp), Tag.methodFault?,
      show fieldAt (method :: path :: summary) 0 = method from rfl]
    dsimp only
    -- the method is looked at before any of the tags behind the opener
    cases Method.ofName? method with
    | none => rfl
    | some m =>
        refine (faultOf?_bind fun e _ =>
          (faultOf?_bind_ok _ some).trans (faultOf?_describeSections rest e)).trans ?_
        rw [faultOf?_describeEndpoints, endpointReads, List.findSome?_append]
        rfl

theorem blockOf_doc {opener : Tag} (hkind : opener.kind = .doc) (rest : List Tag) :
    blockOf (opener :: rest) =
      docOf? opener rest >>= fun found => .ok (found.elim .empty .doc) := by
  unfold blockOf
  rw [List.dropWhile_cons_of_neg (by simp [hkind, TagKind.opensBlock])]
  dsimp only
  rw [if_pos hkind]
  refine bind_congr fun found => ?_
  cases found <;> rfl

theorem blockOf_endpoint {opener : Tag} (hkind : opener.kind = .endpoint) (rest : List Tag) :
    blockOf (opener :: rest) =
      endpointOf? opener rest >>= fun found => .ok (found.elim .empty .endpoint) := by
  unfold blockOf
  rw [List.dropWhile_cons_of_neg (by simp [hkind, TagKind.opensBlock])]
  dsimp only
  rw [if_neg (by simp [hkind])]
  refine bind_congr fun found => ?_
  cases found <;> rfl

theorem faultOf?_blockOf {opener : Tag} (hopens : opener.kind.opensBlock = true)
    (rest : List Tag) :
    faultOf? (blockOf (opener :: rest)) = (annotationReads opener rest).findSome? Tag.fault? := by
  have hkind : opener.kind = .doc ∨ opener.kind = .endpoint := by
    simpa [TagKind.opensBlock] using hopens
  rw [annotationReads, List.findSome?_cons]
  rcases hkind with hkind | hkind
  · rw [blockOf_doc hkind, faultOf?_bind_ok, faultOf?_docOf? hkind, Tag.fault?, hkind]
    by_cases hcomplete : opener.complete = true
    · rw [if_pos hcomplete, if_pos hcomplete, if_pos hcomplete]
      rfl
    · rw [if_neg hcomplete, if_neg hcomplete, if_neg hcomplete]
      rfl
  · rw [blockOf_endpoint hkind, faultOf?_bind_ok, faultOf?_endpointOf? hkind]
    by_cases hcomplete : opener.complete = true
    · rw [if_pos hcomplete, if_pos hcomplete, if_neg (by rw [hkind]; decide)]
      cases opener.fault? <;> rfl
    · rw [if_neg hcomplete, if_neg hcomplete, Tag.fault?, if_neg hcomplete]
      rfl

/-! ### What is read -/

/-- An endpoint is read from its opener and the tags behind it. -/
structure ReadFrom (opener : Tag) (rest : List Tag) (e : Endpoint) : Prop where
  /-- The opener gives method, path and texts. -/
  head : ∃ method summary, splitFields (headAndTail opener.body).1 3 = method :: e.path :: summary ∧
    Method.ofName? method = some e.method ∧ e.summary = fieldAt summary 0 ∧
    e.description = (headAndTail opener.body).2 ∧ e.position = opener.position ∧ e.file = none
  /-- Each response tag that is complete gives a response, together with the run behind it. -/
  responses : (sectionsOf (· == .response) rest).filterMapM (fun s => responseOf? s.1 s.2) =
    .ok e.responses
  /-- The first request tag that is complete gives the request; the others count for nothing. -/
  request : ∃ requests, (sectionsOf (· == .request) rest).filterMapM
    (fun s => requestOf? s.1 s.2) = .ok requests ∧ e.request = requests.head?
  /-- All else comes from the run in front of the sections. -/
  tags : e.tags = (ofKind .tags (openRun rest)).flatMap fun tag => groupNames tag.body
  headers : e.headers = (ofKind .header (openRun rest)).filterMap headerOf?
  params : ∃ params, (ofKind .param (openRun rest)).filterMapM paramOf? = .ok params ∧
    e.params = params.foldl attachParam []
  queries : ∃ queries, (ofKind .query (openRun rest)).filterMapM paramOf? = .ok queries ∧
    e.queries = queries.foldl attachParam []

/-- Answers that are kept in two parts of a list. -/
theorem filterMapM_append {α β : Type} {f : α → Checked (Option β)} {xs ys : List α}
    {as bs : List β} (hxs : xs.filterMapM f = .ok as) (hys : ys.filterMapM f = .ok bs) :
    (xs ++ ys).filterMapM f = .ok (as ++ bs) := by
  induction xs generalizing as with
  | nil =>
      obtain rfl : [] = as := Except.ok.inj hxs
      exact hys
  | cons x rest ih =>
      rw [List.filterMapM_cons, bind_eq_ok] at hxs
      obtain ⟨kept, hkept, hrest⟩ := hxs
      rw [List.cons_append, List.filterMapM_cons, hkept]
      cases kept with
      | none => exact ih hrest
      | some b =>
          obtain ⟨as', has', hcons⟩ := bind_eq_ok.mp hrest
          obtain rfl : b :: as' = as := Except.ok.inj hcons
          show ((rest ++ ys).filterMapM f >>= fun cs => pure (b :: cs)) = _
          rw [ih has']
          rfl

theorem filterMapM_singleton {α β : Type} {f : α → Checked (Option β)} {x : α} {kept : Option β}
    (h : f x = .ok kept) : [x].filterMapM f = .ok kept.toList := by
  rw [List.filterMapM_cons, h]
  cases kept <;> rfl

/-- What tags in front of the sections add to an endpoint. -/
def AddsFront (tags : List Tag) (e e' : Endpoint) : Prop :=
  ∃ params queries, (ofKind .param tags).filterMapM paramOf? = .ok params ∧
    (ofKind .query tags).filterMapM paramOf? = .ok queries ∧
    e' = { e with
      tags := e.tags ++ (ofKind .tags tags).flatMap fun tag => groupNames tag.body
      headers := e.headers ++ (ofKind .header tags).filterMap headerOf?
      params := params.foldl attachParam e.params
      queries := queries.foldl attachParam e.queries }

theorem AddsFront.append {tags more : List Tag} {e e' e'' : Endpoint} (h : AddsFront tags e e')
    (h' : AddsFront more e' e'') : AddsFront (tags ++ more) e e'' := by
  obtain ⟨params, queries, hparams, hqueries, rfl⟩ := h
  obtain ⟨params', queries', hparams', hqueries', rfl⟩ := h'
  have hkinds : ∀ kind, ofKind kind (tags ++ more) = ofKind kind tags ++ ofKind kind more :=
    fun kind => List.filter_append ..
  refine ⟨params ++ params', queries ++ queries', ?_, ?_, ?_⟩
  · rw [hkinds]
    exact filterMapM_append hparams hparams'
  · rw [hkinds]
    exact filterMapM_append hqueries hqueries'
  · simp [hkinds]

/-- One tag adds what its kind says. -/
theorem describeEndpoint_adds {tag : Tag} {e e' : Endpoint}
    (h : describeEndpoint e tag = .ok e') : AddsFront [tag] e e' := by
  unfold describeEndpoint at h
  unfold AddsFront
  simp only [ofKind_singleton]
  split at h
  next hkind =>
    obtain rfl := Except.ok.inj h
    exact ⟨[], [], by simp [hkind, pure_eq_ok], by simp [hkind, pure_eq_ok], by simp [hkind]⟩
  next hkind =>
    obtain ⟨param, hparam, h⟩ := bind_eq_ok.mp h
    refine ⟨param.toList, [], ?_, by simp [hkind, pure_eq_ok], ?_⟩
    · rw [if_pos hkind]
      exact filterMapM_singleton hparam
    · cases param <;> simp [hkind, ← Except.ok.inj h]
  next hkind =>
    obtain ⟨param, hparam, h⟩ := bind_eq_ok.mp h
    refine ⟨[], param.toList, by simp [hkind, pure_eq_ok], ?_, ?_⟩
    · rw [if_pos hkind]
      exact filterMapM_singleton hparam
    · cases param <;> simp [hkind, ← Except.ok.inj h]
  next hkind =>
    obtain rfl := Except.ok.inj h
    refine ⟨[], [], by simp [hkind, pure_eq_ok], by simp [hkind, pure_eq_ok], ?_⟩
    cases hheader : headerOf? tag <;> simp [hkind, hheader]
  next htags hparam hquery hheader =>
    obtain rfl := Except.ok.inj h
    refine ⟨[], [], ?_, ?_, ?_⟩
    · rw [if_neg hparam]
      rfl
    · rw [if_neg hquery]
      rfl
    · rw [if_neg htags, if_neg hheader]
      simp

theorem describeEndpoints_adds {tags : List Tag} {e e' : Endpoint}
    (h : tags.foldlM describeEndpoint e = .ok e') : AddsFront tags e e' := by
  induction tags generalizing e with
  | nil =>
      obtain rfl : e = e' := Except.ok.inj h
      exact ⟨[], [], rfl, rfl, by simp [ofKind]⟩
  | cons tag rest ih =>
      rw [List.foldlM_cons, bind_eq_ok] at h
      obtain ⟨mid, hmid, hrest⟩ := h
      exact (describeEndpoint_adds hmid).append (ih hrest)

/-- The sections that tags of one kind open. -/
def openedBy (kind : TagKind) (sections : List (Tag × List Tag)) : List (Tag × List Tag) :=
  sections.filter fun s => s.1.kind == kind

theorem openedBy_singleton (kind : TagKind) (s : Tag × List Tag) :
    openedBy kind [s] = if s.1.kind = kind then [s] else [] :=
  filter_kind_singleton (fun s : Tag × List Tag => s.1.kind) kind s

/-- What sections add to an endpoint. -/
def AddsSections (sections : List (Tag × List Tag)) (e e' : Endpoint) : Prop :=
  ∃ requests responses,
    (openedBy .request sections).filterMapM (fun s => requestOf? s.1 s.2) = .ok requests ∧
    (openedBy .response sections).filterMapM (fun s => responseOf? s.1 s.2) = .ok responses ∧
    e' = { e with
      request := e.request.or requests.head?
      responses := e.responses ++ responses }

theorem AddsSections.append {sections more : List (Tag × List Tag)} {e e' e'' : Endpoint}
    (h : AddsSections sections e e') (h' : AddsSections more e' e'') :
    AddsSections (sections ++ more) e e'' := by
  obtain ⟨requests, responses, hrequests, hresponses, rfl⟩ := h
  obtain ⟨requests', responses', hrequests', hresponses', rfl⟩ := h'
  have hkinds : ∀ kind, openedBy kind (sections ++ more) =
      openedBy kind sections ++ openedBy kind more := fun kind => List.filter_append ..
  refine ⟨requests ++ requests', responses ++ responses', ?_, ?_, ?_⟩
  · rw [hkinds]
    exact filterMapM_append hrequests hrequests'
  · rw [hkinds]
    exact filterMapM_append hresponses hresponses'
  · simp [Option.or_assoc, List.head?_append]

/-- One section adds a request or a response, when it is complete. -/
theorem describeSection_adds {s : Tag × List Tag} (hopens : s.1.kind.opensSection = true)
    {e e' : Endpoint} (h : describeSection e s.1 s.2 = .ok e') : AddsSections [s] e e' := by
  have hkind : s.1.kind = .request ∨ s.1.kind = .response := by
    simpa [TagKind.opensSection] using hopens
  unfold describeSection at h
  unfold AddsSections
  rw [openedBy_singleton, openedBy_singleton]
  rcases hkind with hkind | hkind
  · rw [hkind] at h ⊢
    obtain ⟨request, hrequest, h⟩ := bind_eq_ok.mp h
    refine ⟨request.toList, [], ?_, ?_, ?_⟩
    · rw [if_pos rfl]
      exact filterMapM_singleton hrequest
    · rw [if_neg (by decide)]
      rfl
    · cases request <;> simp [← Except.ok.inj h]
  · rw [hkind] at h ⊢
    obtain ⟨response, hresponse, h⟩ := bind_eq_ok.mp h
    refine ⟨[], response.toList, ?_, ?_, ?_⟩
    · rw [if_neg (by decide)]
      rfl
    · rw [if_pos rfl]
      exact filterMapM_singleton hresponse
    · simp [← Except.ok.inj h]

theorem describeSections_adds {sections : List (Tag × List Tag)}
    (hopens : ∀ s ∈ sections, s.1.kind.opensSection = true) {e e' : Endpoint}
    (h : sections.foldlM (fun e s => describeSection e s.1 s.2) e = .ok e') :
    AddsSections sections e e' := by
  induction sections generalizing e with
  | nil =>
      obtain rfl : e = e' := Except.ok.inj h
      exact ⟨[], [], rfl, rfl, by simp⟩
  | cons s rest ih =>
      rw [List.forall_mem_cons] at hopens
      rw [List.foldlM_cons, bind_eq_ok] at h
      obtain ⟨mid, hmid, hrest⟩ := h
      exact (describeSection_adds hopens.1 hmid).append (ih hopens.2 hrest)

theorem endpointOf?_reads {opener : Tag} {rest : List Tag} {found : Option Endpoint}
    (hkind : opener.kind = .endpoint) (hcomplete : opener.complete = true)
    (h : endpointOf? opener rest = .ok found) : ∃ e, found = some e ∧ ReadFrom opener rest e := by
  rw [Tag.complete, hkind] at hcomplete
  unfold endpointOf? at h
  rw [splitSections_eq] at h
  dsimp only at h hcomplete
  rcases hfields : splitFields (headAndTail opener.body).1 3 with
    _ | ⟨method, _ | ⟨path, summary⟩⟩
  · rw [hfields] at hcomplete
    cases hcomplete
  · rw [hfields] at hcomplete
    cases hcomplete
  · rw [hfields] at h
    dsimp only at h
    cases hmethod : Method.ofName? method with
    | none =>
        rw [hmethod] at h
        cases h
    | some m =>
        rw [hmethod] at h
        obtain ⟨mid, hmid, h⟩ := bind_eq_ok.mp h
        obtain ⟨e, he, h⟩ := bind_eq_ok.mp h
        obtain ⟨params, queries, hparams, hqueries, rfl⟩ := describeEndpoints_adds hmid
        obtain ⟨requests, responses, hrequests, hresponses, rfl⟩ :=
          describeSections_adds (fun s hs => kind_of_mem_sectionsOf hs) he
        rw [openedBy, filter_sectionsOf _ rfl] at hrequests hresponses
        exact ⟨_, (Except.ok.inj h).symm,
          { head := ⟨method, summary, hfields, hmethod, rfl, rfl, rfl, rfl⟩
            responses := hresponses
            request := ⟨requests, hrequests, rfl⟩
            tags := rfl
            headers := rfl
            params := ⟨params, hparams, rfl⟩
            queries := ⟨queries, hqueries, rfl⟩ }⟩

theorem docOf?_reads {opener : Tag} {rest : List Tag} {found : Option ApiDoc}
    (hkind : opener.kind = .doc) (hcomplete : opener.complete = true)
    (h : docOf? opener rest = .ok found) :
    ∃ doc, found = some doc ∧
      (sectionsOf (· == .response) rest).filterMapM (fun s => responseOf? s.1 s.2) =
        .ok doc.responses := by
  rw [Tag.complete, hkind, Bool.not_eq_true'] at hcomplete
  unfold docOf? at h
  rw [splitSections_eq] at h
  simp only [filter_sectionsOf .response rfl, hcomplete, Bool.false_eq_true, if_false] at h
  obtain ⟨responses, hresponses, h⟩ := bind_eq_ok.mp h
  exact ⟨_, (Except.ok.inj h).symm, hresponses⟩

theorem endpointOf?_incomplete {opener : Tag} (hkind : opener.kind = .endpoint)
    (hincomplete : opener.complete = false) (rest : List Tag) :
    endpointOf? opener rest = .ok none := by
  rw [Tag.complete, hkind] at hincomplete
  unfold endpointOf?
  dsimp only at hincomplete ⊢
  rcases hfields : splitFields (headAndTail opener.body).1 3 with
    _ | ⟨method, _ | ⟨path, summary⟩⟩
  · rfl
  · rfl
  · rw [hfields] at hincomplete
    simp at hincomplete

theorem docOf?_incomplete {opener : Tag} (hkind : opener.kind = .doc)
    (hincomplete : opener.complete = false) (rest : List Tag) : docOf? opener rest = .ok none := by
  rw [Tag.complete, hkind, Bool.not_eq_false'] at hincomplete
  unfold docOf?
  simp only [hincomplete, if_true]

/-- What an annotation declares, its opener and the tags behind it being given. -/
structure OwnsSections (opener : Tag) (rest : List Tag) (outcome : Checked Block) : Prop where
  /-- An opener with too few fields declares nothing, whatever stands behind it. -/
  incomplete : opener.complete = false → outcome = .ok .empty
  endpoint : opener.kind = .endpoint → opener.complete = true → ∀ block, outcome = .ok block →
    ∃ e, block = .endpoint e ∧ ReadFrom opener rest e
  /-- The responses that all endpoints share come from sections in the same way. -/
  doc : opener.kind = .doc → opener.complete = true → ∀ block, outcome = .ok block →
    ∃ doc, block = .doc doc ∧
      (sectionsOf (· == .response) rest).filterMapM (fun s => responseOf? s.1 s.2) =
        .ok doc.responses
  /-- The fault is that of the first malformed tag among those that are looked into. -/
  fails : ∀ fault, outcome = .error fault ↔
    (annotationReads opener rest).findSome? Tag.fault? = some fault

theorem ownsSections {opener : Tag} (hopens : opener.kind.opensBlock = true) (rest : List Tag) :
    OwnsSections opener rest (blockOf (opener :: rest)) where
  incomplete := by
    intro hincomplete
    have hkind : opener.kind = .doc ∨ opener.kind = .endpoint := by
      simpa [TagKind.opensBlock] using hopens
    rcases hkind with hkind | hkind
    · rw [blockOf_doc hkind, docOf?_incomplete hkind hincomplete]
      rfl
    · rw [blockOf_endpoint hkind, endpointOf?_incomplete hkind hincomplete]
      rfl
  endpoint := by
    intro hkind hcomplete block h
    rw [blockOf_endpoint hkind] at h
    obtain ⟨found, hfound, h⟩ := bind_eq_ok.mp h
    obtain ⟨e, rfl, he⟩ := endpointOf?_reads hkind hcomplete hfound
    exact ⟨e, (Except.ok.inj h).symm, he⟩
  doc := by
    intro hkind hcomplete block h
    rw [blockOf_doc hkind] at h
    obtain ⟨found, hfound, h⟩ := bind_eq_ok.mp h
    obtain ⟨doc, rfl, hdoc⟩ := docOf?_reads hkind hcomplete hfound
    exact ⟨doc, (Except.ok.inj h).symm, hdoc⟩
  fails := by
    intro fault
    rw [← faultOf?_eq_some, faultOf?_blockOf hopens]

/-- Tags in front of the first opener count for nothing. -/
theorem blockOf_append {before : List Tag} (h : ∀ tag ∈ before, tag.kind.opensBlock = false)
    (tags : List Tag) : blockOf (before ++ tags) = blockOf tags := by
  unfold blockOf
  rw [List.dropWhile_append_of_pos fun tag htag => by rw [h tag htag]; rfl]

/-- **Sections own exactly their tags.**  The tags in front of the first opener count for nothing;
behind it each response and request is made of its opener and the run of tags that it owns, all
else of the run in front of them, and what fails is the first malformed tag that is looked into. -/
theorem blockOf_owns_sections {tags : List Tag} (h : ∃ tag ∈ tags, tag.kind.opensBlock = true) :
    ∃ before opener rest, tags = before ++ opener :: rest ∧
      (∀ tag ∈ before, tag.kind.opensBlock = false) ∧ opener.kind.opensBlock = true ∧
      blockOf tags = blockOf (opener :: rest) ∧ OwnsSections opener rest (blockOf tags) := by
  obtain ⟨opener, hfind⟩ : ∃ opener, tags.find? (·.kind.opensBlock) = some opener := by
    rw [← Option.isSome_iff_exists, List.find?_isSome]
    exact h
  obtain ⟨hopens, before, rest, rfl, hbefore⟩ := List.find?_eq_some_iff_append.mp hfind
  have hbefore : ∀ tag ∈ before, tag.kind.opensBlock = false := by
    intro tag htag
    simpa using hbefore tag htag
  refine ⟨before, opener, rest, rfl, hbefore, hopens, blockOf_append hbefore _, ?_⟩
  rw [blockOf_append hbefore]
  exact ownsSections hopens rest

/-- An annotation with tags in front of its opener, a response tag that lacks its mimetype, with a
parameter of its own that names no type, and a second request. -/
def adoptPetTags : List Tag :=
  [⟨"apiParam", "stray int", ⟨1, 1⟩⟩,
    ⟨"api", "POST /pets/:id adopt a pet", ⟨2, 1⟩⟩,
    ⟨"apiTags", "pets", ⟨3, 1⟩⟩,
    ⟨"apiParam", "id int required", ⟨4, 1⟩⟩,
    ⟨"apiResponse", "404 object", ⟨5, 1⟩⟩,
    ⟨"apiParam", "reason text required", ⟨6, 1⟩⟩,
    ⟨"apiRequest", "object application/json the new owner", ⟨7, 1⟩⟩,
    ⟨"apiParam", "name string required", ⟨8, 1⟩⟩,
    ⟨"apiRequest", "string text/plain", ⟨9, 1⟩⟩,
    ⟨"apiResponse", "200 none *", ⟨10, 1⟩⟩]

example : (annotationReads ⟨"api", "POST /pets/:id adopt a pet", ⟨2, 1⟩⟩
    (adoptPetTags.drop 2)).map (·.position.line) = [2, 4, 5, 7, 8, 9, 10] := by
  decide +kernel

theorem blockOf_adoptPetTags : (∃ tag ∈ adoptPetTags, tag.kind.opensBlock = true) ∧
    ∃ e, blockOf adoptPetTags = .ok (.endpoint e) ∧
      ReadFrom ⟨"api", "POST /pets/:id adopt a pet", ⟨2, 1⟩⟩ (adoptPetTags.drop 2) e := by
  have hopener : ∃ tag ∈ adoptPetTags, tag.kind.opensBlock = true := by decide
  obtain ⟨before, opener, rest, htags, hbefore, hopens, -, howns⟩ := blockOf_owns_sections hopener
  obtain ⟨rfl, rfl⟩ : opener = ⟨"api", "POST /pets/:id adopt a pet", ⟨2, 1⟩⟩ ∧
      rest = adoptPetTags.drop 2 := by
    rcases before with _ | ⟨first, _ | ⟨second, more⟩⟩
    · obtain ⟨rfl, -⟩ := List.cons.inj htags
      exact absurd hopens (by decide)
    · obtain ⟨-, htags⟩ := List.cons.inj htags
      obtain ⟨rfl, rfl⟩ := List.cons.inj htags
      exact ⟨rfl, rfl⟩
    · obtain ⟨-, htags⟩ := List.cons.inj htags
      obtain ⟨rfl, -⟩ := List.cons.inj htags
      exact absurd (hbefore ⟨"api", "POST /pets/:id adopt a pet", ⟨2, 1⟩⟩ (by simp)) (by decide)
  refine ⟨hopener, ?_⟩
  cases hblock : blockOf adoptPetTags with
  | error fault =>
      have hfault := (howns.fails fault).mp hblock
      rw [show List.findSome? Tag.fault? _ = none by decide +kernel] at hfault
      cases hfault
  | ok block =>
      obtain ⟨e, rfl, he⟩ := howns.endpoint (by decide) (by decide +kernel) block hblock
      exact ⟨e, rfl, he⟩

end ApiNotes.Annotation
