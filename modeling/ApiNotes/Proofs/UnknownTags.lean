/-
Unknown tags are invisible.

A tag whose name the annotation language does not know may stand anywhere, and the annotation
means what it would mean without it.  No reader looks at such a tag: each loop passes it over
and leaves its state alone, and since it opens nothing the cuts into opener, front and sections
fall at the same tags.  So every reader below gives the same answer, and the same fault at the
same place, on the tags that are left.
-/
import ApiNotes.Annotation.Block
import ApiNotes.Proofs.Checks

namespace ApiNotes.Annotation

/-- The tags without the unknown ones. -/
def known (tags : List Tag) : List Tag := tags.filter fun tag => tag.kind != .unknown

/-! ### Loops that pass elements over -/

section Loops

variable {α σ : Type} {p : α → Bool}

theorem foldlM_filter_idle {f : σ → α → Checked σ} (h : ∀ s x, p x = false → f s x = .ok s)
    (xs : List α) : ∀ s, (xs.filter p).foldlM f s = xs.foldlM f s := by
  induction xs with
  | nil => intro s; rfl
  | cons x rest ih =>
      intro s
      by_cases hx : p x = true
      · rw [List.filter_cons_of_pos hx, List.foldlM_cons, List.foldlM_cons]
        exact bind_congr ih
      · have hidle : f s x = .ok s := h s x (by simpa using hx)
        rw [List.filter_cons_of_neg hx, List.foldlM_cons, hidle]
        exact ih s

theorem foldl_filter_idle {f : σ → α → σ} (h : ∀ s x, p x = false → f s x = s) (xs : List α) :
    ∀ s, (xs.filter p).foldl f s = xs.foldl f s := by
  induction xs with
  | nil => intro s; rfl
  | cons x rest ih =>
      intro s
      by_cases hx : p x = true
      · rw [List.filter_cons_of_pos hx, List.foldl_cons, List.foldl_cons, ih]
      · have hidle : f s x = s := h s x (by simpa using hx)
        rw [List.filter_cons_of_neg hx, List.foldl_cons, hidle, ih]

end Loops

theorem kind_of_not_known {tag : Tag} (h : (tag.kind != .unknown) = false) :
    tag.kind = .unknown := by
  simpa using h

theorem known_cons {tag : Tag} (h : tag.kind ≠ .unknown) (rest : List Tag) :
    known (tag :: rest) = tag :: known rest :=
  List.filter_cons_of_pos (bne_iff_ne.mpr h)

theorem known_cons_unknown {tag : Tag} (h : tag.kind = .unknown) (rest : List Tag) :
    known (tag :: rest) = known rest :=
  List.filter_cons_of_neg (by simp [h])

theorem known_append (tags more : List Tag) : known (tags ++ more) = known tags ++ known more :=
  List.filter_append ..

/-! ### Sections -/

theorem addTags_known (body : Body) (owned : List Tag) :
    body.addTags (known owned) = body.addTags owned := by
  refine foldlM_filter_idle (fun body tag htag => ?_) owned body
  unfold Body.addTag
  rw [kind_of_not_known htag]

theorem responseOf?_known (tag : Tag) (owned : List Tag) :
    responseOf? tag (known owned) = responseOf? tag owned := by
  unfold responseOf?
  simp only [addTags_known]

theorem requestOf?_known (tag : Tag) (owned : List Tag) :
    requestOf? tag (known owned) = requestOf? tag owned := by
  unfold requestOf?
  simp only [addTags_known]

/-- A section without the unknown tags that it owns. -/
def knownSection (s : Tag × List Tag) : Tag × List Tag := (s.1, known s.2)

/-- The cuts between sections fall at the same tags. -/
theorem splitSections_known (tags : List Tag) :
    splitSections (known tags) =
      (known (splitSections tags).1, (splitSections tags).2.map knownSection) := by
  induction tags with
  | nil => rfl
  | cons tag rest ih =>
      by_cases hunknown : tag.kind = .unknown
      · have hopens : tag.kind.opensSection = false := by
          rw [hunknown]
          rfl
        rw [known_cons_unknown hunknown, ih, splitSections]
        simp only [hopens, if_false, Bool.false_eq_true, known_cons_unknown hunknown]
      · rw [known_cons hunknown, splitSections, ih, splitSections]
        by_cases hopens : tag.kind.opensSection = true
        · simp only [hopens, if_true]
          rfl
        · simp only [hopens, if_false, Bool.false_eq_true, known_cons hunknown]

/-! ### Document headers -/

theorem describeDoc_known (doc : ApiDoc) (tags : List Tag) :
    (known tags).foldl describeDoc doc = tags.foldl describeDoc doc := by
  refine foldl_filter_idle (fun doc tag htag => ?_) tags doc
  unfold describeDoc
  rw [kind_of_not_known htag]

theorem flatMap_knownSection (sections : List (Tag × List Tag)) :
    (sections.map knownSection).flatMap (·.2) = known (sections.flatMap (·.2)) := by
  rw [List.flatMap_map, known, List.filter_flatMap]
  rfl

theorem filter_knownSection (kind : TagKind) (sections : List (Tag × List Tag)) :
    (sections.map knownSection).filter (fun s => s.1.kind == kind) =
      (sections.filter fun s => s.1.kind == kind).map knownSection := by
  rw [List.filter_map]
  rfl

theorem filterMapM_knownSection (sections : List (Tag × List Tag)) :
    (sections.map knownSection).filterMapM (fun s => responseOf? s.1 s.2) =
      sections.filterMapM fun s => responseOf? s.1 s.2 := by
  induction sections with
  | nil => rfl
  | cons s rest ih =>
      have hs : responseOf? (knownSection s).1 (knownSection s).2 = responseOf? s.1 s.2 :=
        responseOf?_known s.1 s.2
      rw [List.map_cons, List.filterMapM_cons, List.filterMapM_cons, hs, ih]

theorem docOf?_known (opener : Tag) (rest : List Tag) :
    docOf? opener (known rest) = docOf? opener rest := by
  unfold docOf?
  rw [splitSections_known]
  simp only [filter_knownSection, flatMap_knownSection, filterMapM_knownSection, ← known_append,
    describeDoc_known]

/-! ### Endpoints -/

theorem describeEndpoints_known (e : Endpoint) (tags : List Tag) :
    (known tags).foldlM describeEndpoint e = tags.foldlM describeEndpoint e := by
  refine foldlM_filter_idle (fun e tag htag => ?_) tags e
  unfold describeEndpoint
  rw [kind_of_not_known htag]

theorem describeSection_known (e : Endpoint) (opener : Tag) (owned : List Tag) :
    describeSection e opener (known owned) = describeSection e opener owned := by
  unfold describeSection
  rw [requestOf?_known, responseOf?_known]

theorem endpointOf?_known (opener : Tag) (rest : List Tag) :
    endpointOf? opener (known rest) = endpointOf? opener rest := by
  unfold endpointOf?
  rw [splitSections_known]
  simp only [describeEndpoints_known, List.foldlM_map, knownSection, describeSection_known]

/-! ### Annotations -/

/-- The tags before the opener fall away together with the unknown ones among them. -/
theorem dropWhile_known (tags : List Tag) :
    (known tags).dropWhile (fun tag => !tag.kind.opensBlock) =
      known (tags.dropWhile fun tag => !tag.kind.opensBlock) := by
  have hsame : (fun tag : Tag => !(tag.kind != .unknown) || !tag.kind.opensBlock) =
      fun tag => !tag.kind.opensBlock := by
    funext tag
    by_cases hknown : (tag.kind != .unknown) = true
    · rw [hknown, Bool.not_true, Bool.false_or]
    · rw [kind_of_not_known (by simpa using hknown)]
      rfl
  rw [known, List.dropWhile_filter, hsame, known]

/-- **Unknown tags are invisible.**  Tags declare what they declare without the unknown ones, or
run into the same fault at the same place. -/
theorem blockOf_known (tags : List Tag) : blockOf (known tags) = blockOf tags := by
  unfold blockOf
  rw [dropWhile_known]
  cases hdrop : tags.dropWhile fun tag => !tag.kind.opensBlock with
  | nil => rfl
  | cons opener rest =>
      have hhead := List.head?_dropWhile_not (fun tag : Tag => !tag.kind.opensBlock) tags
      have hopener : opener.kind ≠ .unknown := by
        intro hunknown
        rw [hdrop] at hhead
        simp [hunknown, TagKind.opensBlock] at hhead
      rw [known_cons hopener]
      simp only [docOf?_known, endpointOf?_known]

end ApiNotes.Annotation
