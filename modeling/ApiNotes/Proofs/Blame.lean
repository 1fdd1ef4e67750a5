/-
Endpoints and faults take their places from tags.

An endpoint stands where its opener does, and a fault where the tag does that is to blame for
it: the one whose field is malformed.  Each reader below hands on the fault of one of its
tags, from the single fields of a tag up to a whole annotation, and `blockOf_blamed` is the
last of them.
-/
import ApiNotes.Annotation.Source
import ApiNotes.Proofs.Checks

namespace ApiNotes

namespace Annotation

/-! ### Faults of tags -/

/-- A tag is to blame for a fault: the field that the fault names is malformed in this tag. -/
inductive Tag.Blamed (tag : Tag) : Fault → Prop
  /-- A type token outside the type grammar. -/
  | type (count : Nat) (token : String)
      (hkind : tag.kind ∈ [.param, .query, .request, .response])
      (htoken : token ∈ tag.fields count)
      (hparse : DataType.parse token = .error (Fault.of .invalidType "type")) :
      tag.Blamed ((Fault.of .invalidType "type").located tag.position)
  /-- A status that is no number. -/
  | status (word : String) (hkind : tag.kind = .response) (hword : word ∈ tag.fields 4)
      (hstatus : statusOf? word = none) :
      tag.Blamed ((Fault.of .invalidStatus "status").located tag.position)
  /-- A method that HTTP does not have. -/
  | method (word : String) (hkind : tag.kind = .endpoint)
      (hword : word ∈ splitFields (headAndTail tag.body).1 3)
      (hmethod : Method.ofName? word = none) :
      tag.Blamed ((Fault.of .invalidFormat "method").located tag.position)

namespace Tag.Blamed

theorem position {tag : Tag} {fault : Fault} (h : tag.Blamed fault) :
    fault.position = tag.position := by
  cases h <;> rfl

/-- The tag does not know its file. -/
theorem file {tag : Tag} {fault : Fault} (h : tag.Blamed fault) : fault.file = none := by
  cases h <;> rfl

end Tag.Blamed

theorem typeAt_blamed {tag : Tag} {token : String} {fault : Fault} (count : Nat)
    (hkind : tag.kind ∈ [.param, .query, .request, .response]) (htoken : token ∈ tag.fields count)
    (h : typeAt tag token = .error fault) : tag.Blamed fault := by
  unfold typeAt at h
  split at h
  next => cases h
  next inner hparse =>
    have hinner : inner = Fault.of .invalidType "type" := by
      unfold DataType.parse at hparse
      split at hparse
      · cases hparse
      · exact (Except.error.inj hparse).symm
    subst hinner
    rw [← Except.error.inj h]
    exact .type count token hkind htoken hparse

theorem paramOf?_blamed {tag : Tag} {fault : Fault} (hkind : tag.kind = .param ∨ tag.kind = .query)
    (h : paramOf? tag = .error fault) : tag.Blamed fault := by
  unfold paramOf? at h
  split at h
  next name token flag rest hfields =>
    rw [bind_eq_error] at h
    rcases h with h | ⟨type, -, h⟩
    · have hkind : tag.kind ∈ [.param, .query, .request, .response] := by
        rcases hkind with hkind | hkind <;> simp [hkind]
      exact typeAt_blamed 4 hkind (by simp [hfields]) h
    · cases h
  next => cases h

/-- A body in the making fails at a parameter tag. -/
theorem addTags_blamed {body : Body} {tags : List Tag} {fault : Fault}
    (h : body.addTags tags = .error fault) : ∃ tag ∈ tags, tag.Blamed fault := by
  obtain ⟨tag, htag, body', h⟩ := foldlM_eq_error tags body h
  refine ⟨tag, htag, ?_⟩
  unfold Body.addTag at h
  split at h
  next => cases h
  next => cases h
  next hkind =>
    unfold Body.addParam at h
    rw [bind_eq_error] at h
    rcases h with h | ⟨param, -, h⟩
    · exact paramOf?_blamed (.inl hkind) h
    · split at h <;> cases h
  next => cases h

/-- A response fails at its own tag, or at one that it owns. -/
theorem responseOf?_blamed {tag : Tag} {owned : List Tag} {fault : Fault}
    (hkind : tag.kind = .response) (h : responseOf? tag owned = .error fault) :
    ∃ t ∈ tag :: owned, t.Blamed fault := by
  unfold responseOf? at h
  split at h
  next status token mimetype rest hfields =>
    cases hstatus : statusOf? status with
    | none =>
        simp only [hstatus, bind, Except.bind, Except.error.injEq] at h
        rw [← h]
        exact ⟨tag, List.mem_cons_self .., .status status hkind (by simp [hfields]) hstatus⟩
    | some status' =>
        simp only [hstatus] at h
        rw [bind_eq_error] at h
        rcases h with h | ⟨_, -, h⟩
        · cases h
        rw [bind_eq_error] at h
        rcases h with h | ⟨type, -, h⟩
        · refine ⟨tag, List.mem_cons_self .., ?_⟩
          exact typeAt_blamed 4 (by simp [hkind]) (by simp [hfields]) h
        rw [bind_eq_error] at h
        rcases h with h | ⟨body, -, h⟩
        · obtain ⟨t, ht, hblamed⟩ := addTags_blamed h
          exact ⟨t, List.mem_cons_of_mem _ ht, hblamed⟩
        · cases h
  next => cases h

/-- A request fails at its own tag, or at one that it owns. -/
theorem requestOf?_blamed {tag : Tag} {owned : List Tag} {fault : Fault}
    (hkind : tag.kind = .request) (h : requestOf? tag owned = .error fault) :
    ∃ t ∈ tag :: owned, t.Blamed fault := by
  unfold requestOf? at h
  split at h
  next token mimetype rest hfields =>
    rw [bind_eq_error] at h
    rcases h with h | ⟨type, -, h⟩
    · refine ⟨tag, List.mem_cons_self .., ?_⟩
      exact typeAt_blamed 3 (by simp [hkind]) (by simp [hfields]) h
    rw [bind_eq_error] at h
    rcases h with h | ⟨body, -, h⟩
    · obtain ⟨t, ht, hblamed⟩ := addTags_blamed h
      exact ⟨t, List.mem_cons_of_mem _ ht, hblamed⟩
    · cases h
  next => cases h

/-- A tag of a section is a tag of the annotation, and the opener opens a section. -/
theorem mem_of_section {tags : List Tag} {s : Tag × List Tag} (hs : s ∈ (splitSections tags).2) :
    (s.1.kind = .request ∨ s.1.kind = .response) ∧ ∀ t ∈ s.1 :: s.2, t ∈ tags := by
  constructor
  · induction tags with
    | nil => cases hs
    | cons tag rest ih =>
        simp only [splitSections] at hs
        split at hs
        next hopens =>
          rcases List.mem_cons.mp hs with rfl | hs
          · simpa [TagKind.opensSection] using hopens
          · exact ih hs
        next => exact ih hs
  · intro t ht
    rw [← splitSections_append tags]
    exact List.mem_append_right _ (List.mem_flatMap.mpr ⟨s, hs, ht⟩)

theorem mem_of_before {tags : List Tag} {tag : Tag} (h : tag ∈ (splitSections tags).1) :
    tag ∈ tags := by
  rw [← splitSections_append tags]
  exact List.mem_append_left _ h

theorem filterMapM_eq_error {α β : Type} {f : α → Checked (Option β)} {fault : Fault} :
    ∀ {xs : List α}, xs.filterMapM f = .error fault → ∃ x ∈ xs, f x = .error fault := by
  intro xs h
  induction xs with
  | nil => cases h
  | cons x rest ih =>
      rw [List.filterMapM_cons, bind_eq_error] at h
      rcases h with h | ⟨kept, -, h⟩
      · exact ⟨x, List.mem_cons_self .., h⟩
      · have hrest : rest.filterMapM f = .error fault := by
          cases kept with
          | none => exact h
          | some y =>
              dsimp only at h
              rw [bind_eq_error] at h
              rcases h with h | ⟨_, -, h⟩
              · exact h
              · cases h
        obtain ⟨x', hx', hfault⟩ := ih hrest
        exact ⟨x', List.mem_cons_of_mem _ hx', hfault⟩

/-- A document header fails at a tag of one of its response sections. -/
theorem docOf?_blamed {opener : Tag} {rest : List Tag} {fault : Fault}
    (h : docOf? opener rest = .error fault) : ∃ tag ∈ rest, tag.Blamed fault := by
  unfold docOf? at h
  split at h
  next title description hhead =>
    split at h
    · cases h
    · dsimp only at h
      rw [bind_eq_error] at h
      rcases h with h | ⟨responses, -, h⟩
      · obtain ⟨s, hs, h⟩ := filterMapM_eq_error h
        obtain ⟨hs, hkind⟩ := List.mem_filter.mp hs
        obtain ⟨t, ht, hblamed⟩ := responseOf?_blamed (by simpa using hkind) h
        exact ⟨t, (mem_of_section hs).2 t ht, hblamed⟩
      · cases h

theorem describeEndpoint_blamed {e : Endpoint} {tag : Tag} {fault : Fault}
    (h : describeEndpoint e tag = .error fault) : tag.Blamed fault := by
  unfold describeEndpoint at h
  split at h
  next => cases h
  next hkind =>
    rw [bind_eq_error] at h
    rcases h with h | ⟨param, -, h⟩
    · exact paramOf?_blamed (.inl hkind) h
    · split at h <;> cases h
  next hkind =>
    rw [bind_eq_error] at h
    rcases h with h | ⟨param, -, h⟩
    · exact paramOf?_blamed (.inr hkind) h
    · split at h <;> cases h
  next => cases h
  next => cases h

theorem describeSection_blamed {e : Endpoint} {opener : Tag} {owned : List Tag} {fault : Fault}
    (hkind : opener.kind = .request ∨ opener.kind = .response)
    (h : describeSection e opener owned = .error fault) :
    ∃ tag ∈ opener :: owned, tag.Blamed fault := by
  unfold describeSection at h
  rcases hkind with hkind | hkind
  · simp only [hkind] at h
    rw [bind_eq_error] at h
    rcases h with h | ⟨request, -, h⟩
    · exact requestOf?_blamed hkind h
    · cases h
  · simp only [hkind] at h
    rw [bind_eq_error] at h
    rcases h with h | ⟨response, -, h⟩
    · exact responseOf?_blamed hkind h
    · cases h

/-- An endpoint fails at its opener, or at one of the tags after it. -/
theorem endpointOf?_blamed {opener : Tag} {rest : List Tag} {fault : Fault}
    (hkind : opener.kind = .endpoint) (h : endpointOf? opener rest = .error fault) :
    ∃ tag ∈ opener :: rest, tag.Blamed fault := by
  unfold endpointOf? at h
  dsimp only at h
  split at h
  next name path summary hfields =>
    cases hmethod : Method.ofName? name with
    | none =>
        simp only [hmethod, Except.error.injEq] at h
        rw [← h]
        exact ⟨opener, List.mem_cons_self .., .method name hkind (by simp [hfields]) hmethod⟩
    | some method =>
        simp only [hmethod] at h
        rw [bind_eq_error] at h
        rcases h with h | ⟨e, -, h⟩
        · obtain ⟨tag, htag, e', h⟩ := foldlM_eq_error _ _ h
          exact ⟨tag, List.mem_cons_of_mem _ (mem_of_before htag), describeEndpoint_blamed h⟩
        rw [bind_eq_error] at h
        rcases h with h | ⟨e', -, h⟩
        · obtain ⟨s, hs, e', h⟩ := foldlM_eq_error _ _ h
          obtain ⟨hopens, htags⟩ := mem_of_section hs
          obtain ⟨tag, htag, hblamed⟩ := describeSection_blamed hopens h
          exact ⟨tag, List.mem_cons_of_mem _ (htags tag htag), hblamed⟩
        · cases h
  next => cases h

/-- The tags of an annotation from its opener on. -/
theorem mem_of_dropWhile (opens : Tag → Bool) {tags : List Tag} {opener : Tag} {rest : List Tag}
    (h : tags.dropWhile (fun tag => !opens tag) = opener :: rest) :
    opens opener = true ∧ ∀ tag ∈ opener :: rest, tag ∈ tags := by
  constructor
  · have hhead := List.head?_dropWhile_not (fun tag => !opens tag) tags
    rw [h] at hhead
    simpa using hhead
  · intro tag htag
    rw [← h] at htag
    exact (List.dropWhile_sublist _).subset htag

/-- **A fault of an annotation is the fault of one of its tags.** -/
theorem blockOf_blamed {tags : List Tag} {fault : Fault} (h : blockOf tags = .error fault) :
    ∃ tag ∈ tags, tag.Blamed fault := by
  unfold blockOf at h
  split at h
  next => cases h
  next opener rest hdrop =>
    obtain ⟨hopens, htags⟩ := mem_of_dropWhile (fun tag => tag.kind.opensBlock) hdrop
    split at h
    next =>
      rw [bind_eq_error] at h
      rcases h with h | ⟨doc, -, h⟩
      · obtain ⟨tag, htag, hblamed⟩ := docOf?_blamed h
        exact ⟨tag, htags tag (List.mem_cons_of_mem _ htag), hblamed⟩
      · cases h
    next hdoc =>
      rw [bind_eq_error] at h
      rcases h with h | ⟨endpoint, -, h⟩
      · have hkind : opener.kind = .endpoint := by
          simpa [TagKind.opensBlock, hdoc] using hopens
        obtain ⟨tag, htag, hblamed⟩ := endpointOf?_blamed hkind h
        exact ⟨tag, htags tag htag, hblamed⟩
      · cases h

/-! ### Endpoints -/

theorem describeEndpoint_position {e e' : Endpoint} {tag : Tag}
    (h : describeEndpoint e tag = .ok e') : e'.position = e.position := by
  unfold describeEndpoint at h
  split at h
  next => rw [← Except.ok.inj h]
  next =>
    rw [bind_eq_ok] at h
    obtain ⟨param, -, h⟩ := h
    cases param <;> rw [← Except.ok.inj h]
  next =>
    rw [bind_eq_ok] at h
    obtain ⟨param, -, h⟩ := h
    cases param <;> rw [← Except.ok.inj h]
  next => rw [← Except.ok.inj h]
  next => rw [← Except.ok.inj h]

theorem describeSection_position {e e' : Endpoint} {opener : Tag} {owned : List Tag}
    (h : describeSection e opener owned = .ok e') : e'.position = e.position := by
  unfold describeSection at h
  split at h
  next =>
    rw [bind_eq_ok] at h
    obtain ⟨request, -, h⟩ := h
    rw [← Except.ok.inj h]
  next =>
    rw [bind_eq_ok] at h
    obtain ⟨response, -, h⟩ := h
    rw [← Except.ok.inj h]

/-- A loop leaves an endpoint in its place when its step does. -/
theorem foldlM_position {α : Type} {f : Endpoint → α → Checked Endpoint}
    (hf : ∀ e x e', f e x = .ok e' → e'.position = e.position) {xs : List α} {e e' : Endpoint}
    (h : xs.foldlM f e = .ok e') : e'.position = e.position :=
  foldlM_invariant (motive := fun _ found => found.position = e.position)
    (fun _ found x found' (_ : True) hfound hx => (hf found x found' hx).trans hfound)
    xs [] e e' (fun _ _ => trivial) rfl h

/-- An endpoint stands where its opener does. -/
theorem endpointOf?_position {opener : Tag} {rest : List Tag} {e : Endpoint}
    (h : endpointOf? opener rest = .ok (some e)) : e.position = opener.position := by
  unfold endpointOf? at h
  dsimp only at h
  split at h
  next name path summary hfields =>
    cases hmethod : Method.ofName? name with
    | none =>
        simp only [hmethod] at h
        cases h
    | some method =>
        simp only [hmethod, bind_eq_ok] at h
        obtain ⟨e₁, hbefore, e₂, hsections, h⟩ := h
        obtain rfl : e₂ = e := Option.some.inj (Except.ok.inj h)
        have h₁ : e₁.position = opener.position :=
          foldlM_position (fun _ _ _ => describeEndpoint_position) hbefore
        exact (foldlM_position (fun _ _ _ => describeSection_position) hsections).trans h₁
  next => cases h

/-- **An endpoint stands where a tag does that opens one.** -/
theorem blockOf_position {tags : List Tag} {e : Endpoint} (h : blockOf tags = .ok (.endpoint e)) :
    ∃ tag ∈ tags, tag.kind = .endpoint ∧ e.position = tag.position := by
  unfold blockOf at h
  split at h
  next => cases h
  next opener rest hdrop =>
    obtain ⟨hopens, htags⟩ := mem_of_dropWhile (fun tag => tag.kind.opensBlock) hdrop
    split at h
    next =>
      rw [bind_eq_ok] at h
      obtain ⟨doc, -, h⟩ := h
      cases doc <;> cases h
    next hdoc =>
      rw [bind_eq_ok] at h
      obtain ⟨endpoint, hendpoint, h⟩ := h
      cases endpoint with
      | none => cases h
      | some found =>
          obtain rfl : found = e := Block.endpoint.inj (Except.ok.inj h)
          refine ⟨opener, htags opener (List.mem_cons_self ..), ?_, endpointOf?_position hendpoint⟩
          simpa [TagKind.opensBlock, hdoc] using hopens

/-- Only one name opens an endpoint. -/
theorem name_of_endpoint {tag : Tag} (h : tag.kind = .endpoint) : tag.name = "api" := by
  unfold Tag.kind TagKind.ofName at h
  split at h <;> first | assumption | cases h

end Annotation

end ApiNotes
