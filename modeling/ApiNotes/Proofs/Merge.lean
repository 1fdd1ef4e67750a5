/-
What a merge of two responses holds, and when it goes through.

A merge walks the headers and then the content of the other response, and stops at the
first entry that its own side declares differently.  Since the entries of a table have
distinct keys, no step changes what a later one will look at, so the merge goes through
exactly when every common header is the same and every mimetype with two schemas has
the same one twice.  The result is then a union, entry by entry: own headers first, own
schema first, own examples before the others.
-/
import ApiNotes.Proofs.Content

namespace ApiNotes.OpenApi

/-! ### Content seen by mimetype -/

/-- The schema that content has under a name. -/
def schemaAt (content : Dict MediaType) (name : String) : Option Schema :=
  (Dict.get? content name).bind (·.schema)

/-- The examples that content has under a name, in order. -/
def examplesAt (content : Dict MediaType) (name : String) : List Example :=
  ((Dict.get? content name).map fun media => media.examples.map Prod.snd).getD []

/-- The examples of every mimetype are numbered in order. -/
def Numbered (content : Dict MediaType) : Prop :=
  ∀ name media, Dict.get? content name = some media → ∃ es, media.examples = numbered es

theorem schemaAt_contentOf (mimetype : String) (body : Body) (name : String) :
    schemaAt (contentOf mimetype body) name =
      if name ∈ contentNames mimetype body then bodySchema body else none := by
  rw [schemaAt, get?_contentOf]
  split <;> rfl

theorem examplesAt_contentOf (mimetype : String) (body : Body) (name : String) :
    examplesAt (contentOf mimetype body) name = examplesUnder name body.examples := by
  rw [examplesAt, get?_contentOf]
  split
  · simp
  · rename_i h
    rw [contentNames, List.mem_append, not_or] at h
    rw [examplesUnder_eq_nil h.2]
    rfl

theorem numbered_contentOf (mimetype : String) (body : Body) :
    Numbered (contentOf mimetype body) := by
  intro name media h
  rw [get?_contentOf] at h
  split at h
  · exact ⟨_, by rw [← Option.some.inj h]⟩
  · cases h

namespace Response

/-! ### Headers -/

/-- Every header that both sides have is the same on both. -/
def HeadersAgree (own theirs : Dict Header) : Prop :=
  ∀ e ∈ theirs, ∀ mine, Dict.get? own e.1 = some mine → (mine == e.2) = true

theorem mergeHeaders_ok_iff {own theirs : Dict Header} (h : (Dict.keys theirs).Nodup) :
    (mergeHeaders own theirs).2 = .ok () ↔ HeadersAgree own theirs := by
  induction theirs generalizing own with
  | nil => simp [mergeHeaders, HeadersAgree]
  | cons e rest ih =>
      obtain ⟨name, header⟩ := e
      rw [Dict.keys_cons, List.nodup_cons] at h
      rw [mergeHeaders, HeadersAgree, List.forall_mem_cons]
      cases hmine : Dict.get? own name with
      | none =>
          simp only [reduceCtorEq, false_implies, implies_true, true_and]
          rw [ih h.2]
          -- the header just taken over has a name that does not come again
          refine forall₂_congr fun e he => ?_
          have hmem : e.1 ∈ Dict.keys rest := Dict.mem_keys_of_mem he
          have hne : name ≠ e.1 := fun hname => h.1 (hname ▸ hmem)
          rw [Dict.get?_insert, if_neg hne]
      | some mine =>
          simp only [Option.some.injEq, forall_eq']
          split
          · rename_i hsame
            rw [ih h.2]
            exact (and_iff_right hsame).symm
          · rename_i hdiffer
            exact iff_of_false (by simp) fun hagree => hdiffer hagree.1

theorem get?_mergeHeaders {own theirs : Dict Header} (h : (mergeHeaders own theirs).2 = .ok ())
    (name : String) :
    Dict.get? (mergeHeaders own theirs).1 name =
      (Dict.get? own name).or (Dict.get? theirs name) := by
  induction theirs generalizing own with
  | nil => simp [mergeHeaders]
  | cons e rest ih =>
      obtain ⟨key, header⟩ := e
      rw [mergeHeaders] at h ⊢
      cases hmine : Dict.get? own key with
      | none =>
          simp only [hmine] at h ⊢
          rw [ih h, Dict.get?_insert, Dict.get?_cons]
          by_cases hkey : key = name
          · subst hkey; simp [hmine]
          · rw [if_neg hkey, if_neg hkey]
      | some mine =>
          simp only [hmine] at h ⊢
          split at h
          · rename_i hsame
            rw [if_pos hsame, ih h, Dict.get?_cons]
            by_cases hkey : key = name
            · subst hkey; simp [hmine]
            · rw [if_neg hkey]
          · simp at h

theorem nodup_keys_mergeHeaders {own theirs : Dict Header} (h : (Dict.keys own).Nodup) :
    (Dict.keys (mergeHeaders own theirs).1).Nodup := by
  induction theirs generalizing own with
  | nil => exact h
  | cons e rest ih =>
      obtain ⟨key, header⟩ := e
      rw [mergeHeaders]
      split
      · exact ih (Dict.nodup_keys_insert h key header)
      · split
        · exact ih h
        · exact h

/-! ### Content -/

/-- Every mimetype that has a schema on both sides has the same one on both. -/
def SchemasAgree (own theirs : Dict MediaType) : Prop :=
  ∀ e ∈ theirs, ∀ s t, schemaAt own e.1 = some s → e.2.schema = some t → (s == t) = true

theorem schemasClash_eq_false {own theirs : MediaType} :
    own.schemasClash theirs = false ↔
      ∀ s t, own.schema = some s → theirs.schema = some t → (s == t) = true := by
  unfold MediaType.schemasClash
  cases own.schema <;> cases theirs.schema <;> simp

theorem schemasClash_getD {own : Dict MediaType} {name : String} {media : MediaType} :
    ((Dict.get? own name).getD {}).schemasClash media = false ↔
      ∀ s t, schemaAt own name = some s → media.schema = some t → (s == t) = true := by
  rw [schemasClash_eq_false, schemaAt]
  cases Dict.get? own name <;> simp

theorem mergeContent_ok_iff {own theirs : Dict MediaType} (h : (Dict.keys theirs).Nodup) :
    (mergeContent own theirs).2 = .ok () ↔ SchemasAgree own theirs := by
  induction theirs generalizing own with
  | nil => simp [mergeContent, SchemasAgree]
  | cons e rest ih =>
      obtain ⟨name, media⟩ := e
      rw [Dict.keys_cons, List.nodup_cons] at h
      rw [mergeContent, SchemasAgree, List.forall_mem_cons, ← schemasClash_getD]
      simp only
      split
      · rename_i hclash
        refine iff_of_false (by simp) fun hagree => ?_
        rw [hagree.1] at hclash
        exact Bool.noConfusion hclash
      · rename_i hclash
        rw [Bool.not_eq_true] at hclash
        rw [ih h.2, and_iff_right hclash]
        refine forall₂_congr fun e he => ?_
        have hmem : e.1 ∈ Dict.keys rest := Dict.mem_keys_of_mem he
        have hne : name ≠ e.1 := fun hname => h.1 (hname ▸ hmem)
        rw [schemaAt, Dict.get?_insert, if_neg hne, schemaAt]

theorem get?_mergeContent {own theirs : Dict MediaType} (hnodup : (Dict.keys theirs).Nodup)
    (h : (mergeContent own theirs).2 = .ok ()) (name : String) :
    Dict.get? (mergeContent own theirs).1 name =
      match Dict.get? theirs name with
      | none => Dict.get? own name
      | some media => some (((Dict.get? own name).getD {}).absorb media) := by
  induction theirs generalizing own with
  | nil => rfl
  | cons e rest ih =>
      obtain ⟨key, media⟩ := e
      rw [Dict.keys_cons, List.nodup_cons] at hnodup
      rw [mergeContent] at h ⊢
      split at h
      · simp at h
      · rename_i hclash
        rw [if_neg hclash, ih hnodup.2 h, Dict.get?_cons, Dict.get?_insert]
        by_cases hkey : key = name
        · subst hkey
          rw [if_pos rfl, if_pos rfl, Dict.get?_eq_none_iff.mpr hnodup.1]
        · rw [if_neg hkey, if_neg hkey]

theorem nodup_keys_mergeContent {own theirs : Dict MediaType} (h : (Dict.keys own).Nodup) :
    (Dict.keys (mergeContent own theirs).1).Nodup := by
  induction theirs generalizing own with
  | nil => exact h
  | cons e rest ih =>
      rw [mergeContent]
      split
      · exact Dict.nodup_keys_insert h _ _
      · exact ih (Dict.nodup_keys_insert h _ _)

theorem absorb_numbered {own theirs : MediaType} {es new : List Example}
    (hown : own.examples = numbered es) (htheirs : theirs.examples = numbered new) :
    own.absorb theirs = ⟨own.schema.or theirs.schema, numbered (es ++ new)⟩ := by
  unfold MediaType.absorb
  rw [htheirs, values_numbered, hown, MediaType.foldl_pushExample_numbered]

section Merged

variable {own theirs : Dict MediaType} (hown : Numbered own) (htheirs : Numbered theirs)
  (hnodup : (Dict.keys theirs).Nodup) (h : (mergeContent own theirs).2 = .ok ())

include hown htheirs

theorem absorb_own {name : String} {media : MediaType}
    (hmedia : Dict.get? theirs name = some media) :
    ∃ es new, ((Dict.get? own name).getD {}).examples = numbered es ∧
      media.examples = numbered new ∧
      ((Dict.get? own name).getD {}).absorb media =
        ⟨((Dict.get? own name).getD {}).schema.or media.schema, numbered (es ++ new)⟩ := by
  obtain ⟨new, hnew⟩ := htheirs name media hmedia
  have hmine : ∃ es, ((Dict.get? own name).getD {}).examples = numbered es := by
    cases hm : Dict.get? own name with
    | none => exact ⟨[], rfl⟩
    | some mine => exact hown name mine hm
  obtain ⟨es, hes⟩ := hmine
  exact ⟨es, new, hes, hnew, absorb_numbered hes hnew⟩

include hnodup h

theorem numbered_mergeContent : Numbered (mergeContent own theirs).1 := by
  intro name media hmedia
  rw [get?_mergeContent hnodup h] at hmedia
  cases htheir : Dict.get? theirs name with
  | none =>
      rw [htheir] at hmedia
      exact hown name media hmedia
  | some their =>
      rw [htheir] at hmedia
      obtain ⟨es, new, -, -, heq⟩ := absorb_own hown htheirs htheir
      exact ⟨es ++ new, by rw [← Option.some.inj hmedia, heq]⟩

/-- Own schema first. -/
theorem schemaAt_mergeContent (name : String) :
    schemaAt (mergeContent own theirs).1 name = (schemaAt own name).or (schemaAt theirs name) := by
  rw [schemaAt, get?_mergeContent hnodup h]
  cases htheir : Dict.get? theirs name with
  | none => simp [schemaAt, htheir]
  | some their =>
      obtain ⟨es, new, -, -, heq⟩ := absorb_own hown htheirs htheir
      rw [Option.bind_some, heq, schemaAt, schemaAt, htheir]
      cases Dict.get? own name <;> simp

/-- All examples, one's own in front. -/
theorem examplesAt_mergeContent (name : String) :
    examplesAt (mergeContent own theirs).1 name =
      examplesAt own name ++ examplesAt theirs name := by
  rw [examplesAt, get?_mergeContent hnodup h]
  cases htheir : Dict.get? theirs name with
  | none => simp [examplesAt, htheir]
  | some their =>
      obtain ⟨es, new, hes, hnew, heq⟩ := absorb_own hown htheirs htheir
      simp only [heq, Option.map_some, Option.getD_some, values_numbered]
      rw [examplesAt, examplesAt, htheir]
      cases hmine : Dict.get? own name with
      | none =>
          have hnil : es = [] := by
            rw [hmine] at hes
            rw [← values_numbered es, ← hes]
            rfl
          simp [hnil, hnew]
      | some mine =>
          rw [hmine] at hes
          simp [show mine.examples = numbered es from hes, hnew]

end Merged

theorem mem_keys_mergeContent {own theirs : Dict MediaType} (hnodup : (Dict.keys theirs).Nodup)
    (h : (mergeContent own theirs).2 = .ok ()) (name : String) :
    name ∈ Dict.keys (mergeContent own theirs).1 ↔
      name ∈ Dict.keys own ∨ name ∈ Dict.keys theirs := by
  rw [← Dict.get?_isSome_iff, ← Dict.get?_isSome_iff, ← Dict.get?_isSome_iff,
    get?_mergeContent hnodup h]
  cases Dict.get? theirs name <;> simp

/-! ### Whole responses -/

/-- The outcome of a merge, and the fields of what it yields when it goes through. -/
theorem merge_spec (own theirs : Response) :
    (own.merge theirs).2 =
        ((mergeHeaders own.headers theirs.headers).2 >>= fun _ =>
          (mergeContent own.content theirs.content).2) ∧
      ((mergeHeaders own.headers theirs.headers).2 = .ok () →
        (own.merge theirs).1 =
          { description :=
              if own.description.isEmpty then theirs.description else own.description
            headers := (mergeHeaders own.headers theirs.headers).1
            content := (mergeContent own.content theirs.content).1 }) := by
  obtain ⟨description, headers, content⟩ := own
  unfold merge
  by_cases hempty : description.isEmpty = true
  · simp only [hempty, if_true]
    rcases mergeHeaders headers theirs.headers with ⟨headers', outcome⟩
    cases outcome with
    | error fault => exact ⟨rfl, fun h => nomatch h⟩
    | ok u => exact ⟨rfl, fun _ => rfl⟩
  · simp only [hempty, Bool.false_eq_true, if_false]
    rcases mergeHeaders headers theirs.headers with ⟨headers', outcome⟩
    cases outcome with
    | error fault => exact ⟨rfl, fun h => nomatch h⟩
    | ok u => exact ⟨rfl, fun _ => rfl⟩

/-- What a merge that goes through yields, field by field. -/
theorem merged_eq_ok {own theirs r : Response} :
    own.merged theirs = .ok r ↔
      (mergeHeaders own.headers theirs.headers).2 = .ok () ∧
      (mergeContent own.content theirs.content).2 = .ok () ∧
      { description := if own.description.isEmpty then theirs.description else own.description
        headers := (mergeHeaders own.headers theirs.headers).1
        content := (mergeContent own.content theirs.content).1 } = r := by
  obtain ⟨houtcome, hvalue⟩ := merge_spec own theirs
  rw [merged, map_eq_ok, houtcome]
  constructor
  · rintro ⟨_, hok, rfl⟩
    rw [check_bind_eq_ok] at hok
    exact ⟨hok.1, hok.2, (hvalue hok.1).symm⟩
  · rintro ⟨hheaders, hcontent, rfl⟩
    exact ⟨(), check_bind_eq_ok.mpr ⟨hheaders, hcontent⟩, hvalue hheaders⟩

theorem merged_isOk_iff {own theirs : Response} (hheaders : (Dict.keys theirs.headers).Nodup)
    (hcontent : (Dict.keys theirs.content).Nodup) :
    (∃ r, own.merged theirs = .ok r) ↔
      HeadersAgree own.headers theirs.headers ∧ SchemasAgree own.content theirs.content := by
  rw [← mergeHeaders_ok_iff hheaders, ← mergeContent_ok_iff hcontent]
  simp only [merged_eq_ok]
  exact ⟨fun ⟨_, h, h', _⟩ => ⟨h, h'⟩, fun ⟨h, h'⟩ => ⟨_, h, h', rfl⟩⟩

end Response

end ApiNotes.OpenApi
