/-
Parameters of endpoints and members of bodies are attached alike.

A body keeps what it takes in one table.  An endpoint keeps a list, whose parameters have
tables for what is below them, and looks through it for the first of a name.  Yet the list is
the table that a body would have made of the same tags, each parameter under its name, and
every tag keeps it so: a dotted name writes to the same member on both sides or is dropped on
both.  Only a name without dots that comes twice would part them, since the list keeps both
parameters and the table the later one.
-/
import ApiNotes.Proofs.MemberPaths

namespace ApiNotes

/-! ### Lists as tables -/

/-- A list of parameters as the members of an object, each under its name. -/
def membersOf (params : List Param) : Dict Param := params.map fun p => (p.name, p)

/-- The parameter at the end of a path of names, the first of a name being the one that counts. -/
def paramAt? (params : List Param) : List String → Option Param
  | [] => none
  | name :: names => (params.find? (·.name = name)).bind (Param.below? names)

/-- Whether all the names given lead to parameters that are like objects. -/
def ParamsEnclose (params : List Param) (parents : List String) : Prop :=
  ∀ q, q <+: parents → q ≠ [] → ∃ m, paramAt? params q = some m ∧ m.type.isObjectLike = true

theorem membersOf_cons (p : Param) (rest : List Param) :
    membersOf (p :: rest) = (p.name, p) :: membersOf rest := rfl

theorem keys_membersOf (params : List Param) :
    Dict.keys (membersOf params) = params.map Param.name := by
  rw [membersOf, Dict.keys, List.map_map]
  rfl

/-- A parameter of a new name comes last, in the list and in the table. -/
theorem insert_membersOf {params : List Param} {p : Param}
    (h : p.name ∉ params.map Param.name) :
    Dict.insert (membersOf params) p.name p = membersOf (params ++ [p]) := by
  rw [← keys_membersOf] at h
  rw [Dict.insert_of_not_mem h, membersOf, membersOf, List.map_append]
  rfl

theorem membersOf_injective {params params' : List Param}
    (h : membersOf params = membersOf params') : params = params' := by
  refine List.map_injective_iff.mpr (fun p p' hp => ?_) h
  exact (Prod.mk.inj hp).2

/-- The first parameter of a name is the member under it. -/
theorem get?_membersOf (params : List Param) (name : String) :
    Dict.get? (membersOf params) name = params.find? (·.name = name) := by
  induction params with
  | nil => rfl
  | cons p rest ih =>
      rw [membersOf_cons, Dict.get?_cons, ih]
      by_cases hp : p.name = name
      · rw [if_pos hp, List.find?_cons_of_pos (by simpa using hp)]
      · rw [if_neg hp, List.find?_cons_of_neg (by simpa using hp)]

theorem memberAt?_membersOf (params : List Param) (text : String) (path : List String) :
    (DataType.object (membersOf params) text).memberAt? path = paramAt? params path := by
  cases path with
  | nil => rfl
  | cons name names =>
      rw [DataType.memberAt?, DataType.members?, Option.bind_some, get?_membersOf, paramAt?]

theorem encloses_membersOf {params : List Param} {text : String} {parents : List String} :
    (DataType.object (membersOf params) text).Encloses parents ↔ ParamsEnclose params parents := by
  unfold DataType.Encloses ParamsEnclose
  simp only [memberAt?_membersOf]
  exact and_iff_right rfl

end ApiNotes

namespace ApiNotes.Annotation

/-! ### Names without dots -/

/-- The names that have no dot in them. -/
def undotted (names : List String) : List String := names.filter fun name => '.' ∉ name.toList

theorem splitName_undotted {name : String} (h : '.' ∉ name.toList) :
    splitName name = ([], name) := by
  unfold splitName
  rw [List.splitOn_eq_singleton h]
  simp

theorem undotted_of_splitName {name leaf : String} (h : splitName name = ([], leaf)) :
    '.' ∉ name.toList := by
  obtain ⟨piece, hsplit⟩ : ∃ piece, name.toList.splitOn '.' = [piece] := by
    obtain ⟨piece, pieces, hsplit⟩ :=
      List.exists_cons_of_ne_nil (List.splitOn_ne_nil '.' name.toList)
    cases pieces with
    | nil => exact ⟨piece, hsplit⟩
    | cons second more =>
        have hparents := congrArg Prod.fst h
        simp [splitName, hsplit] at hparents
  have hname : piece = name.toList := by
    have hjoin : ['.'].intercalate (name.toList.splitOn '.') = name.toList :=
      List.intercalate_splitOn '.'
    rwa [hsplit, List.intercalate_singleton] at hjoin
  rw [← hname]
  refine Text.not_mem_of_mem_splitOn (s := name.toList) ?_
  rw [hsplit]
  exact List.mem_singleton_self piece

/-! ### One parameter -/

theorem membersOf_attachTo (param : Param) (first leaf : String) (nested : List String)
    (params : List Param) :
    membersOf (attachParam.attachTo param first nested leaf params) =
      ((Dict.get? (membersOf params) first).bind fun holder =>
        (holder.type.attach? leaf { param with name := leaf } nested).map fun type =>
          Dict.insert (membersOf params) first { holder with type }).getD (membersOf params) := by
  induction params with
  | nil => rfl
  | cons p rest ih =>
      rw [attachParam.attachTo]
      -- only the first parameter of the name is written, and the key is where the name is
      by_cases hp : p.name = first
      · subst hp
        rw [if_pos rfl, membersOf_cons, Dict.get?_cons, if_pos rfl, Option.bind_some]
        cases p.type.attach? leaf { param with name := leaf } nested with
        | none => rfl
        | some type =>
            rw [Option.map_some, Option.getD_some, Dict.insert, if_pos rfl]
            rfl
      · rw [if_neg hp, membersOf_cons, membersOf_cons, ih, Dict.get?_cons, if_neg hp]
        cases Dict.get? (membersOf rest) first with
        | none => rfl
        | some holder =>
            rw [Option.bind_some, Option.bind_some]
            cases holder.type.attach? leaf { param with name := leaf } nested with
            | none => rfl
            | some type =>
                rw [Option.map_some, Option.map_some, Option.getD_some, Option.getD_some,
                  Dict.insert, if_neg hp]

/-- A list takes a member below one of its parameters as the object of them does. -/
theorem attach?_membersOf (param : Param) (first leaf : String) (nested : List String)
    (params : List Param) (text : String) :
    ((DataType.object (membersOf params) text).attach? leaf { param with name := leaf }
        (first :: nested)).getD (.object (membersOf params) text) =
      .object (membersOf (attachParam.attachTo param first nested leaf params)) text := by
  rw [membersOf_attachTo, DataType.attach?, DataType.mapMembers?]
  cases Dict.get? (membersOf params) first with
  | none => rfl
  | some holder =>
      rw [Option.bind_eq_bind, Option.bind_some, Option.bind_some]
      cases holder.type.attach? leaf { param with name := leaf } nested <;> rfl

theorem attachParam_undotted {param : Param} (h : '.' ∉ param.name.toList) (params : List Param) :
    attachParam params param = params ++ [param] := by
  rw [attachParam, splitName_undotted h]

theorem attachParam_dotted {param : Param} {first leaf : String} {nested : List String}
    (h : splitName param.name = (first :: nested, leaf)) (params : List Param) :
    attachParam params param = attachParam.attachTo param first nested leaf params := by
  rw [attachParam, h]

/-- A parameter with a dotted name adds no name to a list. -/
theorem names_attachParam (params : List Param) (param : Param) :
    (attachParam params param).map Param.name =
      params.map Param.name ++ undotted [param.name] := by
  by_cases hdot : '.' ∈ param.name.toList
  · have hnone : undotted [param.name] = [] := by simp [undotted, hdot]
    rcases hsplit : splitName param.name with ⟨_ | ⟨first, nested⟩, leaf⟩
    · exact absurd hdot (undotted_of_splitName hsplit)
    · rw [attachParam_dotted hsplit, hnone, List.append_nil]
      induction params with
      | nil => rfl
      | cons p rest ih =>
          rw [attachParam.attachTo]
          by_cases hp : p.name = first
          · rw [if_pos hp]
            cases p.type.attach? leaf { param with name := leaf } nested <;> rfl
          · rw [if_neg hp, List.map_cons, ih, List.map_cons]
  · have hone : undotted [param.name] = [param.name] := by simp [undotted, hdot]
    rw [attachParam_undotted hdot, hone, List.map_append]
    rfl

theorem names_foldl_attachParam (more params : List Param) :
    (more.foldl attachParam params).map Param.name =
      params.map Param.name ++ undotted (more.map Param.name) := by
  induction more generalizing params with
  | nil => exact (List.append_nil _).symm
  | cons p rest ih =>
      have hcons : undotted ((p :: rest).map Param.name) =
          undotted [p.name] ++ undotted (rest.map Param.name) := List.filter_append [p.name] _
      rw [List.foldl_cons, ih, names_attachParam, hcons, List.append_assoc]

/-- Where no name without dots comes twice, none of them is there before its parameter. -/
theorem not_mem_names_of_nodup {before after : List Param} {p : Param}
    (h : (undotted ((before ++ p :: after).map Param.name)).Nodup) (hdot : '.' ∉ p.name.toList) :
    p.name ∉ (before.foldl attachParam []).map Param.name := by
  rw [names_foldl_attachParam, List.map_nil, List.nil_append]
  intro hbefore
  rw [List.map_append, undotted, List.filter_append, List.nodup_append] at h
  refine h.2.2 p.name hbefore p.name (List.mem_filter.mpr ⟨?_, ?_⟩) rfl
  · exact List.mem_cons_self
  · simpa using hdot

/-- What has no object to go to is dropped from a list. -/
theorem attachParam_of_not_enclose {params : List Param} {param : Param}
    (h : ¬ParamsEnclose params (splitName param.name).1) : attachParam params param = params := by
  rcases hsplit : splitName param.name with ⟨_ | ⟨first, nested⟩, leaf⟩
  · rw [hsplit] at h
    exact absurd (fun q hq hne => absurd (List.prefix_nil.mp hq) hne) h
  · have hnone : (DataType.object (membersOf params) "").attach? leaf { param with name := leaf }
        (first :: nested) = none := by
      rw [← Option.not_isSome_iff_eq_none, DataType.attach?_isSome_iff, encloses_membersOf]
      rwa [hsplit] at h
    have hattach := attach?_membersOf param first leaf nested params ""
    rw [hnone, Option.getD_none] at hattach
    rw [attachParam_dotted hsplit]
    exact (membersOf_injective (DataType.object.inj hattach).1).symm

end ApiNotes.Annotation

namespace ApiNotes

open Annotation

namespace Body

variable {body : Body} {params : List Param} {text : String}

theorem attach_eq {t : DataType} (h : body.type = some t) (param : Param) :
    body.attach param = { body with type := some ((t.attach? (splitName param.name).2
      { param with name := (splitName param.name).2 } (splitName param.name).1).getD t) } := by
  unfold attach
  simp only [h, Option.bind_some]
  cases t.attach? (splitName param.name).2 { param with name := (splitName param.name).2 }
      (splitName param.name).1 with
  | none =>
      rw [Option.getD_none, ← h]
  | some type => rfl

/-- A body whose members are those of a list takes a parameter as the list does. -/
theorem attach_membersOf (h : body.type = some (.object (membersOf params) text)) {param : Param}
    (hfresh : '.' ∉ param.name.toList → param.name ∉ params.map Param.name) :
    body.attach param =
      { body with type := some (.object (membersOf (attachParam params param)) text) } := by
  rw [attach_eq h]
  rcases hsplit : splitName param.name with ⟨_ | ⟨first, nested⟩, leaf⟩
  · have hdot : '.' ∉ param.name.toList := undotted_of_splitName hsplit
    obtain rfl : param.name = leaf := by
      rw [splitName_undotted hdot] at hsplit
      exact (Prod.mk.inj hsplit).2
    dsimp only
    -- the table gets its new key at the end only where the name is new: this needs `hfresh`
    rw [Param.eta, DataType.attach?, DataType.mapMembers?, Option.map_some, Option.getD_some,
      insert_membersOf (hfresh hdot), attachParam_undotted hdot]
  · rw [attach?_membersOf, attachParam_dotted hsplit]

/-- As long as no name without dots comes twice, a list and a body stay alike. -/
theorem foldl_attach_membersOf (h : body.type = some (.object [] text))
    (hnames : (undotted (params.map Param.name)).Nodup) :
    params.foldl attach body =
      { body with type := some (.object (membersOf (params.foldl attachParam [])) text) } := by
  induction params using List.reverseRecOn with
  | nil =>
      rw [List.foldl_nil, List.foldl_nil, membersOf, List.map_nil, ← h]
  | append_singleton before p ih =>
      have hbefore : (undotted (before.map Param.name)).Nodup :=
        hnames.sublist (((List.sublist_append_left before [p]).map Param.name).filter _)
      rw [List.foldl_concat, List.foldl_concat, ih hbefore]
      exact attach_membersOf rfl (not_mem_names_of_nodup hnames)

/-- What a parameter does to a list and to a body that have the same members, its name being
`parents` and `leaf`. -/
structure TakesAlike (params : List Param) (body : Body) (param : Param) (parents : List String)
    (leaf : String) : Prop where
  /-- It has an object to go to on both sides or on neither. -/
  enclosed : ParamsEnclose params parents ↔ body.Encloses parents
  /-- Without one it is dropped from both. -/
  dropped : ¬ParamsEnclose params parents →
    attachParam params param = params ∧ body.attach param = body
  /-- Otherwise it is found at its path in both. -/
  kept : ParamsEnclose params parents →
    paramAt? (attachParam params param) (parents ++ [leaf]) = some { param with name := leaf } ∧
    (body.attach param).type.bind (·.memberAt? (parents ++ [leaf])) =
      some { param with name := leaf }

theorem takesAlike (h : body.type = some (.object (membersOf params) text)) {param : Param}
    (hfresh : '.' ∉ param.name.toList → param.name ∉ params.map Param.name)
    (hnew : ∀ q, param.type.memberAt? q = none) :
    TakesAlike params body param (splitName param.name).1 (splitName param.name).2 := by
  have hiff : ParamsEnclose params (splitName param.name).1 ↔
      body.Encloses (splitName param.name).1 := by
    unfold Body.Encloses
    simp only [h, Option.some.injEq, exists_eq_left', encloses_membersOf]
  refine ⟨hiff, fun hnot => ⟨attachParam_of_not_enclose hnot, ?_⟩, fun hencloses => ?_⟩
  · exact attach_of_not_encloses param Prod.mk.eta.symm fun h' => hnot (hiff.mpr h')
  · obtain ⟨t, t', -, hattach, hdiffers⟩ :=
      attach_of_encloses param Prod.mk.eta.symm hnew (hiff.mp hencloses)
    have hmembers : some t' = some (.object (membersOf (attachParam params param)) text) := by
      rw [attach_membersOf h hfresh] at hattach
      exact (congrArg Body.type hattach).symm
    obtain rfl := Option.some.inj hmembers
    refine ⟨?_, ?_⟩
    · rw [← memberAt?_membersOf _ text]
      exact hdiffers.found
    · rw [hattach]
      exact hdiffers.found

end Body

namespace Annotation

/-! ### All the tags of a section -/

/-- The name that a parameter tag spells. -/
def Tag.paramName (tag : Tag) : String := fieldAt (tag.fields 4) 0

/-- A tag with all the fields of a parameter, the second of which names a type. -/
def Tag.FormedParam (tag : Tag) : Prop :=
  3 ≤ (tag.fields 4).length ∧ (DataType.parse (fieldAt (tag.fields 4) 1)).isOk = true

instance : DecidablePred Tag.FormedParam := fun _ => inferInstanceAs (Decidable (_ ∧ _))

theorem exists_params {tags : List Tag} (h : ∀ tag ∈ tags, tag.FormedParam) :
    ∃ params : List Param, tags.mapM paramOf? = .ok (params.map some) ∧
      params.map Param.name = tags.map Tag.paramName ∧
      ∀ p ∈ params, ∀ q, p.type.memberAt? q = none := by
  induction tags with
  | nil => exact ⟨[], rfl, rfl, by simp⟩
  | cons tag rest ih =>
      rw [List.forall_mem_cons] at h
      obtain ⟨hlength, hok⟩ := h.1
      obtain ⟨params, hparams, hnames, hnew⟩ := ih h.2
      cases hparse : DataType.parse (fieldAt (tag.fields 4) 1) with
      | error fault =>
          rw [hparse] at hok
          cases hok
      | ok type =>
          refine ⟨tag.param type :: params, ?_, ?_, ?_⟩
          · rw [List.mapM_cons, paramOf?_formed hlength hparse, hparams]
            rfl
          · rw [List.map_cons, List.map_cons, hnames]
            rfl
          · rw [List.forall_mem_cons]
            exact ⟨DataType.memberAt?_of_parse hparse, hnew⟩

/-- Where every tag adds its parameter to a part of the state, all of them add all parameters. -/
theorem foldlM_params {σ τ : Type} {step : σ → Tag → Checked σ} (put : τ → σ)
    {add : τ → Param → τ} {tags : List Tag} (hstep : ∀ t, ∀ tag ∈ tags, ∀ p,
      paramOf? tag = .ok (some p) → step (put t) tag = .ok (put (add t p))) {params : List Param}
    (h : tags.mapM paramOf? = .ok (params.map some)) (t : τ) :
    tags.foldlM step (put t) = .ok (put (params.foldl add t)) := by
  induction tags generalizing params t with
  | nil =>
      cases params with
      | nil => rfl
      | cons p rest => cases h
  | cons tag rest ih =>
      rw [List.mapM_cons] at h
      obtain ⟨first, hfirst, h⟩ := bind_eq_ok.mp h
      obtain ⟨others, hothers, h⟩ := bind_eq_ok.mp h
      obtain ⟨p, ps, rfl, rfl, rfl⟩ := List.map_eq_cons_iff.mp (Except.ok.inj h).symm
      rw [List.foldlM_cons, hstep t tag List.mem_cons_self p hfirst, List.foldl_cons]
      exact ih (fun t tag' htag => hstep t tag' (List.mem_cons_of_mem _ htag)) hothers (add t p)

/-- What parameter tags do to an endpoint and to a body. -/
structure AttachAlike (tags : List Tag) (params : List Param) (body : Body) (text : String) :
    Prop where
  /-- The tags give the parameters, one each. -/
  read : tags.mapM paramOf? = .ok (params.map some)
  /-- An endpoint attaches them to a list, be they parameters of its path or of its query. -/
  endpoint : ∀ e : Endpoint, (∀ tag ∈ tags, tag.kind = .param) →
    tags.foldlM describeEndpoint e = .ok { e with params := params.foldl attachParam e.params }
  query : ∀ e : Endpoint, (∀ tag ∈ tags, tag.kind = .query) →
    tags.foldlM describeEndpoint e = .ok { e with queries := params.foldl attachParam e.queries }
  /-- What an empty list becomes is the table of the members of the body. -/
  members : tags.foldlM Body.addParam body =
    .ok { body with type := some (.object (membersOf (params.foldl attachParam [])) text) }
  /-- On the way each parameter is attached to both or dropped from both. -/
  each : ∀ before p after, params = before ++ p :: after →
    Body.TakesAlike (before.foldl attachParam []) (before.foldl Body.attach body) p
      (splitName p.name).1 (splitName p.name).2

/-- **Lists and bodies attach members alike.** -/
theorem attachParam_agrees_with_body {tags : List Tag} (hformed : ∀ tag ∈ tags, tag.FormedParam)
    (hnames : (undotted (tags.map Tag.paramName)).Nodup) {body : Body} {text : String}
    (hbody : body.type = some (.object [] text)) :
    ∃ params, AttachAlike tags params body text := by
  obtain ⟨params, hparams, hparamNames, hnew⟩ := exists_params hformed
  rw [← hparamNames] at hnames
  exact ⟨params,
    { read := hparams
      endpoint := by
        intro e hkind
        refine foldlM_params (fun params => { e with params }) ?_ hparams e.params
        intro params tag htag p hp
        unfold describeEndpoint
        simp only [hkind tag htag, hp]
        rfl
      query := by
        intro e hkind
        refine foldlM_params (fun queries => { e with queries }) ?_ hparams e.queries
        intro queries tag htag p hp
        unfold describeEndpoint
        simp only [hkind tag htag, hp]
        rfl
      members := by
        rw [← Body.foldl_attach_membersOf hbody hnames]
        refine foldlM_params id ?_ hparams body
        intro body tag _ p hp
        rw [id_eq, Body.addParam, hp]
        rfl
      each := by
        rintro before p after rfl
        have hbefore : (undotted (before.map Param.name)).Nodup :=
          hnames.sublist (((List.sublist_append_left before _).map Param.name).filter _)
        rw [Body.foldl_attach_membersOf hbody hbefore]
        exact Body.takesAlike rfl (not_mem_names_of_nodup hnames) (hnew p (by simp)) }⟩

/-- Parameters with members at two levels, one of them declared again without its own, and three
that have no object to go to. -/
def petParamTags : List Tag :=
  ["owner object required", "owner.address array.object required", "owner.address.city string -",
    "owner.name string required", "ghost.name string -", "ids array.array.object -",
    "owner.address object required", "owner.address.zip int -", "owner.name.first string -",
    "ids. int -", ".id int -"].map fun body => ⟨"apiParam", body, ⟨1, 1⟩⟩

theorem attachAlike_petParamTags : (∀ tag ∈ petParamTags, tag.FormedParam) ∧
    (undotted (petParamTags.map Tag.paramName)).Nodup ∧ ∃ params,
      AttachAlike petParamTags params { type := some (.object [] "the pet") } "the pet" := by
  have hformed : ∀ tag ∈ petParamTags, tag.FormedParam := by decide +kernel
  have hnames : (undotted (petParamTags.map Tag.paramName)).Nodup := by decide +kernel
  exact ⟨hformed, hnames, attachParam_agrees_with_body hformed hnames rfl⟩

end Annotation

end ApiNotes
