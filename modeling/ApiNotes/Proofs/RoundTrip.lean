/-
Reading undoes writing.

A canonical text is read by going through its tags.  What a tag adds depends on what is
written in it and not on its place, so a run over tags is a run over what they look like:
`Takes step marks s s'` says that the tags that look like `marks` take the reader from `s`
to `s'`.  Runs are put together from those of single tags, and the whole of an endpoint
from those of its parts.
-/
import ApiNotes.Proofs.Canonical

namespace ApiNotes

open Annotation Text

theorem Method.ofName?_name (method : Method) : Method.ofName? method.name = some method := by
  cases method <;> rfl

namespace Annotation

/-! ### Runs over tags -/

section Runs

variable {ρ μ σ α : Type} {view : ρ → μ} {step : σ → ρ → Checked σ}

/-- Whatever looks like `marks` takes the reader from one state to another. -/
def Takes (view : ρ → μ) (step : σ → ρ → Checked σ) (marks : List μ) (s s' : σ) : Prop :=
  ∀ tags : List ρ, tags.map view = marks → tags.foldlM step s = .ok s'

theorem takes_nil (s : σ) : Takes view step [] s s := by
  intro tags htags
  rw [List.map_eq_nil_iff.mp htags]
  rfl

theorem takes_single {m : μ} {s s' : σ} (h : ∀ tag, view tag = m → step s tag = .ok s') :
    Takes view step [m] s s' := by
  intro tags htags
  obtain ⟨tag, rfl, hview⟩ := List.map_eq_singleton_iff.mp htags
  rw [List.foldlM_cons, h tag hview]
  rfl

theorem Takes.append {ms ms' : List μ} {s s' s'' : σ} (h : Takes view step ms s s')
    (h' : Takes view step ms' s' s'') : Takes view step (ms ++ ms') s s'' := by
  intro tags htags
  obtain ⟨front, back, rfl, hfront, hback⟩ := List.map_eq_append_iff.mp htags
  rw [List.foldlM_append, h front hfront]
  exact h' back hback

theorem Takes.cons {m : μ} {ms : List μ} {s s' s'' : σ} (h : Takes view step [m] s s')
    (h' : Takes view step ms s' s'') : Takes view step (m :: ms) s s'' := h.append h'

/-- Parts are read one after another, each after those before it. -/
theorem takes_flatMap {marks : α → List μ} (put : List α → σ) {xs : List α}
    (h : ∀ before x after, xs = before ++ x :: after →
      Takes view step (marks x) (put before) (put (before ++ [x]))) :
    Takes view step (xs.flatMap marks) (put []) (put xs) := by
  have hall : ∀ after before, xs = before ++ after →
      Takes view step (after.flatMap marks) (put before) (put xs) := by
    intro after
    induction after with
    | nil =>
        intro before hxs
        rw [hxs, List.append_nil]
        exact takes_nil _
    | cons x after ih =>
        intro before hxs
        rw [List.flatMap_cons]
        exact (h before x after hxs).append (ih (before ++ [x]) (by simpa using hxs))
  exact hall xs [] rfl

/-- Parts with a tag each are read one after another. -/
theorem takes_map {mark : α → μ} (put : List α → σ) {xs : List α}
    (h : ∀ x ∈ xs, ∀ before, Takes view step [mark x] (put before) (put (before ++ [x]))) :
    Takes view step (xs.map mark) (put []) (put xs) := by
  rw [List.map_eq_flatMap]
  refine takes_flatMap put fun before x after hxs => h x ?_ before
  rw [hxs]
  simp

/-- Members are read one after another, each into the type that those before it made up. -/
theorem takes_members {mark : List String × Param → μ} (put : DataType → σ)
    {ms : List (List String × Param)}
    (h : ∀ m ∈ ms, ∀ t t', DataType.attachMember t m = some t' →
      Takes view step [mark m] (put t) (put t')) :
    ∀ {t t'}, ms.foldlM DataType.attachMember t = some t' →
      Takes view step (ms.map mark) (put t) (put t') := by
  induction ms with
  | nil =>
      intro t t' hfold
      rw [← Option.some.inj hfold]
      exact takes_nil _
  | cons m rest ih =>
      intro t t' hfold
      rw [List.forall_mem_cons] at h
      rw [List.foldlM_cons, Option.bind_eq_bind, Option.bind_eq_some_iff] at hfold
      obtain ⟨u, hattach, hrest⟩ := hfold
      rw [List.map_cons]
      exact (h.1 t u hattach).cons (ih h.2 hrest)

end Runs

/-! ### Single tags -/

theorem body_of_mark {tag : Tag} {name : String} {body : List Char} (h : tag.mark = ⟨name, body⟩) :
    tag.body.toList = body := congrArg Mark.body h

theorem kind_of_mark {tag : Tag} {name : String} {body : List Char} (h : tag.mark = ⟨name, body⟩) :
    tag.kind = TagKind.ofName name := congrArg (fun m : Mark => TagKind.ofName m.name) h

theorem isOptional_flag (optional : Bool) : isOptional (flag optional) = optional := by
  cases optional <;> rfl

/-- A written status is read back. -/
theorem statusOf?_toString {n : Nat} (h : n < 65536) : statusOf? (toString n) = some n := by
  have hdigits : dropChar '+' (toString n).toList = (toString n).toList := by
    obtain ⟨c, rest, hcons⟩ := List.exists_cons_of_ne_nil (toString_nat_ne_nil n)
    have hc : c.isDigit = true := isDigit_of_mem_toString (by rw [hcons]; exact List.mem_cons_self)
    have hplus : c ≠ '+' := by
      rintro rfl
      exact absurd hc (by decide)
    rw [hcons]
    simp [dropChar, hplus]
  have hempty : (toString n).toList.isEmpty = false := by
    rw [List.isEmpty_eq_false_iff]
    exact toString_nat_ne_nil n
  have hall : (toString n).toList.all Char.isDigit = true :=
    List.all_eq_true.mpr fun c hc => isDigit_of_mem_toString hc
  unfold statusOf?
  simp only [hdigits, hempty, hall, decimalValue_toString]
  simp [h]

/-- The names of a list are read back. -/
theorem groupNames_intercalate {body : String} {names : List String} (hne : names ≠ [])
    (hbody : body.toList = [','].intercalate (names.map String.toList))
    (h : ∀ name ∈ names, IsWord name.toList ∧ ',' ∉ name.toList) : groupNames body = names := by
  have hsplit : body.toList.splitOnP (fun c => c == ',' || isBlank c) =
      names.map String.toList := by
    rw [hbody]
    refine splitOnP_intercalate (by decide) (by simpa using hne) ?_
    intro s hs c hc
    obtain ⟨name, hname, rfl⟩ := List.mem_map.mp hs
    have hcomma : c ≠ ',' := by
      rintro rfl
      exact (h name hname).2 hc
    simp [hcomma, (h name hname).1.filled c hc]
  have hfilled : (names.map String.toList).filter (!·.isEmpty) = names.map String.toList := by
    rw [List.filter_eq_self]
    intro s hs
    obtain ⟨name, hname, rfl⟩ := List.mem_map.mp hs
    simpa using (h name hname).1.ne_nil
  rw [groupNames, hsplit, hfilled, List.map_map]
  simp [Function.comp_def]

theorem headerOf?_headerMark {h : Header} (hh : h.Writable) {tag : Tag}
    (htag : tag.mark = headerMark h) : headerOf? tag = some h := by
  have hwords : ∀ w ∈ [h.name, flag h.optional], IsWord w.toList := by
    simp only [List.forall_mem_cons]
    exact ⟨hh.name, isWord_flag h.optional, by simp⟩
  have hfields : tag.fields 3 =
      [h.name, flag h.optional] ++ if h.summary = "" then [] else [h.summary] :=
    splitFields_fielded (body_of_mark htag) hwords hh.summary.trimmed
  unfold headerOf?
  rw [hfields]
  simp only [List.cons_append, List.nil_append, fieldAt_last, isOptional_flag]

theorem exampleOf?_exampleMark {ex : Example} (hex : ex.Writable) {tag : Tag}
    (htag : tag.mark = exampleMark ex) : exampleOf? tag = some ex := by
  have hwords : ∀ w ∈ [ex.mimetype], IsWord w.toList := by simpa using hex.mimetype
  have hline := oneLine_fielded (by simp) hwords hex.summary
  have hbody : tag.body.toList = fielded [ex.mimetype] ex.summary ++ '\n' :: ex.value.toList := by
    rw [body_of_mark htag, headed, if_neg hex.value_ne_empty]
  have hfields : splitFields (String.ofList (fielded [ex.mimetype] ex.summary)) 2 =
      [ex.mimetype] ++ if ex.summary = "" then [] else [ex.summary] :=
    splitFields_fielded String.toList_ofList hwords hex.summary.trimmed
  have hvalue : ex.value.toList.all isBlank = false := by
    have hne : ex.value.toList ≠ [] := by simpa using hex.value_ne_empty
    rw [List.all_eq_false]
    exact ⟨_, List.getLast_mem hne,
      by simp [hex.value.last _ (List.getLast?_eq_some_getLast hne)]⟩
  unfold exampleOf?
  rw [hbody, cutAt_singleton hline.line]
  simp only [Option.bind_eq_bind, Option.bind_some]
  rw [hfields]
  simp [hvalue, fieldAt_last]

/-- A parameter is read under its dotted name and without its members. -/
theorem paramOf?_paramMark {name : String} {above : List String} {p : Param}
    (hnames : ∀ name ∈ above ++ [p.name], DataType.IsName name)
    (hdescription : Running p.description.toList) {tag : Tag}
    (htag : tag.mark = paramMark name above p) :
    paramOf? tag = .ok (some (DataType.dotted above (DataType.bareParam p))) := by
  have hfields : tag.fields 4 =
      [(DataType.dotted above p).name, p.type.token, flag p.optional] ++
        if p.description = "" then [] else [p.description] :=
    splitFields_fielded (body_of_mark htag) (isWord_paramMark hnames) hdescription.trimmed
  unfold paramOf?
  rw [hfields]
  simp only [List.cons_append, List.nil_append, typeAt, DataType.parse_token, fieldAt_last,
    isOptional_flag]
  rfl

/-- A dotted name is cut into the names above and the name itself. -/
theorem splitName_dotted {above : List String} {p : Param}
    (h : ∀ w ∈ above ++ [p.name], DataType.IsName w) :
    splitName (DataType.dotted above p).name = (above, p.name) := by
  have hsplit : (DataType.dotted above p).name.toList.splitOn '.' =
      (above ++ [p.name]).map String.toList := by
    rw [DataType.dotted, DataType.toList_intercalate_dot]
    refine List.splitOn_intercalate '.' ?_ (by simp)
    intro l hl
    obtain ⟨w, hw, rfl⟩ := List.mem_map.mp hl
    exact (h w hw).dotless
  unfold splitName
  simp only [hsplit, List.map_map]
  simp [Function.comp_def]

/-- The members of a type are read one after another, into the type without members. -/
theorem takes_memberMarks {σ : Type} {step : σ → Tag → Checked σ} {name : String}
    {above : List String} (habove : ∀ w ∈ above, DataType.IsName w) (put : DataType → σ)
    (hstep : ∀ tag m t t', DataType.IsMember m → DataType.attachMember t m = some t' →
      tag.name = name → paramOf? tag = .ok (some (DataType.dotted (above ++ m.1) m.2)) →
      step (put t) tag = .ok (put t')) {t : DataType} (h : t.Writable) :
    Takes Tag.mark step (memberMarks name above t) (put t.bare) (put t) := by
  refine takes_members put (fun m hm t t' hattach => ?_) (DataType.foldlM_nested h)
  have hmember := h.nested m hm
  refine takes_single fun tag htag => ?_
  have hnames : ∀ w ∈ above ++ m.1 ++ [m.2.name], DataType.IsName w := by
    intro w hw
    rw [List.append_assoc, List.mem_append] at hw
    rcases hw with hw | hw
    · exact habove w hw
    · exact hmember.names w hw
  have hparam := paramOf?_paramMark hnames hmember.running htag
  rw [hmember.bare] at hparam
  exact hstep tag m t t' hmember hattach (congrArg Mark.name htag) hparam

/-! ### Parameters -/

theorem attachParam_bare (ps : List Param) {p : Param} (h : DataType.IsName p.name) :
    attachParam ps (DataType.dotted [] (DataType.bareParam p)) =
      ps ++ [DataType.bareParam p] := by
  have hnames : ∀ w ∈ [] ++ [(DataType.bareParam p).name], DataType.IsName w := by
    simpa [DataType.bareParam] using h
  have hself : DataType.dotted [] (DataType.bareParam p) = DataType.bareParam p := Param.eta _
  unfold attachParam
  rw [splitName_dotted hnames, hself]

theorem attachTo_last {first leaf : String} {param p : Param} {above : List String}
    {t : DataType} (hname : p.name = first) (hattach : p.type.attach? leaf
      { param with name := leaf } above = some t) {before : List Param}
    (hbefore : first ∉ before.map Param.name) :
    attachParam.attachTo param first above leaf (before ++ [p]) =
      before ++ [{ p with type := t }] := by
  induction before with
  | nil =>
      rw [List.nil_append, attachParam.attachTo, if_pos hname, hattach]
      rfl
  | cons q rest ih =>
      rw [List.map_cons, List.mem_cons, not_or] at hbefore
      rw [List.cons_append, attachParam.attachTo, if_neg (Ne.symm hbefore.1), ih hbefore.2]
      rfl

/-- A member goes into the parameter that it stands below. -/
theorem attachParam_member {before : List Param} {p : Param} (hp : DataType.IsName p.name)
    (hbefore : p.name ∉ before.map Param.name) {m : List String × Param}
    (hm : DataType.IsMember m) {t t' : DataType} (hattach : DataType.attachMember t m = some t') :
    attachParam (before ++ [{ p with type := t }]) (DataType.dotted ([p.name] ++ m.1) m.2) =
      before ++ [{ p with type := t' }] := by
  have hnames : ∀ w ∈ [p.name] ++ m.1 ++ [m.2.name], DataType.IsName w := by
    rw [List.append_assoc, List.singleton_append, List.forall_mem_cons]
    exact ⟨hp, hm.names⟩
  unfold attachParam
  rw [splitName_dotted hnames]
  refine attachTo_last (p := { p with type := t }) rfl ?_ hbefore
  rw [DataType.dotted, Param.eta]
  exact hattach

/-- The parameters of a list are read one after another, each with its members. -/
theorem takes_paramMarks {σ : Type} {step : σ → Tag → Checked σ} {name : String}
    (put : List Param → σ)
    (hstep : ∀ tag ps p, tag.name = name → paramOf? tag = .ok (some p) →
      step (put ps) tag = .ok (put (attachParam ps p)))
    {ps : List Param} (h : ∀ p ∈ ps, p.Writable) (hnodup : (ps.map Param.name).Nodup) :
    Takes Tag.mark step (ps.flatMap (paramMarks name)) (put []) (put ps) := by
  refine takes_flatMap put fun before p after hps => ?_
  have hp : p.Writable := h p (by rw [hps]; simp)
  have hname : ∀ w ∈ [p.name], DataType.IsName w := by simpa using hp.name
  have hbefore : p.name ∉ before.map Param.name := by
    rw [hps, List.map_append, List.nodup_append] at hnodup
    exact fun hmem => hnodup.2.2 p.name hmem p.name (by simp) rfl
  have hself : Takes Tag.mark step [paramMark name [] p] (put before)
      (put (before ++ [DataType.bareParam p])) := by
    refine takes_single fun tag htag => ?_
    have hparam := paramOf?_paramMark hname hp.description htag
    rw [hstep tag before _ (congrArg Mark.name htag) hparam, attachParam_bare before hp.name]
  have hmembers : Takes Tag.mark step (memberMarks name [p.name] p.type)
      (put (before ++ [DataType.bareParam p])) (put (before ++ [p])) := by
    have hinto : ∀ tag m t t', DataType.IsMember m → DataType.attachMember t m = some t' →
        tag.name = name → paramOf? tag = .ok (some (DataType.dotted ([p.name] ++ m.1) m.2)) →
        step (put (before ++ [{ p with type := t }])) tag =
          .ok (put (before ++ [{ p with type := t' }])) := by
      intro tag m t t' hm hattach htag hparam
      rw [hstep tag _ _ htag hparam, attachParam_member hp.name hbefore hm hattach]
    have hrun := takes_memberMarks hname (fun t => put (before ++ [{ p with type := t }])) hinto
      hp.type
    rw [Param.eta] at hrun
    exact hrun
  exact hself.cons hmembers

/-! ### Bodies -/

theorem addTag_headerMark (body : Body) {h : Header} (hh : h.Writable) {tag : Tag}
    (htag : tag.mark = headerMark h) :
    body.addTag tag = .ok { body with headers := body.headers ++ [h] } := by
  have hkind : tag.kind = .header := kind_of_mark htag
  unfold Body.addTag
  rw [hkind]
  simp only
  rw [Body.addHeader, headerOf?_headerMark hh htag]
  rfl

theorem addTag_exampleMark (body : Body) {ex : Example} (hex : ex.Writable) {tag : Tag}
    (htag : tag.mark = exampleMark ex) :
    body.addTag tag = .ok { body with examples := body.examples ++ [ex] } := by
  have hkind : tag.kind = .sample := kind_of_mark htag
  unfold Body.addTag
  rw [hkind]
  simp only
  rw [Body.addExample, exampleOf?_exampleMark hex htag]
  rfl

/-- A member goes into the type of the body. -/
theorem addTag_member {body : Body} {m : List String × Param} (hm : DataType.IsMember m)
    {t t' : DataType} (htype : body.type = some t) (hattach : DataType.attachMember t m = some t')
    {tag : Tag} (htag : tag.name = "apiParam")
    (hparam : paramOf? tag = .ok (some (DataType.dotted m.1 m.2))) :
    body.addTag tag = .ok { body with type := some t' } := by
  have hkind : tag.kind = .param := congrArg TagKind.ofName htag
  have hinto : t.attach? m.2.name { DataType.dotted m.1 m.2 with name := m.2.name } m.1 =
      some t' := by
    rw [DataType.dotted, Param.eta]
    exact hattach
  unfold Body.addTag
  rw [hkind]
  simp only
  rw [Body.addParam, hparam]
  show Except.ok (body.attach (DataType.dotted m.1 m.2)) = _
  unfold Body.attach
  rw [splitName_dotted hm.names, htype]
  simp only [Option.bind_some, hinto]

/-- The tags that a body owns make up the body, from the type that its opener names. -/
theorem takes_bodyMarks {body : Body} (h : body.Writable) {t : DataType}
    (htype : body.type = some t) (hwritable : (t.withDescription "").Writable) :
    Takes Tag.mark Body.addTag (bodyMarks body)
      { type := some (t.bare.withDescription t.description) } body := by
  obtain ⟨headers, examples, type⟩ := body
  subst htype
  let start := t.bare.withDescription t.description
  have hheaders : Takes Tag.mark Body.addTag (headers.map headerMark) { type := some start }
      { headers, type := some start } :=
    takes_map (fun hs => ({ headers := hs, type := some start } : Body)) fun x hx before =>
      takes_single fun tag htag => addTag_headerMark _ (h.headers x hx) htag
  have hexamples : Takes Tag.mark Body.addTag (examples.map exampleMark)
      { headers, type := some start } { headers, examples, type := some start } :=
    takes_map (fun exs => ({ headers, examples := exs, type := some start } : Body))
      fun x hx before => takes_single fun tag htag =>
        addTag_exampleMark _ (h.examples x hx) htag
  have hmembers : Takes Tag.mark Body.addTag (memberMarks "apiParam" [] t)
      { headers, examples, type := some start } { headers, examples, type := some t } := by
    have hinto : ∀ tag m u u', DataType.IsMember m → DataType.attachMember u m = some u' →
        tag.name = "apiParam" → paramOf? tag = .ok (some (DataType.dotted ([] ++ m.1) m.2)) →
        Body.addTag { headers, examples, type := some (u.withDescription t.description) } tag =
          .ok { headers, examples, type := some (u'.withDescription t.description) } := by
      intro tag m u u' hm hattach htag hparam
      refine addTag_member hm rfl ?_ htag hparam
      rw [DataType.attachMember_withDescription, hattach, Option.map_some]
    have hrun := takes_memberMarks (by simp)
      (fun u => (⟨headers, examples, some (u.withDescription t.description)⟩ : Body)) hinto
      hwritable
    rw [memberMarks_withDescription, DataType.bare_withDescription,
      DataType.withDescription_withDescription, DataType.withDescription_description] at hrun
    exact hrun
  have hmarks : bodyMarks { headers, examples, type := some t } =
      headers.map headerMark ++ examples.map exampleMark ++ memberMarks "apiParam" [] t := by
    simp [bodyMarks]
  rw [hmarks]
  exact (hheaders.append hexamples).append hmembers

/-! ### Sections -/

theorem typeAt_token (tag : Tag) (t : DataType) : typeAt tag t.token = .ok t.bare := by
  rw [typeAt, DataType.parse_token]

/-- The words of a section's opener: those in front, and the type and the mimetype of its body. -/
theorem splitFields_section {body : Body} {t : DataType} (htype : body.type = some t)
    (hdescription : Running t.description.toList) (front : List String) {mimetype : String}
    (hfront : ∀ w ∈ front, IsWord w.toList) (hmimetype : IsWord mimetype.toList) {text : String}
    (htext : text.toList =
      fielded (front ++ [bodyToken body, mimetype]) (bodyText body)) :
    splitFields text (front.length + 3) =
      front ++ [t.token, mimetype] ++ if t.description = "" then [] else [t.description] := by
  have htoken : bodyToken body = t.token := by simp [bodyToken, htype]
  have hlast : bodyText body = t.description := by simp [bodyText, htype]
  rw [htoken, hlast] at htext
  have hwords : ∀ w ∈ front ++ [t.token, mimetype], IsWord w.toList := by
    intro w hw
    rw [List.mem_append] at hw
    rcases hw with hw | hw
    · exact hfront w hw
    · have hall : ∀ w ∈ [t.token, mimetype], IsWord w.toList := by
        simp only [List.forall_mem_cons]
        exact ⟨t.isWord_token, hmimetype, by simp⟩
      exact hall w hw
  have hfields := splitFields_fielded htext hwords hdescription.trimmed
  rwa [List.length_append] at hfields

theorem requestOf?_requestSection {request : Request} (h : request.Writable) {tag : Tag}
    {owned : List Tag} (htag : tag.mark = (requestSection request).1)
    (howned : owned.map Tag.mark = (requestSection request).2) :
    requestOf? tag owned = .ok (some request) := by
  obtain ⟨t, htype, hwritable, hdescription⟩ := h.body.type
  have hfields : tag.fields 3 =
      [t.token, request.mimetype] ++ if t.description = "" then [] else [t.description] :=
    splitFields_section htype hdescription [] (by simp) h.mimetype (body_of_mark htag)
  have hbody := takes_bodyMarks h.body htype hwritable owned howned
  unfold requestOf?
  rw [hfields]
  simp only [List.cons_append, List.nil_append, fieldAt_last, typeAt_token]
  rw [← Body.addTags] at hbody
  simp [bind, Except.bind, hbody]

theorem responseOf?_responseSection {response : Response} (h : response.Writable) {tag : Tag}
    {owned : List Tag} (htag : tag.mark = (responseSection response).1)
    (howned : owned.map Tag.mark = (responseSection response).2) :
    responseOf? tag owned = .ok (some response) := by
  obtain ⟨t, htype, hwritable, hdescription⟩ := h.body.type
  have hstatus : ∀ w ∈ [toString response.status], IsWord w.toList := by
    simpa using isWord_toString response.status
  have hfields : tag.fields 4 =
      [toString response.status, t.token, response.mimetype] ++
        if t.description = "" then [] else [t.description] :=
    splitFields_section htype hdescription [toString response.status] hstatus h.mimetype
      (body_of_mark htag)
  have hbody := takes_bodyMarks h.body htype hwritable owned howned
  unfold responseOf?
  rw [hfields]
  simp only [List.cons_append, List.nil_append, fieldAt_last, typeAt_token,
    statusOf?_toString h.status]
  rw [← Body.addTags] at hbody
  simp [bind, Except.bind, hbody]

/-- A section as it is written. -/
def sectionMark (s : Tag × List Tag) : Mark × List Mark := (s.1.mark, s.2.map Tag.mark)

/-- Tags that look like sections are sections. -/
theorem exists_sections {sections : List (Mark × List Mark)} :
    ∀ {tags : List Tag}, (tags.map Tag.mark = sections.flatMap fun s => s.1 :: s.2) →
      ∃ ts : List (Tag × List Tag), (tags = ts.flatMap fun s => s.1 :: s.2) ∧
        ts.map sectionMark = sections := by
  induction sections with
  | nil =>
      intro tags htags
      exact ⟨[], List.map_eq_nil_iff.mp htags, rfl⟩
  | cons s rest ih =>
      intro tags htags
      rw [List.flatMap_cons] at htags
      obtain ⟨front, back, rfl, hfront, hback⟩ := List.map_eq_append_iff.mp htags
      obtain ⟨opener, owned, rfl, hopener, howned⟩ := List.map_eq_cons_iff.mp hfront
      obtain ⟨ts, rfl, hts⟩ := ih hback
      exact ⟨(opener, owned) :: ts, rfl, by rw [List.map_cons, hts, sectionMark, hopener, howned]⟩

/-- Tags that open no section go to the section before them, or to none. -/
theorem splitSections_append_left {front : List Tag}
    (h : ∀ tag ∈ front, tag.kind.opensSection = false) (rest : List Tag) :
    splitSections (front ++ rest) =
      (front ++ (splitSections rest).1, (splitSections rest).2) := by
  induction front with
  | nil => rfl
  | cons tag front ih =>
      rw [List.forall_mem_cons] at h
      rw [List.cons_append, splitSections, ih h.2]
      simp [h.1]

/-- Sections written one after another are found again. -/
theorem splitSections_sections {front : List Tag} {sections : List (Tag × List Tag)}
    (hfront : ∀ tag ∈ front, tag.kind.opensSection = false)
    (hsections : ∀ s ∈ sections, s.1.kind.opensSection = true ∧
      ∀ tag ∈ s.2, tag.kind.opensSection = false) :
    splitSections (front ++ sections.flatMap fun s => s.1 :: s.2) = (front, sections) := by
  induction sections generalizing front with
  | nil =>
      rw [splitSections_append_left hfront]
      simp [splitSections]
  | cons s rest ih =>
      rw [List.forall_mem_cons] at hsections
      rw [splitSections_append_left hfront, List.flatMap_cons, List.cons_append, splitSections,
        ih hsections.1.2 hsections.2]
      simp [hsections.1.1]

/-! ### Endpoints -/

/-- Whether a tag that looks like this one opens a section. -/
def Mark.opensSection (m : Mark) : Bool := (TagKind.ofName m.name).opensSection

theorem opensSection_memberMarks {name : String}
    (hname : (TagKind.ofName name).opensSection = false) (above : List String) (t : DataType) :
    ∀ m ∈ memberMarks name above t, m.opensSection = false := by
  intro m hm
  obtain ⟨member, -, rfl⟩ := List.mem_map.mp hm
  exact hname

theorem opensSection_bodyMarks (body : Body) : ∀ m ∈ bodyMarks body, m.opensSection = false := by
  intro m hm
  rw [bodyMarks, List.mem_append, List.mem_append, List.mem_map, List.mem_map,
    List.mem_flatMap] at hm
  rcases hm with (⟨header, -, rfl⟩ | ⟨ex, -, rfl⟩) | ⟨t, -, hm⟩
  · rfl
  · rfl
  · exact opensSection_memberMarks rfl [] t m hm

theorem opensSection_frontMarks (e : Endpoint) : ∀ m ∈ frontMarks e, m.opensSection = false := by
  have hparams : ∀ {name : String}, (TagKind.ofName name).opensSection = false →
      ∀ (p : Param), ∀ m ∈ paramMarks name p, m.opensSection = false := by
    intro name hname p
    rw [paramMarks, List.forall_mem_cons]
    exact ⟨hname, opensSection_memberMarks hname [p.name] p.type⟩
  intro m hm
  rw [frontMarks, List.mem_append, List.mem_append, List.mem_append, List.mem_flatMap,
    List.mem_flatMap, List.mem_map] at hm
  rcases hm with ((hm | ⟨p, -, hm⟩) | ⟨p, -, hm⟩) | ⟨header, -, rfl⟩
  · unfold groupMarks at hm
    split at hm
    · cases hm
    · rw [List.mem_singleton.mp hm]
      rfl
  · exact hparams rfl p m hm
  · exact hparams rfl p m hm
  · rfl

theorem opensSection_sectionMarks (e : Endpoint) : ∀ s ∈ sectionMarks e,
    s.1.opensSection = true ∧ ∀ m ∈ s.2, m.opensSection = false := by
  intro s hs
  rw [sectionMarks, List.mem_append, List.mem_map, List.mem_map] at hs
  rcases hs with ⟨request, -, rfl⟩ | ⟨response, -, rfl⟩
  · exact ⟨rfl, opensSection_bodyMarks request.body⟩
  · exact ⟨rfl, opensSection_bodyMarks response.body⟩

/-- The tags of a canonical text behind its opener are cut into its sections. -/
theorem exists_splitSections {e : Endpoint} {tags : List Tag}
    (htags : tags.map Tag.mark = frontMarks e ++ (sectionMarks e).flatMap fun s => s.1 :: s.2) :
    ∃ front sections, splitSections tags = (front, sections) ∧
      front.map Tag.mark = frontMarks e ∧ sections.map sectionMark = sectionMarks e := by
  obtain ⟨front, back, rfl, hfront, hback⟩ := List.map_eq_append_iff.mp htags
  obtain ⟨sections, rfl, hsections⟩ := exists_sections hback
  refine ⟨front, sections, splitSections_sections ?_ ?_, hfront, hsections⟩
  · intro tag htag
    exact opensSection_frontMarks e tag.mark (by rw [← hfront]; exact List.mem_map_of_mem htag)
  · intro s hs
    have hmark := opensSection_sectionMarks e (sectionMark s)
      (by rw [← hsections]; exact List.mem_map_of_mem hs)
    exact ⟨hmark.1, fun tag htag => hmark.2 tag.mark (List.mem_map_of_mem htag)⟩

theorem describeEndpoint_groups (e : Endpoint) {names : List String} (hne : names ≠ [])
    (hnames : ∀ name ∈ names, IsWord name.toList ∧ ',' ∉ name.toList) {tag : Tag}
    (htag : tag.mark = ⟨"apiTags", [','].intercalate (names.map String.toList)⟩) :
    describeEndpoint e tag = .ok { e with tags := e.tags ++ names } := by
  have hkind : tag.kind = .tags := kind_of_mark htag
  unfold describeEndpoint
  rw [hkind]
  simp only
  rw [groupNames_intercalate hne (body_of_mark htag) hnames]

theorem describeEndpoint_param (e : Endpoint) {tag : Tag} {p : Param}
    (hname : tag.name = "apiParam") (hparam : paramOf? tag = .ok (some p)) :
    describeEndpoint e tag = .ok { e with params := attachParam e.params p } := by
  have hkind : tag.kind = .param := congrArg TagKind.ofName hname
  unfold describeEndpoint
  rw [hkind]
  simp only
  rw [hparam]
  rfl

theorem describeEndpoint_query (e : Endpoint) {tag : Tag} {p : Param}
    (hname : tag.name = "apiQuery") (hparam : paramOf? tag = .ok (some p)) :
    describeEndpoint e tag = .ok { e with queries := attachParam e.queries p } := by
  have hkind : tag.kind = .query := congrArg TagKind.ofName hname
  unfold describeEndpoint
  rw [hkind]
  simp only
  rw [hparam]
  rfl

theorem describeEndpoint_header (e : Endpoint) {h : Header} (hh : h.Writable) {tag : Tag}
    (htag : tag.mark = headerMark h) :
    describeEndpoint e tag = .ok { e with headers := e.headers ++ [h] } := by
  have hkind : tag.kind = .header := kind_of_mark htag
  unfold describeEndpoint
  rw [hkind]
  simp only
  rw [headerOf?_headerMark hh htag]
  rfl

/-- The tags in front of the sections make up what stands outside of them. -/
theorem takes_frontMarks {e : Endpoint} (h : e.Writable) :
    Takes Tag.mark describeEndpoint (frontMarks e)
      { e with tags := [], params := [], queries := [], headers := [], request := none
               responses := [] }
      { e with request := none, responses := [] } := by
  obtain ⟨method, path, summary, description, tags, headers, params, queries, request, responses,
    file, position⟩ := e
  let put (tags : List String) (params queries : List Param) (headers : List Header) : Endpoint :=
    ⟨method, path, summary, description, tags, headers, params, queries, none, [], file, position⟩
  have htags : Takes Tag.mark describeEndpoint (groupMarks tags) (put [] [] [] [])
      (put tags [] [] []) := by
    unfold groupMarks
    by_cases hnames : tags = []
    · rw [if_pos hnames, hnames]
      exact takes_nil _
    · rw [if_neg hnames]
      exact takes_single fun tag htag => describeEndpoint_groups _ hnames h.tags htag
  have hparams : Takes Tag.mark describeEndpoint (params.flatMap (paramMarks "apiParam"))
      (put tags [] [] []) (put tags params [] []) :=
    takes_paramMarks (fun ps => put tags ps [] [])
      (fun tag ps p hname hparam => describeEndpoint_param _ hname hparam) h.params h.params_nodup
  have hqueries : Takes Tag.mark describeEndpoint (queries.flatMap (paramMarks "apiQuery"))
      (put tags params [] []) (put tags params queries []) :=
    takes_paramMarks (fun ps => put tags params ps [])
      (fun tag ps p hname hparam => describeEndpoint_query _ hname hparam) h.queries
      h.queries_nodup
  have hheaders : Takes Tag.mark describeEndpoint (headers.map headerMark)
      (put tags params queries []) (put tags params queries headers) :=
    takes_map (put tags params queries) fun header hheader before =>
      takes_single fun tag htag => describeEndpoint_header _ (h.headers header hheader) htag
  exact ((htags.append hparams).append hqueries).append hheaders

theorem describeSection_request (e : Endpoint) {request : Request} (h : request.Writable)
    {s : Tag × List Tag} (hs : sectionMark s = requestSection request) :
    describeSection e s.1 s.2 = .ok { e with request := e.request.or (some request) } := by
  have hopener : s.1.mark = (requestSection request).1 := congrArg Prod.fst hs
  have howned : s.2.map Tag.mark = (requestSection request).2 := congrArg Prod.snd hs
  have hkind : s.1.kind = .request := kind_of_mark hopener
  unfold describeSection
  rw [hkind]
  simp only
  rw [requestOf?_requestSection h hopener howned]
  rfl

theorem describeSection_response (e : Endpoint) {response : Response} (h : response.Writable)
    {s : Tag × List Tag} (hs : sectionMark s = responseSection response) :
    describeSection e s.1 s.2 = .ok { e with responses := e.responses ++ [response] } := by
  have hopener : s.1.mark = (responseSection response).1 := congrArg Prod.fst hs
  have howned : s.2.map Tag.mark = (responseSection response).2 := congrArg Prod.snd hs
  have hkind : s.1.kind = .response := kind_of_mark hopener
  unfold describeSection
  rw [hkind]
  simp only
  rw [responseOf?_responseSection h hopener howned]
  rfl

/-- The sections make up the request and the responses. -/
theorem takes_sectionMarks {e : Endpoint} (h : e.Writable) :
    Takes sectionMark (fun e s => describeSection e s.1 s.2) (sectionMarks e)
      { e with request := none, responses := [] } e := by
  obtain ⟨method, path, summary, description, tags, headers, params, queries, request, responses,
    file, position⟩ := e
  let put (request : Option Request) (responses : List Response) : Endpoint :=
    ⟨method, path, summary, description, tags, headers, params, queries, request, responses, file,
      position⟩
  have hrequest : Takes sectionMark (fun e s => describeSection e s.1 s.2)
      (request.toList.map requestSection) (put none []) (put request []) := by
    cases request with
    | none => exact takes_nil _
    | some request =>
        exact takes_single fun s hs => describeSection_request _ (h.request request rfl) hs
  have hresponses : Takes sectionMark (fun e s => describeSection e s.1 s.2)
      (responses.map responseSection) (put request []) (put request responses) :=
    takes_map (put request) fun response hresponse before =>
      takes_single fun s hs => describeSection_response _ (h.responses response hresponse) hs
  exact hrequest.append hresponses

/-- The tags of a canonical text make up the endpoint, where its opener stands. -/
theorem endpointOf?_endpointMarks {e : Endpoint} (h : e.Writable) {opener : Tag} {rest : List Tag}
    (hopener : opener.mark = openerMark e)
    (hrest : rest.map Tag.mark = frontMarks e ++ (sectionMarks e).flatMap fun s => s.1 :: s.2) :
    endpointOf? opener rest = .ok (some { e with position := opener.position, file := none }) := by
  have hwords : ∀ w ∈ [e.method.name, e.path], IsWord w.toList := by
    simp only [List.forall_mem_cons]
    exact ⟨isWord_methodName e.method, h.path, by simp⟩
  have hline := oneLine_fielded (by simp) hwords h.summary
  have hhead : headAndTail opener.body =
      (String.ofList (fielded [e.method.name, e.path] e.summary), e.description) :=
    headAndTail_headed (body_of_mark hopener) hline.line hline.trimmed h.description.1
  have hfields : splitFields (String.ofList (fielded [e.method.name, e.path] e.summary)) 3 =
      [e.method.name, e.path] ++ if e.summary = "" then [] else [e.summary] :=
    splitFields_fielded String.toList_ofList hwords h.summary.trimmed
  obtain ⟨front, sections, hsplit, hfront, hsections⟩ := exists_splitSections hrest
  have hplaced := h.placed opener.position none
  have hreadFront := takes_frontMarks hplaced front hfront
  have hreadSections := takes_sectionMarks hplaced sections hsections
  unfold endpointOf?
  rw [hhead]
  simp only [hfields, List.cons_append, List.nil_append, Method.ofName?_name, hsplit, fieldAt_last]
  simp only [bind, Except.bind]
  rw [hreadFront]
  simp only
  rw [hreadSections]

/-- **Reading undoes writing.**  The canonical text of an endpoint that can be written declares
that endpoint, where the text stands. -/
theorem blockOfRegion_canonical {e : Endpoint} (h : e.Writable) (origin : Position) :
    blockOfRegion ⟨origin, canonical e⟩ =
      .ok (.endpoint { e with position := origin, file := none }) := by
  obtain ⟨tags, htags, hmarks, hposition⟩ :=
    tagsOf_written origin (by simp [endpointMarks]) (readable_endpointMarks h)
  obtain ⟨opener, rest, rfl, hopener, hrest⟩ := List.map_eq_cons_iff.mp hmarks
  have hplace : opener.position = origin := hposition opener rfl
  have hkind : opener.kind = .endpoint := kind_of_mark hopener
  have hread := endpointOf?_endpointMarks h hopener hrest
  rw [hplace] at hread
  unfold blockOfRegion
  simp only [canonical, htags]
  simp only [bind, Except.bind]
  unfold blockOf
  rw [List.dropWhile_cons_of_neg (by simp [hkind, TagKind.opensBlock])]
  simp only [hkind]
  rw [if_neg (by decide), hread]
  rfl

/-- A type with a member below a member and one below an array. -/
def petType : DataType :=
  .object
    [("name", ⟨"name", .leaf .string "", false, "what it\nanswers to"⟩),
     ("owner", ⟨"owner", .object [("id", ⟨"id", .leaf .number "", false, ""⟩)] "", true, ""⟩),
     ("visits", ⟨"visits", .array (some (.object [("at", ⟨"at", .leaf .string "", false, "when"⟩)]
       "")) "", true, ""⟩)] ""

/-- An endpoint that uses every part of the annotation language. -/
def searchPets : Endpoint where
  method := .post
  path := "/pets/:kind"
  summary := "Search for pets"
  description := "Pages count from one.\nThere is always a first page."
  tags := ["pets", "search"]
  headers := [⟨"Page", "which page", true⟩]
  params := [⟨"kind", .leaf .string "", false, "cats or dogs"⟩]
  queries := [⟨"like", petType, true, ""⟩]
  request := some ⟨"application/json", { type := some (.array (some petType) "some of them") }⟩
  responses :=
    [⟨200, "application/json",
      { headers := [⟨"Pages", "", false⟩]
        examples := [⟨"application/json", "nothing found", "[\n]"⟩]
        type := some (.array (some petType) "") }⟩,
     ⟨404, "*", { type := some (.leaf .nothing "no such kind") }⟩]

theorem writable_petType : petType.Writable := by
  have hid : DataType.Writable (.object [("id", ⟨"id", .leaf .number "", false, ""⟩)] "") :=
    .object (by decide) (by decide) (by decide) (by decide) (by simp [DataType.Writable.leaf])
  have hat : DataType.Writable (.object [("at", ⟨"at", .leaf .string "", false, "when"⟩)] "") :=
    .object (by decide) (by decide) (by decide) (by decide) (by simp [DataType.Writable.leaf])
  refine .object (by decide) (by decide) (by decide) (by decide) ?_
  simp only [List.forall_mem_cons]
  exact ⟨.leaf .string, hid, .array hat, by simp⟩

theorem writable_searchPets : searchPets.Writable where
  path := by decide
  summary := by decide
  description := by decide
  tags := by decide
  params := by
    rw [searchPets, List.forall_mem_singleton]
    exact ⟨by decide, .leaf .string, by decide⟩
  params_nodup := by decide
  queries := by
    rw [searchPets, List.forall_mem_singleton]
    exact ⟨by decide, writable_petType, by decide⟩
  queries_nodup := by decide
  headers := by
    rw [searchPets, List.forall_mem_singleton]
    exact ⟨by decide, by decide⟩
  request := by
    rintro request ⟨⟩
    exact
      { mimetype := by decide
        body :=
          { headers := by simp
            examples := by simp
            type := ⟨_, rfl, .array writable_petType, by decide⟩ } }
  responses := by
    rw [searchPets, List.forall_mem_cons, List.forall_mem_singleton]
    constructor
    · exact
        { status := by decide
          mimetype := by decide
          body :=
            { headers := List.forall_mem_singleton.mpr ⟨by decide, by decide⟩
              examples := List.forall_mem_singleton.mpr
                ⟨by decide, by decide, by decide, by decide⟩
              type := ⟨_, rfl, .array writable_petType, by decide⟩ } }
    · exact
        { status := by decide
          mimetype := by decide
          body :=
            { headers := by simp
              examples := by simp
              type := ⟨_, rfl, .leaf .nothing, by decide⟩ } }

theorem blockOfRegion_searchPets : searchPets.Writable ∧
    blockOfRegion ⟨⟨3, 5⟩, canonical searchPets⟩ =
      .ok (.endpoint { searchPets with position := ⟨3, 5⟩, file := none }) :=
  ⟨writable_searchPets, blockOfRegion_canonical writable_searchPets ⟨3, 5⟩⟩

end Annotation

end ApiNotes
