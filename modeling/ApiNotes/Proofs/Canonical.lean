/-
Endpoints written as annotations.

There are many ways to write an endpoint down, and one of them is its canonical text: the
opener, the groups, the parameters of the path and of the query with their members behind
them, the headers, and then a section for the request and for each response.  An endpoint
is `Writable` when that text is free of accidents: names are words, texts do not open tags
of their own, and members stand under their names.  Every tag of the text is then readable.
-/
import ApiNotes.Annotation.Source
import ApiNotes.Proofs.Members

namespace ApiNotes

open Annotation Text

/-! ### What can be written -/

/-- A text on a line of its own. -/
structure Annotation.OneLine (s : List Char) : Prop where
  trimmed : Trimmed s
  line : '\n' ∉ s

instance (s : List Char) : Decidable (OneLine s) :=
  decidable_of_iff (Trimmed s ∧ '\n' ∉ s) ⟨fun h => ⟨h.1, h.2⟩, fun h => ⟨h.trimmed, h.line⟩⟩

/-- A header that a tag can hold. -/
structure Header.Writable (h : Header) : Prop where
  name : IsWord h.name.toList
  summary : Running h.summary.toList

/-- An example that a tag can hold; one without a value would be dropped. -/
structure Example.Writable (ex : Example) : Prop where
  mimetype : IsWord ex.mimetype.toList
  summary : OneLine ex.summary.toList
  value_ne_empty : ex.value ≠ ""
  value : Standing ex.value.toList

/-- A parameter that tags can hold, with all its members. -/
structure Param.Writable (p : Param) : Prop where
  name : DataType.IsName p.name
  type : p.type.Writable
  description : Running p.description.toList

/-- A body that tags can hold; the text on its type goes to the tag of the section. -/
structure Body.Writable (body : Body) : Prop where
  headers : ∀ h ∈ body.headers, h.Writable
  examples : ∀ ex ∈ body.examples, ex.Writable
  type : ∃ t, body.type = some t ∧ (t.withDescription "").Writable ∧
    Running t.description.toList

/-- A request that a section can hold. -/
structure Request.Writable (request : Request) : Prop where
  mimetype : IsWord request.mimetype.toList
  body : request.body.Writable

/-- A response that a section can hold. -/
structure Response.Writable (response : Response) : Prop where
  status : response.status < 65536
  mimetype : IsWord response.mimetype.toList
  body : response.body.Writable

/-- An endpoint that an annotation can hold. -/
structure Endpoint.Writable (e : Endpoint) : Prop where
  path : IsWord e.path.toList
  summary : OneLine e.summary.toList
  description : Trimmed e.description.toList ∧ Standing e.description.toList
  tags : ∀ name ∈ e.tags, IsWord name.toList ∧ ',' ∉ name.toList
  params : ∀ p ∈ e.params, p.Writable
  params_nodup : (e.params.map Param.name).Nodup
  queries : ∀ p ∈ e.queries, p.Writable
  queries_nodup : (e.queries.map Param.name).Nodup
  headers : ∀ h ∈ e.headers, h.Writable
  request : ∀ request ∈ e.request, request.Writable
  responses : ∀ response ∈ e.responses, response.Writable

/-- Where an endpoint stands plays no part in whether it can be written. -/
theorem Endpoint.Writable.placed {e : Endpoint} (h : e.Writable) (origin : Position)
    (file : Option String) : ({ e with position := origin, file := file } : Endpoint).Writable :=
  { h with }

namespace Annotation

/-! ### The canonical text -/

/-- The word that says whether a value may be left out. -/
def flag (optional : Bool) : String := if optional then "optional" else "required"

/-- The tag of a header. -/
def headerMark (h : Header) : Mark := ⟨"apiHeader", fielded [h.name, flag h.optional] h.summary⟩

/-- The tag of an example, with the value on the lines below. -/
def exampleMark (ex : Example) : Mark :=
  ⟨"apiExample", headed (fielded [ex.mimetype] ex.summary) ex.value⟩

/-- The tag of a parameter, with the names above it in front of its own. -/
def paramMark (tag : String) (above : List String) (p : Param) : Mark :=
  ⟨tag, fielded [(DataType.dotted above p).name, p.type.token, flag p.optional] p.description⟩

/-- The tags of the members of a type that stands below the given names. -/
def memberMarks (tag : String) (above : List String) (t : DataType) : List Mark :=
  t.nested.map fun m => paramMark tag (above ++ m.1) m.2

/-- The tags of a parameter and of its members. -/
def paramMarks (tag : String) (p : Param) : List Mark :=
  paramMark tag [] p :: memberMarks tag [p.name] p.type

/-- The tags that a body owns. -/
def bodyMarks (body : Body) : List Mark :=
  body.headers.map headerMark ++ body.examples.map exampleMark ++
    body.type.toList.flatMap (memberMarks "apiParam" [])

/-- The token of the type of a body. -/
def bodyToken (body : Body) : String := (body.type.map DataType.token).getD ""

/-- The text on the type of a body. -/
def bodyText (body : Body) : String := (body.type.map DataType.description).getD ""

/-- The section of a request: its opener and the tags it owns. -/
def requestSection (request : Request) : Mark × List Mark :=
  (⟨"apiRequest", fielded [bodyToken request.body, request.mimetype] (bodyText request.body)⟩,
    bodyMarks request.body)

/-- The section of a response: its opener and the tags it owns. -/
def responseSection (response : Response) : Mark × List Mark :=
  (⟨"apiResponse", fielded [toString response.status, bodyToken response.body, response.mimetype]
      (bodyText response.body)⟩,
    bodyMarks response.body)

/-- The tag that opens an endpoint. -/
def openerMark (e : Endpoint) : Mark :=
  ⟨"api", headed (fielded [e.method.name, e.path] e.summary) e.description⟩

/-- The tag of the groups, if any. -/
def groupMarks (names : List String) : List Mark :=
  if names = [] then [] else [⟨"apiTags", [','].intercalate (names.map String.toList)⟩]

/-- The tags between the opener and the first section. -/
def frontMarks (e : Endpoint) : List Mark :=
  groupMarks e.tags ++ e.params.flatMap (paramMarks "apiParam") ++
    e.queries.flatMap (paramMarks "apiQuery") ++ e.headers.map headerMark

/-- The sections of an endpoint. -/
def sectionMarks (e : Endpoint) : List (Mark × List Mark) :=
  e.request.toList.map requestSection ++ e.responses.map responseSection

/-- All tags of an endpoint. -/
def endpointMarks (e : Endpoint) : List Mark :=
  openerMark e :: (frontMarks e ++ (sectionMarks e).flatMap fun s => s.1 :: s.2)

/-- The canonical text of an endpoint. -/
def canonical (e : Endpoint) : String := String.ofList (written (endpointMarks e))

example : canonical
    { method := .get
      path := "/pets"
      tags := ["pets", "list"]
      queries :=
        [⟨"like", .object [("name", ⟨"name", .leaf .string "", true, ""⟩)] "", false, ""⟩] } =
    "@api GET /pets\n@apiTags pets,list\n@apiQuery like object required\n" ++
      "@apiQuery like.name string optional" := by
  decide +kernel

/-! ### Every tag is readable -/

/-- A name that a tag can have. -/
structure IsTagName (name : String) : Prop where
  ne_nil : name.toList ≠ []
  alpha : name.toList.all Char.isAlpha = true

/-- A tag of words and a last field is readable. -/
theorem readable_fielded {name : String} (hname : IsTagName name) {words : List String}
    (hne : words ≠ []) (hwords : ∀ w ∈ words, IsWord w.toList) {last : String}
    (hlast : Running last.toList) : (Mark.mk name (fielded words last)).Readable where
  name_ne_nil := hname.ne_nil
  name_alpha := hname.alpha
  body_ne_nil := fielded_ne_nil hne hwords last
  running := running_fielded hne hwords hlast

/-- A first line of words and a last field is no blank line. -/
theorem oneLine_fielded {words : List String} (hne : words ≠ [])
    (hwords : ∀ w ∈ words, IsWord w.toList) {last : String} (hlast : OneLine last.toList) :
    OneLine (fielded words last) where
  trimmed := fielded_trimmed hne hwords hlast.trimmed
  line := by
    obtain ⟨front, hfront, heq⟩ : ∃ front, '\n' ∉ front ∧
        fielded words last = front ++ last.toList :=
      fielded_eq_append hwords last (by decide) (by decide)
    rw [heq, List.mem_append, not_or]
    exact ⟨hfront, hlast.line⟩

/-- A tag of words and a last field on one line, and a text below it, is readable. -/
theorem readable_headed {name : String} (hname : IsTagName name) {words : List String}
    (hne : words ≠ []) (hwords : ∀ w ∈ words, IsWord w.toList) {last below : String}
    (hlast : OneLine last.toList) (hbelow : Standing below.toList) :
    (Mark.mk name (headed (fielded words last) below)).Readable where
  name_ne_nil := hname.ne_nil
  name_alpha := hname.alpha
  body_ne_nil := by
    intro hnil
    exact fielded_ne_nil hne hwords last (List.append_eq_nil_iff.mp hnil).1
  running :=
    have hline := oneLine_fielded hne hwords hlast
    running_headed (fielded_ne_nil hne hwords last) hline.line hline.trimmed hbelow

theorem isWord_flag (optional : Bool) : IsWord (flag optional).toList := by
  cases optional <;> decide

theorem isWord_methodName (method : Method) : IsWord method.name.toList := by
  cases method <;> decide

theorem isWord_toString (n : Nat) : IsWord (toString n).toList where
  ne_nil := toString_nat_ne_nil n
  filled := fun _ hc => isBlank_of_isDigit (isDigit_of_mem_toString hc)

theorem isTagName_param : IsTagName "apiParam" := ⟨by decide, by decide⟩

theorem isTagName_query : IsTagName "apiQuery" := ⟨by decide, by decide⟩

theorem readable_headerMark {h : Header} (hh : h.Writable) : (headerMark h).Readable := by
  refine readable_fielded ⟨by decide, by decide⟩ (by simp) ?_ hh.summary
  simp only [List.forall_mem_cons]
  exact ⟨hh.name, isWord_flag h.optional, by simp⟩

theorem readable_exampleMark {ex : Example} (hex : ex.Writable) : (exampleMark ex).Readable := by
  refine readable_headed ⟨by decide, by decide⟩ (by simp) ?_ hex.summary hex.value
  simpa using hex.mimetype

/-- The words of a parameter's tag. -/
theorem isWord_paramMark {above : List String} {p : Param}
    (hnames : ∀ name ∈ above ++ [p.name], DataType.IsName name) :
    ∀ w ∈ [(DataType.dotted above p).name, p.type.token, flag p.optional], IsWord w.toList := by
  simp only [List.forall_mem_cons]
  refine ⟨?_, p.type.isWord_token, isWord_flag p.optional, by simp⟩
  exact DataType.isWord_intercalate_dot (by simp) fun name hname => (hnames name hname).word

theorem readable_paramMark {tag : String} (htag : IsTagName tag) {above : List String} {p : Param}
    (hnames : ∀ name ∈ above ++ [p.name], DataType.IsName name)
    (hdescription : Running p.description.toList) : (paramMark tag above p).Readable :=
  readable_fielded htag (by simp) (isWord_paramMark hnames) hdescription

theorem readable_memberMarks {tag : String} (htag : IsTagName tag) {above : List String}
    (habove : ∀ name ∈ above, DataType.IsName name) {t : DataType} (h : t.Writable) :
    ∀ m ∈ memberMarks tag above t, m.Readable := by
  intro m hm
  obtain ⟨member, hmember, rfl⟩ := List.mem_map.mp hm
  have hwritable := h.nested member hmember
  refine readable_paramMark htag ?_ hwritable.running
  intro name hname
  rw [List.append_assoc, List.mem_append] at hname
  rcases hname with hname | hname
  · exact habove name hname
  · exact hwritable.names name hname

theorem readable_paramMarks {tag : String} (htag : IsTagName tag) {p : Param} (h : p.Writable) :
    ∀ m ∈ paramMarks tag p, m.Readable := by
  have hname : ∀ name ∈ [p.name], DataType.IsName name := by simpa using h.name
  rw [paramMarks, List.forall_mem_cons]
  exact ⟨readable_paramMark htag hname h.description, readable_memberMarks htag hname h.type⟩

theorem memberMarks_withDescription (tag : String) (above : List String) (text : String)
    (t : DataType) : memberMarks tag above (t.withDescription text) = memberMarks tag above t := by
  rw [memberMarks, DataType.nested_withDescription, memberMarks]

theorem readable_bodyMarks {body : Body} (h : body.Writable) :
    ∀ m ∈ bodyMarks body, m.Readable := by
  obtain ⟨t, htype, hwritable, -⟩ := h.type
  intro m hm
  rw [bodyMarks, htype, List.mem_append, List.mem_append, List.mem_map, List.mem_map] at hm
  rcases hm with (⟨header, hheader, rfl⟩ | ⟨ex, hex, rfl⟩) | hm
  · exact readable_headerMark (h.headers header hheader)
  · exact readable_exampleMark (h.examples ex hex)
  · have hmember : m ∈ memberMarks "apiParam" [] (t.withDescription "") := by
      rw [memberMarks_withDescription]
      simpa using hm
    exact readable_memberMarks isTagName_param (by simp) hwritable m hmember

/-- The tag that opens the section of a body, with the words in front of the type and behind it. -/
theorem readable_sectionMark {name : String} (hname : IsTagName name) {body : Body}
    (h : body.Writable) (words : List String) (hwords : ∀ w ∈ words, IsWord w.toList)
    {mimetype : String} (hmimetype : IsWord mimetype.toList) :
    (Mark.mk name (fielded (words ++ [bodyToken body, mimetype]) (bodyText body))).Readable := by
  obtain ⟨t, htype, -, hdescription⟩ := h.type
  refine readable_fielded hname (by simp) ?_ (by simpa [bodyText, htype] using hdescription)
  intro w hw
  rw [List.mem_append] at hw
  rcases hw with hw | hw
  · exact hwords w hw
  · have hall : ∀ w ∈ [bodyToken body, mimetype], IsWord w.toList := by
      simp only [List.forall_mem_cons]
      exact ⟨by simpa [bodyToken, htype] using t.isWord_token, hmimetype, by simp⟩
    exact hall w hw

theorem readable_requestSection {request : Request} (h : request.Writable) :
    ∀ m ∈ (requestSection request).1 :: (requestSection request).2, m.Readable := by
  rw [List.forall_mem_cons]
  exact ⟨readable_sectionMark ⟨by decide, by decide⟩ h.body [] (by simp) h.mimetype,
    readable_bodyMarks h.body⟩

theorem readable_responseSection {response : Response} (h : response.Writable) :
    ∀ m ∈ (responseSection response).1 :: (responseSection response).2, m.Readable := by
  rw [List.forall_mem_cons]
  refine ⟨readable_sectionMark ⟨by decide, by decide⟩ h.body [toString response.status]
    ?_ h.mimetype, readable_bodyMarks h.body⟩
  simpa using isWord_toString response.status

theorem readable_groupMarks {names : List String}
    (h : ∀ name ∈ names, IsWord name.toList ∧ ',' ∉ name.toList) :
    ∀ m ∈ groupMarks names, m.Readable := by
  unfold groupMarks
  by_cases hnames : names = []
  · simp [hnames]
  · rw [if_neg hnames, List.forall_mem_singleton]
    have hword : IsWord ([','].intercalate (names.map String.toList)) :=
      isWord_intercalate (by decide) hnames fun name hname => (h name hname).1
    have hname : IsTagName "apiTags" := ⟨by decide, by decide⟩
    exact
      { name_ne_nil := hname.ne_nil
        name_alpha := hname.alpha
        body_ne_nil := hword.ne_nil
        running := running_of_line hword.trimmed (hword.not_mem (by decide)) }

theorem readable_openerMark {e : Endpoint} (h : e.Writable) : (openerMark e).Readable := by
  refine readable_headed ⟨by decide, by decide⟩ (by simp) ?_ h.summary h.description.2
  simp only [List.forall_mem_cons]
  exact ⟨isWord_methodName e.method, h.path, by simp⟩

/-- **Every tag of a canonical text is readable.** -/
theorem readable_endpointMarks {e : Endpoint} (h : e.Writable) :
    ∀ m ∈ endpointMarks e, m.Readable := by
  rw [endpointMarks, List.forall_mem_cons]
  refine ⟨readable_openerMark h, fun m hm => ?_⟩
  rw [List.mem_append, frontMarks, sectionMarks, List.mem_append, List.mem_append, List.mem_append,
    List.mem_flatMap, List.mem_flatMap, List.mem_map, List.mem_flatMap] at hm
  rcases hm with (((hm | ⟨p, hp, hm⟩) | ⟨p, hp, hm⟩) | ⟨header, hheader, rfl⟩) | ⟨s, hs, hm⟩
  · exact readable_groupMarks h.tags m hm
  · exact readable_paramMarks isTagName_param (h.params p hp) m hm
  · exact readable_paramMarks isTagName_query (h.queries p hp) m hm
  · exact readable_headerMark (h.headers header hheader)
  · rw [List.mem_append, List.mem_map, List.mem_map] at hs
    rcases hs with ⟨request, hrequest, rfl⟩ | ⟨response, hresponse, rfl⟩
    · exact readable_requestSection (h.request request (by simpa using hrequest)) m hm
    · exact readable_responseSection (h.responses response hresponse) m hm

end Annotation

end ApiNotes
