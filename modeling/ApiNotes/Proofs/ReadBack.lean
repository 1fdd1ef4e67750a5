/-
What is written is read back.

A record is written as a table of its fields and read from a table by their names, so the two
sides have to agree on every name, on what may be left out and on what then stands in its
place.  `Reads` says that they do, for one record after another: each theorem here goes through
the fields of one record and cites the theorems of the records in it.  What the fields ask for
is that no table of a document repeats a key (`Distinct`), since reading keeps one entry of a
key only.  A response may be replaced by a reference, which is tried first; a response that is
written out has no field that a reference needs, so it is not taken for one.

Of the format nothing is asked but that it gives back the tree that was written.
-/
import ApiNotes.OpenApi.Text
import ApiNotes.Proofs.JsonText
import ApiNotes.Proofs.Readers
import ApiNotes.Proofs.Sameness

namespace ApiNotes

/-- A table has distinct keys, and each of its values is right. -/
structure Dict.Distinct {α : Type} (right : α → Prop) (d : Dict α) : Prop where
  nodup : (Dict.keys d).Nodup
  each : ∀ e ∈ d, right e.2

theorem Dict.Distinct.nil {α : Type} {right : α → Prop} : Dict.Distinct right [] :=
  ⟨List.nodup_nil, nofun⟩

theorem Dict.Distinct.single {α : Type} {right : α → Prop} {key : String} {value : α}
    (h : right value) : Dict.Distinct right [(key, value)] :=
  ⟨List.nodup_singleton key, fun e he => by rwa [List.mem_singleton.mp he]⟩

namespace OpenApi

open Node

/-! ### Documents without repeated keys -/

/-- The schema of a header has distinct properties. -/
structure Header.Distinct (h : Header) : Prop where
  schema : ∀ s, h.schema = some s → s.Keyed

/-- Content of one mimetype has distinct properties and examples. -/
structure MediaType.Distinct (media : MediaType) : Prop where
  schema : ∀ s, media.schema = some s → s.Keyed
  examples : (Dict.keys media.examples).Nodup

/-- So have all tables in a response. -/
structure Response.Distinct (r : Response) : Prop where
  headers : Dict.Distinct Header.Distinct r.headers
  content : Dict.Distinct MediaType.Distinct r.content

/-- The schema of a parameter has distinct properties. -/
structure Parameter.Distinct (p : Parameter) : Prop where
  schema : ∀ s, p.schema = some s → s.Keyed

/-- The content of a request body has distinct mimetypes, and is itself distinct. -/
structure RequestBody.Distinct (body : RequestBody) : Prop where
  content : Dict.Distinct MediaType.Distinct body.content

/-- A response that stands in place of a reference is distinct. -/
def Referable.Distinct (r : Referable Response) : Prop := ∀ response, r = .item response →
  response.Distinct

/-- All tables in an operation have distinct keys. -/
structure Operation.Distinct (operation : Operation) : Prop where
  parameters : ∀ p ∈ operation.parameters, p.Distinct
  requestBody : ∀ body, operation.requestBody = some body → body.Distinct
  responses : Dict.Distinct Referable.Distinct operation.responses

/-- So have those in all operations of a path. -/
def PathItem.Distinct (item : PathItem) : Prop := ∀ m operation, item.slot m = some operation →
  operation.Distinct

/-- So have the component tables. -/
structure Components.Distinct (c : Components) : Prop where
  schemas : Dict.Distinct Schema.Keyed c.schemas
  responses : Dict.Distinct Response.Distinct c.responses
  parameters : Dict.Distinct Parameter.Distinct c.parameters
  examples : (Dict.keys c.examples).Nodup
  requestBodies : Dict.Distinct RequestBody.Distinct c.requestBodies
  headers : Dict.Distinct Header.Distinct c.headers
  links : (Dict.keys c.links).Nodup
  callbacks : Dict.Distinct (Dict.Distinct PathItem.Distinct) c.callbacks

/-- No table of a document repeats a key. -/
structure Document.Distinct (doc : Document) : Prop where
  paths : Dict.Distinct PathItem.Distinct doc.paths
  components : ∀ c, doc.components = some c → c.Distinct

/-! ### Schemas -/

theorem Schema.propertyTrees_eq (properties : List (String × Schema)) :
    Schema.propertyTrees properties = properties.map fun e => (e.1, e.2.toTree) := by
  induction properties with
  | nil => rfl
  | cons e rest ih =>
      obtain ⟨name, s⟩ := e
      rw [Schema.propertyTrees, ih, List.map_cons]

/-- A schema is written field by field, like any other record. -/
theorem Schema.toTree_eq (s : Schema) : s.toTree = Tree.ofFields [
    Tree.fieldSome "type" .text s.type,
    Tree.fieldSome "description" .text s.description,
    Tree.fieldSome "properties" (Tree.ofDict Schema.toTree) s.properties,
    Tree.fieldSome "required" (fun names => .list (names.map .text)) s.required,
    Tree.fieldSome "items" Schema.toTree s.items] := by
  obtain ⟨type, description, properties, required, items⟩ := s
  cases properties with
  | none => cases items <;> rfl
  | some ps =>
      cases items <;> simp only [Schema.toTree, Schema.propertyTrees_eq] <;> rfl

/-- What a field holds is less deep than the record. -/
theorem depth_lt_of_field {fields : List (Option (String × Tree))} (name : String) {t : Tree}
    (h : some (name, t) ∈ fields) : t.depth < (Tree.ofFields fields).depth := by
  have hmem : (name, t) ∈ fields.filterMap id := List.mem_filterMap.mpr ⟨_, h, rfl⟩
  exact Nat.lt_succ_of_le (Tree.depth_le_depthEntries hmem)

theorem Schema.depth_property_lt {s : Schema} {ps : List (String × Schema)}
    (hps : s.properties = some ps) {e : String × Schema} (he : e ∈ ps) :
    e.2.toTree.depth < s.toTree.depth := by
  have hmem : (e.1, e.2.toTree) ∈ ps.map fun e => (e.1, e.2.toTree) := List.mem_map_of_mem he
  have hentry : e.2.toTree.depth < (Tree.ofDict Schema.toTree ps).depth :=
    Nat.lt_succ_of_le (Tree.depth_le_depthEntries hmem)
  rw [s.toTree_eq]
  exact hentry.trans (depth_lt_of_field "properties" (by simp [hps, Tree.fieldSome]))

theorem Schema.depth_items_lt {s i : Schema} (hi : s.items = some i) :
    i.toTree.depth < s.toTree.depth := by
  rw [s.toTree_eq]
  exact depth_lt_of_field "items" (by simp [hi, Tree.fieldSome])

/-- A schema is read by a reader that may go as deep as its tree does. -/
theorem Schema.reads_within (s : Schema) : ∀ height, s.Keyed → s.toTree.depth ≤ height →
    Reads (Schema.ofNodeWithin? height) s.toTree s := by
  induction s using Schema.induct with
  | step s ihproperties ihitems =>
      intro height hs hdepth
      cases height with
      | zero =>
          rw [s.toTree_eq] at hdepth
          cases hdepth
      | succ height =>
          have hproperty : ∀ ps, s.properties = some ps → ∀ e ∈ ps,
              Reads (Schema.ofNodeWithin? height) e.2.toTree e.2 := fun ps hps e he =>
            ihproperties ps hps e he height (hs.property hps he)
              (Nat.le_of_lt_succ ((depth_property_lt hps he).trans_le hdepth))
          have hitem : ∀ i, s.items = some i →
              Reads (Schema.ofNodeWithin? height) i.toTree i := fun i hi =>
            ihitems i hi height (hs.items hi)
              (Nat.le_of_lt_succ ((depth_items_lt hi).trans_le hdepth))
          rw [s.toTree_eq]
          refine reads_record (by simp) (by decide) fun f h => ?_
          obtain ⟨htype, hdescription, hproperties, hrequired, hitems, -⟩ := h
          simp only [htype.maybe fun _ _ => reads_text _,
            hdescription.maybe fun _ _ => reads_text _,
            hproperties.maybe fun ps hps => reads_dict (hs.nodup hps) (hproperty ps hps),
            hrequired.maybe fun _ _ => reads_list fun _ _ => reads_text _,
            hitems.maybe hitem]
          cases s
          rfl

/-- A schema is read whole: a node is at least as high as the tree it holds is deep. -/
theorem Schema.reads {s : Schema} (hs : s.Keyed) : Reads Schema.ofNode? s.toTree s :=
  fun node hnode => s.reads_within node.height hs (depth_le_height hnode) node hnode

/-! ### Records without tables -/

theorem License.reads (license : License) : Reads License.ofNode? license.toTree license := by
  refine reads_record (by simp) (by decide) fun f h => ?_
  obtain ⟨hname, hurl, -⟩ := h
  simp only [hname.required (reads_text _), hurl.maybe fun _ _ => reads_text _]
  rfl

theorem Info.reads (info : Info) : Reads Info.ofNode? info.toTree info := by
  refine reads_record (by simp) (by decide) fun f h => ?_
  obtain ⟨htitle, hdescription, hlicense, hversion, -⟩ := h
  simp only [htitle.required (reads_text _), hdescription.maybe fun _ _ => reads_text _,
    hlicense.maybe fun _ _ => License.reads _, hversion.required (reads_text _)]
  rfl

theorem Server.reads (server : Server) : Reads Server.ofNode? server.toTree server := by
  refine reads_record (by simp) (by decide) fun f h => ?_
  obtain ⟨hurl, hdescription, -⟩ := h
  simp only [hurl.required (reads_text _), hdescription.maybe fun _ _ => reads_text _]
  rfl

theorem ExternalDocs.reads (docs : ExternalDocs) :
    Reads ExternalDocs.ofNode? docs.toTree docs := by
  refine reads_record (by simp) (by decide) fun f h => ?_
  obtain ⟨hurl, hdescription, -⟩ := h
  simp only [hurl.required (reads_text _), hdescription.maybe fun _ _ => reads_text _]
  rfl

theorem Tag.reads (tag : Tag) : Reads Tag.ofNode? tag.toTree tag := by
  refine reads_record (by simp) (by decide) fun f h => ?_
  obtain ⟨hname, hdescription, hdocs, -⟩ := h
  simp only [hname.required (reads_text _), hdescription.maybe fun _ _ => reads_text _,
    hdocs.maybe fun _ _ => ExternalDocs.reads _]
  rfl

theorem Example.reads (e : Example) : Reads Example.ofNode? e.toTree e := by
  refine reads_record (by simp) (by decide) fun f h => ?_
  obtain ⟨hsummary, hdescription, hvalue, hexternal, -⟩ := h
  simp only [hsummary.maybe fun _ _ => reads_text _, hdescription.maybe fun _ _ => reads_text _,
    hvalue.maybe fun _ _ => reads_text _, hexternal.maybe fun _ _ => reads_text _]
  rfl

theorem Link.reads (link : Link) : Reads Link.ofNode? link.toTree link := by
  refine reads_record (by simp) (by decide) fun f h => ?_
  obtain ⟨href, hid, hdescription, hserver, -⟩ := h
  simp only [href.maybe fun _ _ => reads_text _, hid.maybe fun _ _ => reads_text _,
    hdescription.maybe fun _ _ => reads_text _, hserver.maybe fun _ _ => Server.reads _]
  rfl

/-! ### Headers, content and responses -/

theorem Header.reads {header : Header} (h : header.Distinct) :
    Reads Header.ofNode? header.toTree header := by
  refine reads_record (by simp) (by decide) fun f hf => ?_
  obtain ⟨hdescription, hrequired, hschema, -⟩ := hf
  simp only [hdescription.maybe fun _ _ => reads_text _, hrequired.orElse (reads_flag _),
    hschema.maybe fun s hs => Schema.reads (h.schema s hs)]
  rfl

theorem MediaType.reads {media : MediaType} (h : media.Distinct) :
    Reads MediaType.ofNode? media.toTree media := by
  refine reads_record (by simp) (by decide) fun f hf => ?_
  obtain ⟨hschema, hexamples, -⟩ := hf
  simp only [hschema.maybe fun s hs => Schema.reads (h.schema s hs),
    hexamples.dict h.examples fun e _ => Example.reads e.2]
  rfl

theorem Response.reads {response : Response} (h : response.Distinct) :
    Reads Response.ofNode? response.toTree response := by
  refine reads_record (by simp) (by decide) fun f hf => ?_
  obtain ⟨hdescription, hheaders, hcontent, -⟩ := hf
  simp only [hdescription.required (reads_text _),
    hheaders.dict h.headers.nodup fun e he => Header.reads (h.headers.each e he),
    hcontent.dict h.content.nodup fun e he => MediaType.reads (h.content.each e he)]
  rfl

/-! ### References -/

theorem reads_reference (target : String) :
    Reads referenceTarget? (Tree.ofFields [Tree.field "$ref" (.text target)]) target := by
  intro node hnode
  obtain ⟨nodes, rfl, -⟩ := holds_table_iff.mp hnode
  refine reads_record (by simp) (by decide) (fun f hf => ?_) _ hnode
  exact hf.1.required (reads_text target)

/-- A record without the field of a reference is not taken for one. -/
theorem referenceTarget?_of_record {names : List String} {fields : List (Option (String × Tree))}
    (hnamed : List.Forall₂ Named names fields) (hnames : names.Nodup) (href : "$ref" ∉ names)
    {node : Node} (hnode : node.holds (Tree.ofFields fields) = true) :
    referenceTarget? node = none := by
  have hkeys := keys_present_sublist hnamed
  have hnone : Dict.get? (fields.filterMap id) "$ref" = none :=
    Dict.get?_eq_none_iff.mpr fun hmem => href (hkeys.subset hmem)
  obtain ⟨f, hf, horder, hrel⟩ := fields?_of_holds hnode (hnames.sublist hkeys) ["$ref"]
  have hholds : f.Holds "$ref" none := by
    refine ⟨horder, ?_⟩
    have hfound := hrel "$ref" List.mem_cons_self
    rwa [hnone] at hfound
  obtain ⟨nodes, rfl, -⟩ := holds_table_iff.mp hnode
  show ((Node.table nodes).fields? ["$ref"] >>= fun f => f.required "$ref" Node.text?) = none
  rw [hf]
  show f.required "$ref" Node.text? = none
  rw [Fields.required, hholds.absent]
  rfl

/-- A value is read where it stands for itself, and a reference where it stands for a value. -/
theorem Referable.reads {α : Type} {read : Node → Option α} {write : α → Tree} {r : Referable α}
    (hitem : ∀ x, r = .item x → Reads read (write x) x)
    (hplain : ∀ x node, r = .item x → node.holds (write x) = true →
      referenceTarget? node = none) :
    Reads (Referable.ofNode? read) (r.toTree write) r := by
  intro node hnode
  rw [Referable.ofNode?, settle?_of_holds hnode]
  simp only [Option.bind_eq_bind, Option.bind_some]
  have hsettled := holds_ofTree (r.toTree write)
  cases r with
  | reference target => rw [reads_reference target _ hsettled]
  | item x => rw [hplain x _ rfl hsettled, hitem x rfl _ hsettled]; rfl

theorem Referable.reads_response {r : Referable Response} (h : r.Distinct) :
    Reads (Referable.ofNode? Response.ofNode?) (r.toTree Response.toTree) r := by
  refine Referable.reads (fun x hx => Response.reads (h x hx)) fun x node _ hnode => ?_
  have hnamed : List.Forall₂ Named ["description", "headers", "content"] [
      Tree.field "description" (.text x.description),
      Tree.fieldDict "headers" Header.toTree x.headers,
      Tree.fieldDict "content" MediaType.toTree x.content] := by simp
  exact referenceTarget?_of_record hnamed (by decide) (by decide) hnode

/-! ### Operations, components and documents -/

theorem Parameter.reads {p : Parameter} (h : p.Distinct) :
    Reads Parameter.ofNode? p.toTree p := by
  refine reads_record (by simp) (by decide) fun f hf => ?_
  obtain ⟨hname, hlocation, hdescription, hrequired, hschema, -⟩ := hf
  simp only [hname.required (reads_text _), hlocation.required (reads_text _),
    hdescription.maybe fun _ _ => reads_text _, hrequired.required (reads_flag _),
    hschema.maybe fun s hs => Schema.reads (h.schema s hs)]
  rfl

theorem RequestBody.reads {body : RequestBody} (h : body.Distinct) :
    Reads RequestBody.ofNode? body.toTree body := by
  refine reads_record (by simp) (by decide) fun f hf => ?_
  obtain ⟨hdescription, hcontent, hrequired, -⟩ := hf
  have hmedia := reads_dict h.content.nodup fun e he => MediaType.reads (h.content.each e he)
  simp only [hdescription.maybe fun _ _ => reads_text _, hcontent.required hmedia,
    hrequired.required (reads_flag _)]
  rfl

theorem Operation.reads {operation : Operation} (h : operation.Distinct) :
    Reads Operation.ofNode? operation.toTree operation := by
  refine reads_record (by simp) (by decide) fun f hf => ?_
  obtain ⟨htags, hsummary, hdescription, hparameters, hbody, hresponses, -⟩ := hf
  have hresponse := reads_dict h.responses.nodup fun e he =>
    Referable.reads_response (h.responses.each e he)
  simp only [htags.list fun _ _ => reads_text _, hsummary.maybe fun _ _ => reads_text _,
    hdescription.maybe fun _ _ => reads_text _,
    hparameters.list fun p hp => Parameter.reads (h.parameters p hp),
    hbody.maybe fun body hbody => RequestBody.reads (h.requestBody body hbody),
    hresponses.required hresponse]
  rfl

/-- A path is written method by method, each under its own name. -/
theorem PathItem.toTree_eq (item : PathItem) : item.toTree = Tree.ofFields [
    Tree.fieldSome "get" Operation.toTree item.get,
    Tree.fieldSome "post" Operation.toTree item.post,
    Tree.fieldSome "put" Operation.toTree item.put,
    Tree.fieldSome "delete" Operation.toTree item.delete,
    Tree.fieldSome "patch" Operation.toTree item.patch,
    Tree.fieldSome "options" Operation.toTree item.options,
    Tree.fieldSome "head" Operation.toTree item.head] := rfl

theorem PathItem.reads {item : PathItem} (h : item.Distinct) :
    Reads PathItem.ofNode? item.toTree item := by
  have hread : ∀ m operation, item.slot m = some operation →
      Reads Operation.ofNode? operation.toTree operation := fun m operation hm =>
    Operation.reads (h m operation hm)
  rw [item.toTree_eq]
  refine reads_record (by simp) (by decide) fun f hf => ?_
  obtain ⟨hget, hpost, hput, hdelete, hpatch, hoptions, hhead, -⟩ := hf
  simp only [hget.maybe (hread .get), hpost.maybe (hread .post), hput.maybe (hread .put),
    hdelete.maybe (hread .delete), hpatch.maybe (hread .patch),
    hoptions.maybe (hread .options), hhead.maybe (hread .head)]
  rfl

theorem Components.reads {c : Components} (h : c.Distinct) :
    Reads Components.ofNode? c.toTree c := by
  refine reads_record (by simp) (by decide) fun f hf => ?_
  obtain ⟨hschemas, hresponses, hparameters, hexamples, hbodies, hheaders, hlinks, hcallbacks,
    -⟩ := hf
  have hcallback : ∀ e ∈ c.callbacks,
      Reads (Node.dict? PathItem.ofNode?) (Tree.ofDict PathItem.toTree e.2) e.2 := fun e he =>
    have hpaths := h.callbacks.each e he
    reads_dict hpaths.nodup fun p hp => PathItem.reads (hpaths.each p hp)
  simp only [
    hschemas.dict h.schemas.nodup fun e he => Schema.reads (h.schemas.each e he),
    hresponses.dict h.responses.nodup fun e he => Response.reads (h.responses.each e he),
    hparameters.dict h.parameters.nodup fun e he => Parameter.reads (h.parameters.each e he),
    hexamples.dict h.examples fun e _ => Example.reads e.2,
    hbodies.dict h.requestBodies.nodup fun e he => RequestBody.reads (h.requestBodies.each e he),
    hheaders.dict h.headers.nodup fun e he => Header.reads (h.headers.each e he),
    hlinks.dict h.links fun e _ => Link.reads e.2,
    hcallbacks.dict h.callbacks.nodup hcallback]
  rfl

theorem Document.reads {doc : Document} (h : doc.Distinct) :
    Reads Document.ofNode? doc.toTree doc := by
  refine reads_record (by simp) (by decide) fun f hf => ?_
  obtain ⟨hopenapi, hinfo, hservers, hpaths, hcomponents, htags, hdocs, -⟩ := hf
  have hpath := reads_dict h.paths.nodup fun e he => PathItem.reads (h.paths.each e he)
  simp only [hopenapi.required (reads_text _), hinfo.required (Info.reads _),
    hservers.list fun server _ => Server.reads server, hpaths.required hpath,
    hcomponents.maybe fun c hc => Components.reads (h.components c hc),
    htags.list fun tag _ => Tag.reads tag, hdocs.maybe fun docs _ => ExternalDocs.reads docs]
  rfl

end OpenApi

/-- A format gives back a tree that it has written. -/
def Format.Returns (format : Format) (t : Tree) : Prop :=
  ∃ node, format.read? (format.write t) = some node ∧ node.holds t = true

/-- JSON does, unless the tree is too deep. -/
theorem Format.returns_json {t : Tree} (h : t.depth ≤ 127) : Format.json.Returns t :=
  ⟨Node.ofTree t, Json.read?_write h, Node.holds_ofTree t⟩

/-- To see that a format returns a tree, it is enough to try. -/
theorem Format.returns_of_any {format : Format} {t : Tree}
    (h : (format.read? (format.write t)).any (·.holds t) = true) : format.Returns t := by
  obtain ⟨node, hread, hnode⟩ := (Option.any_eq_true _ _).mp h
  exact ⟨node, hread, hnode⟩

namespace OpenApi

/-- A text holds a document as soon as it is read as a node that holds the document's tree. -/
theorem Document.ofText?_of_holds {doc : Document} (h : doc.Distinct) {format : Format}
    {text : String} {node : Node} (hread : format.read? text = some node)
    (hnode : node.holds doc.toTree = true) : Document.ofText? text format = some doc := by
  rw [Document.ofText?, hread]
  exact Document.reads h node hnode

/-- **What is written is read back**, in every format that gives back the tree of the document. -/
theorem Document.ofText?_toText {doc : Document} (h : doc.Distinct) {format : Format}
    (hformat : format.Returns doc.toTree) :
    Document.ofText? (doc.toText format) format = some doc := by
  obtain ⟨node, hread, hnode⟩ := hformat
  exact Document.ofText?_of_holds h hread hnode

/-- A document that has been written as JSON comes back, unless it is too deep. -/
theorem Document.ofText?_toText_json {doc : Document} (h : doc.Distinct)
    (hdepth : doc.toTree.depth ≤ 127) :
    Document.ofText? (doc.toText .json) .json = some doc :=
  Document.ofText?_of_holds h (Json.read?_write hdepth) (Node.holds_ofTree doc.toTree)

/-! ### A document with something of everything, and one with next to nothing -/

/-- A list of pets that says nothing about their properties. -/
def petListSchema : Schema :=
  { type := some "array", items := some { type := some "object", properties := some [] } }

/-- An operation with an inline response beside a shared one. -/
def getPet : Operation where
  tags := ["pets", "true"]
  summary := some ""
  parameters := [{ name := "id", location := "path", required := true }]
  responses := [
    ("200", .item {
      description := "all pets\nof the user"
      content := [("application/json", {
        schema := some petListSchema, examples := [("example1", { value := some "[]" })] })] }),
    ("404", .reference "#/components/responses/404")]

/-- A document with that operation, and with a callback. -/
def petsDocument : Document where
  openapi := "3.0.1"
  info := { title := "Pets: a list", version := "1.0", license := some { name := "MIT" } }
  servers := [{ url := "/" }]
  paths := [("/pets/\x7bid\x7d", { get := some getPet })]
  components := some {
    responses := [("404", { description := "null", headers := [("X-Trace", {})] })]
    callbacks := [("adopted", [("\x7b$request.body#/url\x7d", { post := some {} })])] }

/-- A document whose component tables are there, and empty. -/
def bareDocument : Document where
  openapi := "3.0.1"
  info := { title := "null", version := "1.0" }
  paths := [("/pets", {})]
  components := some {}

theorem distinct_getPet : getPet.Distinct where
  parameters p hp := by
    rw [List.mem_singleton.mp hp]
    exact ⟨nofun⟩
  requestBody := nofun
  responses := by
    have hschema : petListSchema.Keyed := by
      simp [petListSchema, Schema.Keyed, Schema.KeyedProperties]
    have hmedia : MediaType.Distinct
        { schema := some petListSchema, examples := [("example1", { value := some "[]" })] } :=
      ⟨fun s hs => Option.some.inj hs ▸ hschema, List.nodup_singleton _⟩
    refine ⟨by decide, fun e he response hr => ?_⟩
    rcases List.mem_cons.mp he with rfl | he
    · cases hr
      exact ⟨.nil, .single hmedia⟩
    · rw [List.mem_singleton.mp he] at hr
      cases hr

theorem distinct_petsDocument : petsDocument.Distinct where
  paths := by
    refine .single fun m operation hm => ?_
    cases m <;> cases hm
    exact distinct_getPet
  components c hc := by
    cases hc
    have hheader : Header.Distinct {} := ⟨nofun⟩
    have hoperation : Operation.Distinct {} := ⟨nofun, nofun, .nil⟩
    have hcallback : PathItem.Distinct { post := some {} } := by
      intro m operation hm
      cases m <;> cases hm
      exact hoperation
    exact {
      schemas := .nil
      responses := .single ⟨.single hheader, .nil⟩
      parameters := .nil
      examples := List.nodup_nil
      requestBodies := .nil
      headers := .nil
      links := List.nodup_nil
      callbacks := .single (.single hcallback) }

theorem distinct_bareDocument : bareDocument.Distinct where
  paths := by
    refine .single fun m operation hm => ?_
    cases m <;> cases hm
  components c hc := by
    cases hc
    exact ⟨.nil, .nil, .nil, List.nodup_nil, .nil, .nil,
      List.nodup_nil, .nil⟩

theorem Document.ofText?_toText_pets :
    (petsDocument.Distinct ∧ Format.json.Returns petsDocument.toTree ∧
      Document.ofText? (petsDocument.toText .json) .json = some petsDocument) ∧
    bareDocument.Distinct ∧ Format.yaml.Returns bareDocument.toTree ∧
      Document.ofText? (bareDocument.toText .yaml) .yaml = some bareDocument := by
  have hjson : Format.json.Returns petsDocument.toTree :=
    Format.returns_json (by decide +kernel)
  have hyaml : Format.yaml.Returns bareDocument.toTree :=
    Format.returns_of_any (by decide +kernel)
  exact ⟨⟨distinct_petsDocument, hjson,
      Document.ofText?_toText distinct_petsDocument hjson⟩,
    distinct_bareDocument, hyaml, Document.ofText?_toText distinct_bareDocument hyaml⟩

end OpenApi

end ApiNotes
