/-
When an endpoint has no operation.

An endpoint has no operation exactly when two of its responses of one status clash: both
declare a header of one name, or a schema under one mimetype, and not the same one.  For
responses that name each header once this is what `operation_isOk_iff` says.  A response that
names one several times is exported with the last of them, in the place of the first; so it
can be tidied up to one that names each header once, and is exported as the same.
-/
import ApiNotes.Proofs.Drafts

namespace ApiNotes

/-! ### Naming each header once -/

/-- The headers by their names, the last of each. -/
def Response.namedHeaders (r : Response) : Dict Header :=
  Dict.ofEntries (r.body.headers.map fun h => (h.name, h))

/-- The response, with each header named once. -/
def Response.tidied (r : Response) : Response :=
  { r with body := { r.body with headers := r.namedHeaders.map Prod.snd } }

theorem Response.name_of_mem_namedHeaders {r : Response} {e : String × Header}
    (h : e ∈ r.namedHeaders) : e.2.name = e.1 := by
  obtain ⟨x, -, rfl⟩ := List.mem_map.mp ((Dict.ofEntries_spec _).2 e h)
  rfl

theorem Response.regular_tidied {r : Response} (h : r.body.Keyed) : r.tidied.Regular where
  headers := by
    have hnames : r.tidied.body.headers.map (·.name) = Dict.keys r.namedHeaders := by
      show (r.namedHeaders.map Prod.snd).map (·.name) = r.namedHeaders.map Prod.fst
      rw [List.map_map]
      exact List.map_congr_left fun e he => Response.name_of_mem_namedHeaders he
    rw [hnames]
    exact (Dict.ofEntries_spec _).1
  keyed := h

namespace OpenApi

/-- A tidied response is exported as the response itself. -/
theorem Response.ofModel_tidied (r : ApiNotes.Response) : ofModel r.tidied = ofModel r := by
  have hentries : r.tidied.body.headers.map (fun h => (h.name, Header.ofModel h)) =
      r.namedHeaders.mapValues Header.ofModel := by
    show (r.namedHeaders.map Prod.snd).map (fun h => (h.name, Header.ofModel h)) =
      r.namedHeaders.map fun e => (e.1, Header.ofModel e.2)
    rw [List.map_map]
    refine List.map_congr_left fun e he => ?_
    show (e.2.name, Header.ofModel e.2) = (e.1, Header.ofModel e.2)
    rw [Response.name_of_mem_namedHeaders he]
  have hheaders : (ofModel r.tidied).headers = (ofModel r).headers := by
    show Dict.ofEntries (r.tidied.body.headers.map fun h => (h.name, Header.ofModel h)) =
      Dict.ofEntries (r.body.headers.map fun h => (h.name, Header.ofModel h))
    have hnodup : (Dict.keys (r.namedHeaders.mapValues Header.ofModel)).Nodup := by
      rw [Dict.keys_mapValues]
      exact (Dict.ofEntries_spec _).1
    rw [hentries, Dict.ofEntries_of_nodup hnodup, Response.namedHeaders, ← Dict.ofEntries_map,
      List.map_map]
    rfl
  show ({ ofModel r with headers := (ofModel r.tidied).headers } : Response) = ofModel r
  rw [hheaders]

/-- So an endpoint has the same operation with its responses tidied. -/
theorem responsesOf_tidied (e : Endpoint) :
    responsesOf { e with responses := e.responses.map (·.tidied) } = responsesOf e := by
  rw [responsesOf_eq, responsesOf_eq, List.foldlM_map]
  have hstep : (fun table (r : ApiNotes.Response) => groupStep table r.tidied) = groupStep := by
    funext table r
    unfold groupStep
    rw [Response.ofModel_tidied]
    rfl
  rw [hstep]

/-! ### Clashes -/

/-- Two responses clash: a header, or a schema, that both declare and not the same. -/
inductive Response.Clash (own theirs : Response) : Prop
  | header (name : String) (h h' : Header) (hown : Dict.get? own.headers name = some h)
      (htheirs : Dict.get? theirs.headers name = some h') (hne : (h == h') = false)
  | schema (mimetype : String) (m m' : MediaType)
      (hown : Dict.get? own.content mimetype = some m)
      (htheirs : Dict.get? theirs.content mimetype = some m')
      (hclash : m.schemasClash m' = true)

section Pairs

variable {r r' : ApiNotes.Response}

theorem get?_headers_iff (hr : r.Regular) {name : String} {h : Header} :
    Dict.get? (Response.ofModel r).headers name = some h ↔
      ∃ x ∈ r.body.headers, x.name = name ∧ Header.ofModel x = h := by
  constructor
  · intro hget
    obtain ⟨x, hx, he⟩ := (Response.mem_ofModel_headers hr).mp (Dict.mem_of_get? hget)
    obtain ⟨rfl, rfl⟩ := Prod.mk.inj he
    exact ⟨x, hx, rfl, rfl⟩
  · rintro ⟨x, hx, rfl, rfl⟩
    exact Response.get?_ofModel_headers hr hx

theorem get?_content_iff {mimetype : String} {m : MediaType} :
    Dict.get? (Response.ofModel r).content mimetype = some m ↔
      mimetype ∈ contentNames r.mimetype r.body ∧
        m = ⟨bodySchema r.body, numbered (examplesUnder mimetype r.body.examples)⟩ := by
  show Dict.get? (contentOf r.mimetype r.body) mimetype = some m ↔ _
  rw [get?_contentOf]
  by_cases hname : mimetype ∈ contentNames r.mimetype r.body
  · simp [hname, eq_comm]
  · simp [hname]

/-- Responses that can stand under one status are those that do not clash. -/
theorem compatible_iff_not_clash (hr : r.Regular) (hr' : r'.Regular) :
    Response.Compatible r r' ↔ ¬Response.Clash (Response.ofModel r) (Response.ofModel r') := by
  constructor
  · rintro ⟨hheaders, hschemas⟩ (⟨name, h, h', hown, htheirs, hne⟩ |
      ⟨name, m, m', hown, htheirs, hclash⟩)
    · obtain ⟨x, hx, hname, rfl⟩ := (get?_headers_iff hr).mp hown
      obtain ⟨y, hy, hname', rfl⟩ := (get?_headers_iff hr').mp htheirs
      have hbeq := (header_ofModel_beq x y).mpr (hheaders x hx y hy (hname.trans hname'.symm))
      rw [hbeq] at hne
      cases hne
    · obtain ⟨hmem, rfl⟩ := get?_content_iff.mp hown
      obtain ⟨hmem', rfl⟩ := get?_content_iff.mp htheirs
      rw [Response.schemasClash_eq_false.mpr (hschemas name hmem hmem')] at hclash
      cases hclash
  · intro hclear
    refine ⟨fun x hx y hy hname => ?_, fun name hmem hmem' => ?_⟩
    · rw [← header_ofModel_beq]
      by_contra hne
      exact hclear (.header x.name _ _ ((get?_headers_iff hr).mpr ⟨x, hx, rfl, rfl⟩)
        ((get?_headers_iff hr').mpr ⟨y, hy, hname.symm, rfl⟩) (Bool.eq_false_iff.mpr hne))
    · by_contra hne
      refine hclear (.schema name _ _ (get?_content_iff.mpr ⟨hmem, rfl⟩)
        (get?_content_iff.mpr ⟨hmem', rfl⟩) ?_)
      rw [← Bool.not_eq_false, Response.schemasClash_eq_false]
      exact hne

end Pairs

/-- Two responses of one status in a list clash. -/
def Conflicted (responses : List ApiNotes.Response) : Prop :=
  ∃ r r', [r, r'].Sublist responses ∧ r.status = r'.status ∧
    Response.Clash (Response.ofModel r) (Response.ofModel r')

/-- **When an endpoint has no operation**: two of its responses of one status clash. -/
theorem operation_fails_iff {e : Endpoint} (he : ∀ r ∈ e.responses, r.body.Keyed) :
    (∃ fault, Operation.ofModel e = .error fault) ↔ Conflicted e.responses := by
  have hregular : ∀ r ∈ e.responses, r.tidied.Regular :=
    fun r hr => Response.regular_tidied (he r hr)
  have hok : (∃ operation, Operation.ofModel e = .ok operation) ↔
      e.responses.Pairwise fun r r' => r.status = r'.status →
        ¬Response.Clash (Response.ofModel r) (Response.ofModel r') := by
    have htidied : (∃ operation, Operation.ofModel e = .ok operation) ↔
        ∃ table, responsesOf { e with responses := e.responses.map (·.tidied) } = .ok table := by
      simp only [operation_ofModel_eq_ok, responsesOf_tidied]
      exact ⟨fun ⟨_, table, h, _⟩ => ⟨table, h⟩, fun ⟨table, h⟩ => ⟨_, table, h, rfl⟩⟩
    have hall : ∀ r ∈ e.responses.map (·.tidied), r.Regular := by
      rwa [List.forall_mem_map]
    rw [htidied, responsesOf_isOk_iff hall, List.pairwise_map]
    refine List.Pairwise.iff_of_mem fun {r r'} hr hr' => ?_
    show (r.status = r'.status → Response.Compatible r.tidied r'.tidied) ↔ _
    rw [compatible_iff_not_clash (hregular r hr) (hregular r' hr'), Response.ofModel_tidied,
      Response.ofModel_tidied]
  have hfails : (∃ fault, Operation.ofModel e = .error fault) ↔
      ¬∃ operation, Operation.ofModel e = .ok operation := by
    cases Operation.ofModel e <;> simp
  rw [hfails, hok, List.pairwise_iff_forall_sublist]
  constructor
  · intro hnot
    by_contra hclear
    exact hnot fun {r r'} hsub hstatus hclash => hclear ⟨r, r', hsub, hstatus, hclash⟩
  · rintro ⟨r, r', hsub, hstatus, hclash⟩ hall
    exact hall hsub hstatus hclash

end OpenApi

end ApiNotes
