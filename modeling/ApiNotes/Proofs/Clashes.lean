/-
Endpoints on one path.

Two endpoints of one method are taken for one when their paths have one template, which
means that the paths are alike, segment by segment.  A document whose endpoints would each
pass on their own is refused for two such endpoints and for nothing else: all its other
rules are about one endpoint at a time, or about none.
-/
import ApiNotes.Proofs.FirstFault
import ApiNotes.Proofs.Templates

namespace ApiNotes

/-- Two endpoints answer one method on paths that are alike. -/
def Endpoint.Clashes (a b : Endpoint) : Prop :=
  a.method = b.method ∧ Route.PathsAlike a.path b.path

/-- A document with endpoints, each of which would pass if it were the only one. -/
structure ApiDoc.FineApart (doc : ApiDoc) : Prop where
  nonempty : doc.endpoints ≠ []
  passes : ∀ e ∈ doc.endpoints, { doc with endpoints := [e] }.sanitize.2 = .ok ()

theorem Endpoint.sameSlot_iff_clashes {a b : Endpoint} : a.sameSlot b = true ↔ a.Clashes b := by
  simp [sameSlot, Clashes, Route.template_eq_iff]

namespace ApiDoc

/-- Such a document breaks no rule that is not about two of its endpoints. -/
theorem FineApart.wellFormed_iff {doc : ApiDoc} (h : doc.FineApart) :
    doc.WellFormed ↔ doc.endpoints.Pairwise fun a b => ¬a.Clashes b := by
  have hslots : (fun a b : Endpoint =>
      ¬(a.method = b.method ∧ Route.template a.path = Route.template b.path)) =
        fun a b => ¬a.Clashes b := by
    simp only [Endpoint.Clashes, Route.template_eq_iff]
  constructor
  · intro hdoc
    rw [← hslots]
    exact hdoc.slots
  · intro hapart
    obtain ⟨first, hfirst⟩ := List.exists_mem_of_ne_nil _ h.nonempty
    have hrest := sanitize_eq_ok.mp (h.passes first hfirst)
    exact {
      title := hrest.title
      version := hrest.version
      servers := hrest.servers
      license := hrest.license
      externalDocs := hrest.externalDocs
      groups := hrest.groups
      responses := hrest.responses
      agree := hrest.agree
      nonempty := h.nonempty
      endpoints := fun e he =>
        (sanitize_eq_ok.mp (h.passes e he)).endpoints e (List.mem_singleton_self e)
      slots := hslots ▸ hapart }

/-- Its checks come down to those of the endpoints. -/
theorem FineApart.sanitize_snd {doc : ApiDoc} (h : doc.FineApart) :
    doc.sanitize.2 = checkEndpoints [] doc.endpoints := by
  obtain ⟨first, hfirst⟩ := List.exists_mem_of_ne_nil _ h.nonempty
  have hrest := h.passes first hfirst
  have hversion : ({ doc with endpoints := [first] } : ApiDoc).fillVersion.version =
      doc.fillVersion.version := by
    unfold fillVersion
    split <;> rfl
  have hservers : ({ doc with endpoints := [first] } : ApiDoc).fillServers.servers =
      doc.fillServers.servers := by
    unfold fillServers
    split <;> rfl
  rw [ApiDoc.sanitize_snd, fillServers_fillVersion] at hrest ⊢
  simp only [checkParts, check_bind_eq_ok, hversion, hservers] at hrest
  obtain ⟨htitle, hversion, hservers, hlicense, hdocs, hgroups, hresponses, hagree, -, -⟩ := hrest
  simp only [checkParts, htitle, hversion, hservers, hlicense, hdocs, hgroups, hresponses, hagree]
  have hnonempty : (!doc.endpoints.isEmpty) = true := by simpa using h.nonempty
  rw [hnonempty]
  rfl

/-- The first endpoint that clashes with one before it is what the checks of endpoints report. -/
theorem checkEndpoints_clash {e : Endpoint} {after : List Endpoint} (he : e.check = .ok ()) :
    ∀ (front before : List Endpoint), (∀ x ∈ front, x.check = .ok ()) →
      ((before ++ front).Pairwise fun a b => ¬a.Clashes b) →
      (∃ a ∈ before ++ front, a.Clashes e) →
      checkEndpoints before (front ++ e :: after) =
        .error (e.blame (before ++ front).length (Fault.of .duplicate "path"))
  | [], before, _, _, hclash => by
      obtain ⟨a, ha, hae⟩ := hclash
      rw [List.append_nil] at ha
      have hany : before.any (·.sameSlot e) = true :=
        List.any_eq_true.mpr ⟨a, ha, Endpoint.sameSlot_iff_clashes.mpr hae⟩
      rw [List.nil_append, List.append_nil, checkEndpoints, he, hany]
      rfl
  | x :: front, before, hfront, hapart, hclash => by
      rw [List.forall_mem_cons] at hfront
      have hany : before.any (·.sameSlot x) = false := by
        rw [List.any_eq_false]
        intro b hb hbx
        exact (List.pairwise_append.mp hapart).2.2 b hb x List.mem_cons_self
          (Endpoint.sameSlot_iff_clashes.mp hbx)
      have happend : before ++ x :: front = (before ++ [x]) ++ front := by simp
      rw [happend] at hapart hclash ⊢
      rw [← checkEndpoints_clash he front (before ++ [x]) hfront.2 hapart hclash,
        List.cons_append, checkEndpoints, hfront.1, hany]
      rfl

end ApiDoc

/-- **A template stands for the paths that are alike segment by segment, and for no others.**  It
is its own template, starts with a slash when its path does, and has as many segments.  So of
endpoints that would each pass, two that answer one method on paths that are alike are refused, and
nothing else is: the fault is a duplicate, at the first endpoint that clashes with one before it. -/
theorem Route.template_identifies (p q : String) :
    (template p = template q ↔ PathsAlike p q) ∧
    template (template p) = template p ∧
    ((template p).toList.head? = some '/' ↔ p.toList.head? = some '/') ∧
    (segments (template p)).length = (segments p).length ∧
    ∀ doc : ApiDoc, doc.FineApart →
      (doc.sanitize.2 = .ok () ↔ doc.endpoints.Pairwise fun a b => ¬a.Clashes b) ∧
      ∀ front e after, doc.endpoints = front ++ e :: after →
        (front.Pairwise fun a b => ¬a.Clashes b) → (∃ a ∈ front, a.Clashes e) →
        doc.sanitize.2 = .error (e.blame front.length (Fault.of .duplicate "path")) := by
  refine ⟨template_eq_iff p q, template_template p, head?_template_iff, ?_, fun doc hdoc => ?_⟩
  · rw [segments_template, List.length_map]
  · refine ⟨ApiDoc.sanitize_eq_ok.trans hdoc.wellFormed_iff, ?_⟩
    intro front e after hendpoints hapart hclash
    have hcheck : ∀ x ∈ doc.endpoints, x.check = .ok () := fun x hx =>
      Endpoint.check_iff.mpr <|
        (ApiDoc.sanitize_eq_ok.mp (hdoc.passes x hx)).endpoints x (List.mem_singleton_self x)
    rw [hendpoints, List.forall_mem_append, List.forall_mem_cons] at hcheck
    rw [hdoc.sanitize_snd, hendpoints]
    exact ApiDoc.checkEndpoints_clash hcheck.2.1 front [] hcheck.1 hapart hclash

/-- One endpoint under two paths: the parameter is written in braces the second time. -/
def userTwice : ApiDoc where
  title := "Users"
  endpoints := [{ method := .get, path := "/users/:id" },
    { method := .get, path := "/users/{id}", position := ⟨7, 1⟩ }]

theorem sanitize_userTwice :
    Route.template "/users/:id" = Route.template "/users/{id}" ∧ userTwice.FineApart ∧
      userTwice.sanitize.2 = .error
        { kind := .duplicate
          path := [.field "apis", .index 1, .field "path"]
          position := ⟨7, 1⟩ } := by
  have halike : Route.PathsAlike "/users/:id" "/users/{id}" := by
    have hsegments : Route.segments "/users/:id" = ["".toList, "users".toList, ":id".toList] ∧
        Route.segments "/users/{id}" = ["".toList, "users".toList, "{id}".toList] := by
      decide +kernel
    rw [Route.PathsAlike, hsegments.1, hsegments.2]
    exact .cons (.same _) (.cons (.same _) (.cons (.colon "id".toList) .nil))
  have happart : userTwice.FineApart := by
    refine ⟨List.cons_ne_nil _ _, ?_⟩
    rw [userTwice, List.forall_mem_cons, List.forall_mem_singleton]
    exact ⟨by decide +kernel, by decide +kernel⟩
  obtain ⟨htemplate, -, -, -, hdoc⟩ := Route.template_identifies "/users/:id" "/users/{id}"
  refine ⟨htemplate.mpr halike, happart, ?_⟩
  exact (hdoc userTwice happart).2 [_] _ [] rfl (List.pairwise_singleton _ _)
    ⟨_, List.mem_singleton_self _, rfl, halike⟩

end ApiNotes
