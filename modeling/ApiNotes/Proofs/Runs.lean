/-
Runs of a draft.

A draft is made by calls, in any order and any number: they name the API, share a response,
add an endpoint and so on.  A call can fail, and then the draft stays as it was and the run
goes on.  `Reached` says what a run leaves behind: everything that is shared was converted
from a response that some call shared, and every operation from the endpoint of some call.
One call keeps it (`reached_step`), so every run does.
-/
import ApiNotes.Proofs.Faithful

namespace ApiNotes.OpenApi

/-! ### Calls -/

/-- A call on a draft. -/
inductive Call
  | info (title version : String) (description : Option String)
  | license (license : ApiNotes.License)
  | externalDocs (docs : ApiNotes.ExternalDocs)
  | server (server : ApiNotes.Server)
  | group (group : Group)
  | commonResponse (response : ApiNotes.Response)
  | endpoint (e : Endpoint)

namespace Draft

/-- The outcome of a call. -/
def call (d : Draft) : Call → Checked Draft
  | .info title version description => .ok (d.withInfo title version description)
  | .license license => .ok (d.withLicense license)
  | .externalDocs docs => .ok (d.withExternalDocs docs)
  | .server server => .ok (d.addServer server)
  | .group group => .ok (d.addGroup group)
  | .commonResponse response => d.addCommonResponse response
  | .endpoint e => d.addEndpoint e

/-- The draft after a call; one that fails changes nothing. -/
def step (d : Draft) (c : Call) : Draft :=
  match d.call c with
  | .ok d' => d'
  | .error _ => d

/-- The draft after a run of calls on a new one. -/
def run (calls : List Call) : Draft := calls.foldl step {}

theorem run_append_singleton (calls : List Call) (c : Call) :
    run (calls ++ [c]) = (run calls).step c := by
  rw [run, List.foldl_append]
  rfl

end Draft

/-! ### What a run leaves behind -/

/-- The responses of an endpoint stand under distinct statuses. -/
theorem nodup_keys_responsesOf {e : Endpoint} {table : Dict Response}
    (h : responsesOf e = .ok table) : (Dict.keys table).Nodup := by
  have hstep : ∀ (_ : List ApiNotes.Response) t r t', True → (Dict.keys t).Nodup →
      groupStep t r = .ok t' → (Dict.keys t').Nodup := by
    intro _ t r t' _ ht hstep
    obtain ⟨merged, rfl, -⟩ := groupStep_ok hstep
    exact Dict.nodup_keys_insert ht _ _
  rw [responsesOf_eq] at h
  exact foldlM_invariant hstep e.responses [] [] table (fun _ _ => trivial) List.nodup_nil h

theorem nodup_keys_operationWith {e : Endpoint} {table : Dict Response}
    (h : responsesOf e = .ok table) : (Dict.keys (operationWith e table).responses).Nodup := by
  show (Dict.keys (itemsOf table)).Nodup
  rw [keys_itemsOf]
  exact nodup_keys_responsesOf h

/-- What a draft holds after some calls. -/
structure Reached (calls : List Call) (d : Draft) : Prop where
  nodup_shared : (Dict.keys d.components.responses).Nodup
  shared : ∀ k common, Dict.get? d.components.responses k = some common →
    ∃ r, Call.commonResponse r ∈ calls ∧ toString r.status = k ∧ common = exported r
  nodup_paths : (Dict.keys d.paths).Nodup
  slots : ∀ path m operation, d.operation? path m = some operation →
    ∃ e, Call.endpoint e ∈ calls ∧ Route.template e.path = path ∧ e.method = m ∧
      Operation.ofModel e = .ok operation

theorem reached_nil : Reached [] {} where
  nodup_shared := List.nodup_nil
  shared := fun _ _ h => nomatch h
  nodup_paths := List.nodup_nil
  slots := fun _ _ _ h => nomatch h

section Steps

variable {calls : List Call} {d d' : Draft}

/-- A call that leaves paths and components alone. -/
theorem Reached.of_frame (h : Reached calls d) (c : Call) (hpaths : d'.paths = d.paths)
    (hcomponents : d'.components = d.components) : Reached (calls ++ [c]) d' := by
  refine ⟨?_, ?_, ?_, ?_⟩
  · rw [hcomponents]; exact h.nodup_shared
  · intro k common hk
    rw [hcomponents] at hk
    obtain ⟨r, hr, hrest⟩ := h.shared k common hk
    exact ⟨r, List.mem_append_left _ hr, hrest⟩
  · rw [hpaths]; exact h.nodup_paths
  · intro path m operation hslot
    rw [Draft.operation?, hpaths] at hslot
    obtain ⟨e, he, hrest⟩ := h.slots path m operation hslot
    exact ⟨e, List.mem_append_left _ he, hrest⟩

theorem Reached.addCommonResponse (h : Reached calls d) {r : ApiNotes.Response}
    (hcall : d.addCommonResponse r = .ok d') : Reached (calls ++ [.commonResponse r]) d' := by
  rcases addCommonResponse_eq_ok.mp hcall with ⟨-, rfl⟩ | ⟨-, -, -, rfl⟩
  · refine ⟨Dict.nodup_keys_insert h.nodup_shared _ _, ?_, h.nodup_paths, ?_⟩
    · intro k common hk
      rw [Dict.get?_insert] at hk
      split at hk
      · rename_i hstatus
        exact ⟨r, by simp, hstatus, (Option.some.inj hk).symm⟩
      · obtain ⟨r', hr', hrest⟩ := h.shared k common hk
        exact ⟨r', List.mem_append_left _ hr', hrest⟩
    · intro path m operation hslot
      obtain ⟨e, he, hrest⟩ := h.slots path m operation hslot
      exact ⟨e, List.mem_append_left _ he, hrest⟩
  · exact h.of_frame _ rfl rfl

theorem Reached.addEndpoint (h : Reached calls d) {e : Endpoint}
    (hcall : d.addEndpoint e = .ok d') : Reached (calls ++ [.endpoint e]) d' := by
  obtain ⟨-, own, hown, rfl⟩ := addEndpoint_eq_ok.mp hcall
  refine ⟨h.nodup_shared, ?_, Dict.nodup_keys_insert h.nodup_paths _ _, ?_⟩
  · intro k common hk
    obtain ⟨r, hr, hrest⟩ := h.shared k common hk
    exact ⟨r, List.mem_append_left _ hr, hrest⟩
  · intro path m operation hslot
    rw [operation?_insert] at hslot
    split at hslot
    · rename_i htaken
      rw [← Option.some.inj hslot]
      exact ⟨e, by simp, htaken.1, htaken.2, hown⟩
    · obtain ⟨e', he', hrest⟩ := h.slots path m operation hslot
      exact ⟨e', List.mem_append_left _ he', hrest⟩

/-- A call, whether it fails or not, keeps the invariant. -/
theorem Reached.step (h : Reached calls d) (c : Call) : Reached (calls ++ [c]) (d.step c) := by
  unfold Draft.step
  cases hcall : d.call c with
  | error fault => exact h.of_frame c rfl rfl
  | ok d' =>
      cases c with
      | commonResponse r => exact h.addCommonResponse hcall
      | endpoint e => exact h.addEndpoint hcall
      | info | license | externalDocs | server | group =>
          obtain rfl := Except.ok.inj hcall
          exact h.of_frame _ rfl rfl

end Steps

theorem reached_run (calls : List Call) : Reached calls (Draft.run calls) := by
  induction calls using List.reverseRecOn with
  | nil => exact reached_nil
  | append_singleton calls c ih =>
      rw [Draft.run_append_singleton]
      exact ih.step c

/-! ### Finishing a draft -/

/-- The checks of a document fill in its version and its servers, and nothing else. -/
theorem sanitize_fst (document : Document) : ∃ openapi servers,
    document.sanitize.1 = { document with openapi, servers } := by
  obtain ⟨openapi, hversion⟩ : ∃ openapi, document.fillVersion = { document with openapi } := by
    unfold Document.fillVersion
    split
    · exact ⟨_, rfl⟩
    · exact ⟨_, rfl⟩
  have hservers : ∃ servers, ({ document with openapi } : Document).fillServers =
      { document with openapi, servers } := by
    unfold Document.fillServers
    split
    · exact ⟨_, rfl⟩
    · exact ⟨_, rfl⟩
  unfold Document.sanitize
  rw [hversion]
  simp only
  split
  · exact ⟨_, _, rfl⟩
  · obtain ⟨servers, hservers⟩ := hservers
    exact ⟨openapi, servers, hservers⟩

/-- A finished draft keeps its paths and its components. -/
theorem build_eq_ok {d : Draft} {document : Document} (h : d.build = .ok document) :
    document.paths = d.document.paths ∧ document.components = d.document.components := by
  obtain ⟨-, -, hdocument⟩ := map_eq_ok.mp h
  obtain ⟨openapi, servers, hfilled⟩ := sanitize_fst d.document
  rw [← hdocument, hfilled]
  exact ⟨rfl, rfl⟩

theorem sharedResponses_of_build {d : Draft} {document : Document}
    (h : d.build = .ok document) : sharedResponses document = d.components.responses := by
  rw [← sharedResponses_document, sharedResponses, (build_eq_ok h).2]
  rfl

/-- The operation of a method on a path template. -/
def Document.operation? (document : Document) (path : String) (m : Method) : Option Operation :=
  (Dict.get? document.paths path).bind (·.slot m)

/-- The operations of a finished draft are linked to what the draft shares. -/
theorem operation?_of_build {d : Draft} {document : Document} (h : d.build = .ok document)
    (path : String) (m : Method) : document.operation? path m =
      (d.operation? path m).map (Operation.linkAll (sharedResponses document)) := by
  rw [Document.operation?, (build_eq_ok h).1, slot_document, sharedResponses_of_build h]

end ApiNotes.OpenApi
