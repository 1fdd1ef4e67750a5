/-
Runs of a draft lose no operation, and a call that fails changes nothing.

The calls of a draft are pure functions, so one that fails has no draft to give back.  To say
that it changes nothing they are written here once more as they would run in place, write by
write, where a fault leaves behind what was written before it; `run_inPlace` is the proof that
nothing was.  What a run makes of its calls is then said by the list of the endpoints that went
in: each of them has its operation in its slot, there are no other operations, and the paths
stand in the order in which these endpoints first named them.
-/
import ApiNotes.Proofs.Refusals
import ApiNotes.Proofs.Sharing

namespace ApiNotes.OpenApi

/-! ### Calls in place -/

/-- A call that writes to the draft as it goes: what it has written before a fault stays. -/
abbrev InPlace := ExceptT Fault (StateM Draft)

namespace InPlace

/-- The outcome of steps in place, and the draft that they leave. -/
def outcome {α : Type} (x : InPlace α) (d : Draft) : Checked α × Draft := Id.run (x.run.run d)

section Outcomes

variable {α β : Type} (d : Draft)

@[simp] theorem outcome_pure (a : α) : outcome (pure a) d = (.ok a, d) := rfl

@[simp] theorem outcome_get : outcome get d = (.ok d, d) := rfl

@[simp] theorem outcome_modify (f : Draft → Draft) : outcome (modify f) d = (.ok (), f d) := rfl

@[simp] theorem outcome_throw (fault : Fault) :
    outcome (throw fault : InPlace α) d = (.error fault, d) := rfl

@[simp] theorem outcome_liftM (x : Checked α) : outcome (liftM x) d = (x, d) := rfl

/-- Steps in a row stop at a fault, and keep what was written before it. -/
@[simp] theorem outcome_bind (x : InPlace α) (f : α → InPlace β) :
    outcome (x >>= f) d =
      match outcome x d with
      | (.ok a, d') => outcome (f a) d'
      | (.error fault, d') => (.error fault, d') := by
  show Id.run ((x.run >>= ExceptT.bindCont f).run d) = _
  rw [StateT.run_bind]
  show Id.run ((ExceptT.bindCont f (outcome x d).1).run (outcome x d).2) = _
  obtain ⟨_ | a, d'⟩ := outcome x d <;> rfl

end Outcomes

/-- The entry of a path, made empty when there was none. -/
def openPath (path : String) : InPlace PathItem := do
  let item := (Dict.get? (← get).paths path).getD {}
  modify fun d => { d with paths := Dict.insert d.paths path item }
  return item

/-- Adds an endpoint. -/
def addEndpoint (e : Endpoint) : InPlace Unit := do
  let path := Route.template e.path
  let blame := fun (fault : Fault) => (fault.within e.method.field).withinKey "paths" path
  if ((← get).operation? path e.method).isSome then
    throw (blame (Fault.of .duplicate ""))
  let operation ← liftM ((Operation.ofModel e).mapError blame)
  let item ← openPath path
  modify fun d =>
    { d with paths := Dict.insert d.paths path (item.withSlot e.method (some operation)) }

/-- Shares a response. -/
def addCommonResponse (response : ApiNotes.Response) : InPlace Unit := do
  let status := toString response.status
  let converted := (Response.ofModel response).fillDescription status
  match Dict.get? (← get).components.responses status with
  | some own =>
    if own == converted then return
    throw (((Fault.of .duplicate "").withinKey "responses" status).within "components")
  | none =>
    modify fun d =>
      { d with
        components := { d.components with
          responses := Dict.insert d.components.responses status converted } }

/-- A call, in place. -/
def call : Call → InPlace Unit
  | .info title version description => modify (·.withInfo title version description)
  | .license license => modify (·.withLicense license)
  | .externalDocs docs => modify (·.withExternalDocs docs)
  | .server server => modify (·.addServer server)
  | .group group => modify (·.addGroup group)
  | .commonResponse response => addCommonResponse response
  | .endpoint e => addEndpoint e

end InPlace

theorem outcome_addCommonResponse (response : ApiNotes.Response) (d : Draft) :
    (InPlace.addCommonResponse response).outcome d =
      match d.addCommonResponse response with
      | .ok d' => (.ok (), d')
      | .error fault => (.error fault, d) := by
  unfold InPlace.addCommonResponse Draft.addCommonResponse
  simp only [InPlace.outcome_bind, InPlace.outcome_get]
  cases Dict.get? d.components.responses (toString response.status) with
  | none => rfl
  | some own =>
      by_cases hsame :
          (own == (Response.ofModel response).fillDescription (toString response.status)) = true
      · dsimp only
        rw [if_pos hsame, if_pos hsame]
        rfl
      · dsimp only
        rw [if_neg hsame, if_neg hsame]
        rfl

theorem outcome_addEndpoint (e : Endpoint) (d : Draft) :
    (InPlace.addEndpoint e).outcome d =
      match d.addEndpoint e with
      | .ok d' => (.ok (), d')
      | .error fault => (.error fault, d) := by
  unfold InPlace.addEndpoint InPlace.openPath Draft.addEndpoint
  simp only [InPlace.outcome_bind, InPlace.outcome_get]
  by_cases htaken : (d.operation? (Route.template e.path) e.method).isSome = true
  · simp [htaken]
  · simp only [htaken]
    cases Operation.ofModel e with
    | error fault => simp [Except.mapError]
    | ok operation => simp [Except.mapError, Dict.insert_insert]

/-- **A call that runs in place has the same outcome and leaves the same draft**: whatever can
fail comes before the first write. -/
theorem outcome_call (c : Call) (d : Draft) :
    (InPlace.call c).outcome d = ((d.call c).map fun _ => (), d.step c) := by
  cases c with
  | info | license | externalDocs | server | group => rfl
  | commonResponse response =>
      show (InPlace.addCommonResponse response).outcome d = _
      rw [outcome_addCommonResponse, Draft.step, Draft.call]
      cases d.addCommonResponse response <;> rfl
  | endpoint e =>
      show (InPlace.addEndpoint e).outcome d = _
      rw [outcome_addEndpoint, Draft.step, Draft.call]
      cases d.addEndpoint e <;> rfl

/-! ### The endpoints that went in -/

/-- The endpoint of a call, when it goes in. -/
def Draft.takes (d : Draft) : Call → List Endpoint
  | .endpoint e =>
    match d.addEndpoint e with
    | .ok _ => [e]
    | .error _ => []
  | _ => []

/-- The endpoints that go in when calls are made on a draft, in order. -/
def acceptedFrom (d : Draft) : List Call → List Endpoint
  | [] => []
  | c :: rest => d.takes c ++ acceptedFrom (d.step c) rest

/-- The endpoints that go in during a run, in order. -/
def accepted (calls : List Call) : List Endpoint := acceptedFrom {} calls

theorem acceptedFrom_append (calls more : List Call) :
    ∀ d, acceptedFrom d (calls ++ more) =
      acceptedFrom d calls ++ acceptedFrom (calls.foldl Draft.step d) more := by
  induction calls with
  | nil => intro d; rfl
  | cons c rest ih =>
      intro d
      rw [List.cons_append, acceptedFrom, ih, acceptedFrom, List.foldl_cons, List.append_assoc]

theorem accepted_append_singleton (calls : List Call) (c : Call) :
    accepted (calls ++ [c]) = accepted calls ++ (Draft.run calls).takes c := by
  rw [accepted, acceptedFrom_append]
  show accepted calls ++ ((Draft.run calls).takes c ++ []) = _
  rw [List.append_nil]

/-- A path that comes again is not listed again. -/
theorem eraseDups_append_singleton (paths : List String) (path : String) :
    (paths ++ [path]).eraseDups =
      if path ∈ paths then paths.eraseDups else paths.eraseDups ++ [path] := by
  rw [List.eraseDups_append]
  by_cases h : path ∈ paths
  · simp [h, List.removeAll]
  · simp [h, List.removeAll, List.eraseDups_cons]

/-- What a draft holds of the endpoints that went in. -/
structure Slotted (went : List Endpoint) (d : Draft) : Prop where
  added : Added { d with paths := [] } went d
  apart : went.Pairwise fun a b => a.sameSlot b = false
  keys : Dict.keys d.paths = (went.map fun e => Route.template e.path).eraseDups

section Steps

variable {went : List Endpoint} {d d' : Draft}

/-- A slot holds an operation when an endpoint of the slot went in that has it. -/
theorem Slotted.slots (h : Slotted went d) (path : String) (m : Method) (operation : Operation) :
    d.operation? path m = some operation ↔
      ∃ e ∈ went, Route.template e.path = path ∧ e.method = m ∧
        Operation.ofModel e = .ok operation := by
  constructor
  · exact h.added.slots path m operation
  · rintro ⟨e, he, rfl, rfl, hoperation⟩
    obtain ⟨own, hown, hslot⟩ := h.added.holds e he
    rw [hoperation] at hown
    rw [hslot, Except.ok.inj hown]

/-- A call that leaves the paths alone. -/
theorem Slotted.of_paths (h : Slotted went d) (hpaths : d'.paths = d.paths) : Slotted went d' where
  added :=
    { frame := rfl
      nodup := by rw [hpaths]; exact h.added.nodup
      holds := by
        intro e he
        rw [Draft.operation?, hpaths]
        exact h.added.holds e he
      slots := by
        intro path m operation hoperation
        rw [Draft.operation?, hpaths] at hoperation
        exact h.added.slots path m operation hoperation
      paths := by rw [hpaths]; exact h.added.paths
      count := by rw [hpaths]; exact h.added.count }
  apart := h.apart
  keys := by rw [hpaths]; exact h.keys

/-- An endpoint that goes in. -/
theorem Slotted.addEndpoint (h : Slotted went d) {e : Endpoint} (hok : d.addEndpoint e = .ok d') :
    Slotted (went ++ [e]) d' := by
  have hadded := added_step h.added hok
  have hfree := ((addEndpoint_isOk_iff h.added).mp ⟨d', hok⟩).2
  obtain ⟨-, operation, -, rfl⟩ := addEndpoint_eq_ok.mp hok
  refine ⟨hadded, ?_, ?_⟩
  · rw [List.pairwise_append]
    refine ⟨h.apart, List.pairwise_singleton .., fun x hx y hy => ?_⟩
    rw [List.mem_singleton.mp hy]
    exact hfree x hx
  · rw [List.map_append, List.map_singleton, eraseDups_append_singleton, ← h.keys, Dict.keys_insert]
    have hmem : Route.template e.path ∈ Dict.keys d.paths ↔
        Route.template e.path ∈ went.map fun e => Route.template e.path := by
      rw [h.keys, List.mem_eraseDups]
    by_cases hpath : Route.template e.path ∈ Dict.keys d.paths
    · rw [if_pos hpath, if_pos (hmem.mp hpath)]
    · rw [if_neg hpath, if_neg fun hin => hpath (hmem.mpr hin)]

theorem Slotted.step (h : Slotted went d) (c : Call) : Slotted (went ++ d.takes c) (d.step c) := by
  cases c with
  | info | license | externalDocs | server | group =>
      show Slotted (went ++ []) _
      rw [List.append_nil]
      exact h.of_paths rfl
  | commonResponse r =>
      show Slotted (went ++ []) _
      rw [List.append_nil, Draft.step, Draft.call]
      cases hcall : d.addCommonResponse r with
      | error fault => exact h
      | ok d' =>
          refine h.of_paths ?_
          rcases addCommonResponse_eq_ok.mp hcall with ⟨-, rfl⟩ | ⟨-, -, -, rfl⟩
          · rfl
          · rfl
  | endpoint e =>
      rw [Draft.takes, Draft.step, Draft.call]
      cases hcall : d.addEndpoint e with
      | error fault =>
          show Slotted (went ++ []) d
          rw [List.append_nil]
          exact h
      | ok d' => exact h.addEndpoint hcall

end Steps

theorem slotted_run (calls : List Call) : Slotted (accepted calls) (Draft.run calls) := by
  induction calls using List.reverseRecOn with
  | nil => exact ⟨added_start rfl, List.Pairwise.nil, rfl⟩
  | append_singleton calls c ih =>
      rw [accepted_append_singleton, Draft.run_append_singleton]
      exact ih.step c

/-! ### Endpoints that are refused -/

/-- A slot that is taken is reported before anything else. -/
theorem addEndpoint_taken {d : Draft} {e : Endpoint}
    (h : (d.operation? (Route.template e.path) e.method).isSome = true) :
    d.addEndpoint e = .error
      { kind := .duplicate
        path := [.field "paths", .key (Route.template e.path), .field e.method.field] } := by
  unfold Draft.addEndpoint
  dsimp only
  rw [if_pos h]
  rfl

/-- An endpoint is refused when its slot is taken, or two of its responses clash. -/
theorem addEndpoint_fails_iff {d : Draft} {e : Endpoint}
    (he : ∀ r ∈ e.responses, r.body.Keyed) :
    (∃ fault, d.addEndpoint e = .error fault) ↔
      (d.operation? (Route.template e.path) e.method).isSome = true ∨ Conflicted e.responses := by
  rw [← operation_fails_iff he]
  by_cases htaken : (d.operation? (Route.template e.path) e.method).isSome = true
  · exact iff_of_true ⟨_, addEndpoint_taken htaken⟩ (.inl htaken)
  · unfold Draft.addEndpoint
    dsimp only
    rw [if_neg htaken]
    cases Operation.ofModel e with
    | error fault => simp
    | ok operation => simp [htaken]

/-! ### Runs -/

/-- What holds at every point of a run. -/
structure Conserved (calls : List Call) : Prop where
  /-- A call that fails changes nothing, in place or not. -/
  unchanged : ∀ c fault, (Draft.run calls).call c = .error fault →
    Draft.run (calls ++ [c]) = Draft.run calls ∧
      (InPlace.call c).outcome (Draft.run calls) = (.error fault, Draft.run calls)
  /-- The slots hold the operations of the endpoints that went in, and no others. -/
  slots : ∀ path m operation, (Draft.run calls).operation? path m = some operation ↔
    ∃ e ∈ accepted calls, Route.template e.path = path ∧ e.method = m ∧
      Operation.ofModel e = .ok operation
  /-- No two endpoints that went in have one slot. -/
  apart : (accepted calls).Pairwise fun a b => a.sameSlot b = false
  /-- The paths stand in the order in which these endpoints first named them. -/
  keys : Dict.keys (Draft.run calls).paths =
    ((accepted calls).map fun e => Route.template e.path).eraseDups
  /-- No later call takes an operation away or writes over it. -/
  kept : ∀ more path m operation, (Draft.run calls).operation? path m = some operation →
    (Draft.run (calls ++ more)).operation? path m = some operation
  /-- An endpoint whose slot is taken is refused for that, whatever else is wrong with it. -/
  taken : ∀ e, ((Draft.run calls).operation? (Route.template e.path) e.method).isSome = true →
    (Draft.run calls).addEndpoint e = .error
      { kind := .duplicate
        path := [.field "paths", .key (Route.template e.path), .field e.method.field] }
  /-- It is refused for that, or for two of its responses, and for nothing else. -/
  refused : ∀ e, (∀ r ∈ e.responses, r.body.Keyed) →
    ((∃ fault, (Draft.run calls).addEndpoint e = .error fault) ↔
      ((Draft.run calls).operation? (Route.template e.path) e.method).isSome = true ∨
        Conflicted e.responses)

/-- **Runs lose no operation and write none over, and a call that fails changes nothing.** -/
theorem run_conserves (calls : List Call) : Conserved calls where
  unchanged := by
    intro c fault hfault
    have hstep : (Draft.run calls).step c = Draft.run calls := by
      rw [Draft.step, hfault]
    rw [Draft.run_append_singleton, outcome_call, hstep, hfault]
    exact ⟨rfl, rfl⟩
  slots := (slotted_run calls).slots
  apart := (slotted_run calls).apart
  keys := (slotted_run calls).keys
  kept := by
    intro more path m operation hoperation
    obtain ⟨e, he, hrest⟩ := ((slotted_run calls).slots path m operation).mp hoperation
    refine ((slotted_run (calls ++ more)).slots path m operation).mpr ⟨e, ?_, hrest⟩
    rw [accepted, acceptedFrom_append]
    exact List.mem_append_left _ he
  taken := fun _ htaken => addEndpoint_taken htaken
  refused := fun _ he => addEndpoint_fails_iff he

/-- An endpoint whose responses clash. -/
def clashingEndpoint : Endpoint where
  method := .post
  path := "/pets"
  responses := [plainResponse 200 "a pet",
    { status := 200, mimetype := "text/plain", body := { type := some (.leaf .number "") } }]

/-- Endpoints two of which are refused: the second, which has the slot of the first once its path
is written as a template, and the third, whose responses clash. -/
def clashingCalls : List Call :=
  [.endpoint { method := .get, path := "/pets/:id", responses := [plainResponse 200 "a pet"] },
    .endpoint { method := .get, path := "/pets/{id}", responses := [plainResponse 200 "another"] },
    .endpoint clashingEndpoint,
    .endpoint { method := .delete, path := "/pets" },
    .endpoint { method := .delete, path := "/pets/:id" }]

theorem run_clashingCalls :
    (accepted clashingCalls).map (fun e => (e.method, e.path)) =
      [(.get, "/pets/:id"), (.delete, "/pets"), (.delete, "/pets/:id")] ∧
    Dict.keys (Draft.run clashingCalls).paths = ["/pets/{id}", "/pets"] ∧
    (Draft.run clashingCalls).addEndpoint { method := .get, path := "/pets/{id}" } = .error
      { kind := .duplicate, path := [.field "paths", .key "/pets/{id}", .field "get"] } ∧
    (∃ fault, (Draft.run clashingCalls).addEndpoint clashingEndpoint = .error fault) := by
  have hconserved := run_conserves clashingCalls
  have haccepted : (accepted clashingCalls).map (fun e => (e.method, e.path)) =
      [(.get, "/pets/:id"), (.delete, "/pets"), (.delete, "/pets/:id")] := by
    decide +kernel
  have hpaths : (accepted clashingCalls).map (fun e => Route.template e.path) =
      ["/pets/{id}", "/pets", "/pets/{id}"] := by
    have hmap := congrArg (List.map fun p : Method × String => Route.template p.2) haccepted
    rw [List.map_map] at hmap
    exact hmap.trans (by decide +kernel)
  have hkeyed : ∀ r ∈ clashingEndpoint.responses, r.body.Keyed := by
    simp [clashingEndpoint, plainResponse, Body.Keyed, DataType.Keyed]
  refine ⟨haccepted, ?_, hconserved.taken _ (by decide +kernel),
    (hconserved.refused clashingEndpoint hkeyed).mpr (.inr ?_)⟩
  · rw [hconserved.keys, hpaths]
    decide +kernel
  · exact ⟨_, _, List.Sublist.refl _, rfl, .schema "text/plain" _ _ rfl rfl rfl⟩

end ApiNotes.OpenApi
