/-
The order of calls of different kinds does not count.

Each kind of call owns a part of the draft: what it does depends on that part alone and changes
nothing else (`Draft.call_eq`).  That holds for a name of the API, too, which leaves the license
to the calls that set it, and for shared responses, since operations are linked to them only when
the draft is finished.  So a call has the same outcome before and after one of another kind, and
two runs that make the same calls in the same order within each kind end in the same draft.
-/
import ApiNotes.Proofs.Runs

namespace ApiNotes.OpenApi

/-! ### Kinds of calls -/

/-- The kinds of calls on a draft. -/
inductive Call.Kind
  | info
  | license
  | externalDocs
  | server
  | group
  | commonResponse
  | endpoint
deriving DecidableEq

/-- The kind of a call. -/
def Call.kind : Call → Kind
  | .info _ _ _ => .info
  | .license _ => .license
  | .externalDocs _ => .externalDocs
  | .server _ => .server
  | .group _ => .group
  | .commonResponse _ => .commonResponse
  | .endpoint _ => .endpoint

/-- Two runs make the same calls, and those of each kind in the same order. -/
def SameByKind (first second : List Call) : Prop :=
  ∀ k : Call.Kind, first.filter (·.kind = k) = second.filter (·.kind = k)

/-- The first call of one run stands in the other behind calls of other kinds only. -/
theorem SameByKind.split {c : Call} {rest second : List Call} (h : SameByKind (c :: rest) second) :
    ∃ before after, second = before ++ c :: after ∧ (∀ x ∈ before, x.kind ≠ c.kind) ∧
      SameByKind rest (before ++ after) := by
  have hown := h c.kind
  rw [List.filter_cons_of_pos (by simp)] at hown
  obtain ⟨before, after, rfl, hbefore, -, hafter⟩ := List.filter_eq_cons_iff.mp hown.symm
  have hothers : ∀ x ∈ before, x.kind ≠ c.kind := by simpa using hbefore
  refine ⟨before, after, rfl, hothers, fun k => ?_⟩
  rw [List.filter_append]
  by_cases hk : c.kind = k
  · have hnone : before.filter (·.kind = k) = [] := by
      rw [← hk]
      simpa using hothers
    rw [hnone, ← hk, hafter, List.nil_append]
  · have hrest := h k
    rw [List.filter_cons_of_neg (by simpa using hk), List.filter_append,
      List.filter_cons_of_neg (by simpa using hk)] at hrest
    exact hrest

theorem SameByKind.eq_nil {second : List Call} (h : SameByKind [] second) : second = [] := by
  cases second with
  | nil => rfl
  | cons c rest =>
      have hown := h c.kind
      simp at hown

section Folds

variable {σ : Type} {f : σ → Call → σ}

/-- A call moves to the front of calls of other kinds. -/
theorem foldl_move_front (hcomm : ∀ s c c', c.kind ≠ c'.kind → f (f s c) c' = f (f s c') c)
    (c : Call) (before : List Call) (h : ∀ x ∈ before, x.kind ≠ c.kind) (s : σ) :
    f (before.foldl f s) c = before.foldl f (f s c) := by
  induction before generalizing s with
  | nil => rfl
  | cons x rest ih =>
      rw [List.forall_mem_cons] at h
      rw [List.foldl_cons, List.foldl_cons, ih h.2, hcomm s x c h.1]

/-- When calls of different kinds commute, their order does not count. -/
theorem foldl_of_sameByKind (hcomm : ∀ s c c', c.kind ≠ c'.kind → f (f s c) c' = f (f s c') c)
    {first second : List Call} (h : SameByKind first second) (s : σ) :
    first.foldl f s = second.foldl f s := by
  -- the first call of the one run is brought to the front of the other
  induction first generalizing second s with
  | nil => rw [h.eq_nil]
  | cons c rest ih =>
      obtain ⟨before, after, rfl, hbefore, hrest⟩ := h.split
      calc (c :: rest).foldl f s
          = (before ++ after).foldl f (f s c) := ih hrest (f s c)
        _ = after.foldl f (before.foldl f (f s c)) := List.foldl_append
        _ = after.foldl f (f (before.foldl f s) c) := by
            rw [foldl_move_front hcomm c before hbefore]
        _ = (before ++ c :: after).foldl f s := by rw [List.foldl_append, List.foldl_cons]

end Folds

/-! ### The part of a draft that a kind owns -/

namespace Draft

/-- The draft, with the part that a kind owns taken from another one. -/
def adopt (d own : Draft) : Call.Kind → Draft
  | .info => { d with info := { own.info with license := d.info.license } }
  | .license => { d with info := { d.info with license := own.info.license } }
  | .externalDocs => { d with externalDocs := own.externalDocs }
  | .server => { d with servers := own.servers }
  | .group => { d with tags := own.tags }
  | .commonResponse => { d with components := own.components }
  | .endpoint => { d with paths := own.paths }

/-- The part that a kind owns, in a draft that is new otherwise. -/
def only (d : Draft) (k : Call.Kind) : Draft := adopt {} d k

section Parts

variable (d own other : Draft) {k k' : Call.Kind}

theorem adopt_only (k : Call.Kind) : d.adopt (d.only k) k = d := by cases k <;> rfl

/-- Another kind's part does not show. -/
theorem only_adopt (h : k ≠ k') : (d.adopt own k').only k = d.only k := by
  cases k <;> cases k' <;> first | rfl | exact absurd rfl h

/-- Parts of two kinds do not overlap. -/
theorem adopt_adopt_comm (h : k ≠ k') :
    (d.adopt own k).adopt other k' = (d.adopt other k').adopt own k := by
  cases k <;> cases k' <;> first | rfl | exact absurd rfl h

end Parts

/-! ### Calls on one part -/

theorem addCommonResponse_eq (d : Draft) (r : ApiNotes.Response) :
    d.addCommonResponse r = ((d.only .commonResponse).addCommonResponse r).map
      (d.adopt · .commonResponse) := by
  have hshared : (d.only .commonResponse).components = d.components := rfl
  unfold addCommonResponse
  dsimp only
  rw [hshared]
  cases Dict.get? d.components.responses (toString r.status) with
  | none => rfl
  | some own =>
      dsimp only
      split <;> rfl

theorem addEndpoint_eq (d : Draft) (e : Endpoint) :
    d.addEndpoint e = ((d.only .endpoint).addEndpoint e).map (d.adopt · .endpoint) := by
  have hpaths : (d.only .endpoint).paths = d.paths := rfl
  unfold addEndpoint operation?
  dsimp only
  rw [hpaths]
  split
  · rfl
  · cases Operation.ofModel e <;> rfl

/-- A call has the outcome that it has on the part of its kind, and changes nothing else. -/
theorem call_eq (d : Draft) (c : Call) :
    d.call c = ((d.only c.kind).call c).map (d.adopt · c.kind) := by
  cases c with
  | commonResponse r => exact addCommonResponse_eq d r
  | endpoint e => exact addEndpoint_eq d e
  | info | license | externalDocs | server | group => rfl

theorem step_eq (d : Draft) (c : Call) : d.step c = d.adopt ((d.only c.kind).step c) c.kind := by
  rw [step, step, call_eq]
  cases (d.only c.kind).call c with
  | error fault => exact (adopt_only d c.kind).symm
  | ok own => rfl

/-! ### Calls of different kinds -/

section Commute

variable {c c' : Call}

/-- A call has the same outcome after a call of another kind, whether that one failed or not. -/
theorem call_step (h : c.kind ≠ c'.kind) (d : Draft) :
    (d.step c').call c = (d.call c).map (·.step c') := by
  -- what the call reads is not what the other one has written
  have hpart : (d.step c').only c.kind = d.only c.kind := by rw [step_eq, only_adopt _ _ h]
  rw [call_eq, hpart, call_eq d c]
  cases (d.only c.kind).call c with
  | error fault => rfl
  | ok own =>
      show Except.ok ((d.step c').adopt own c.kind) = .ok ((d.adopt own c.kind).step c')
      rw [step_eq d c', step_eq (d.adopt own c.kind) c', only_adopt _ _ h.symm,
        adopt_adopt_comm _ _ _ h.symm]

theorem step_comm (h : c.kind ≠ c'.kind) (d : Draft) :
    (d.step c).step c' = (d.step c').step c := by
  calc (d.step c).step c'
      = (d.adopt ((d.only c.kind).step c) c.kind).adopt ((d.only c'.kind).step c') c'.kind := by
        rw [step_eq (d.step c) c', step_eq d c, only_adopt _ _ h.symm]
    _ = (d.adopt ((d.only c'.kind).step c') c'.kind).adopt ((d.only c.kind).step c) c.kind :=
        adopt_adopt_comm d _ _ h
    _ = (d.step c').step c := by
        rw [step_eq (d.step c') c, step_eq d c', only_adopt _ _ h]

end Commute

/-! ### Runs -/

/-- The draft after one call more, and whether all calls have gone through so far. -/
def track (s : Draft × Bool) (c : Call) : Draft × Bool := (s.1.step c, s.2 && (s.1.call c).isOk)

theorem track_comm (s : Draft × Bool) (c c' : Call) (h : c.kind ≠ c'.kind) :
    track (track s c) c' = track (track s c') c := by
  have hok : ∀ (x : Checked Draft) (g : Draft → Draft), (x.map g).isOk = x.isOk := by
    intro x g
    cases x <;> rfl
  refine Prod.ext (step_comm h s.1) ?_
  show (s.2 && (s.1.call c).isOk && ((s.1.step c).call c').isOk) =
    (s.2 && (s.1.call c').isOk && ((s.1.step c').call c).isOk)
  rw [call_step h, call_step h.symm, hok, hok, Bool.and_right_comm]

theorem fst_foldl_track (calls : List Call) (s : Draft × Bool) :
    (calls.foldl track s).1 = calls.foldl step s.1 := by
  induction calls generalizing s with
  | nil => rfl
  | cons c rest ih => exact ih (track s c)

/-- A call that has failed is not forgotten. -/
theorem snd_foldl_track_false (calls : List Call) (d : Draft) :
    (calls.foldl track (d, false)).2 = false := by
  induction calls generalizing d with
  | nil => rfl
  | cons c rest ih => exact ih (d.step c)

/-- A run stops at the first call that fails, and gives its draft when there is none. -/
theorem foldlM_call_eq_ok {calls : List Call} {d d' : Draft} :
    calls.foldlM call d = .ok d' ↔ calls.foldl track (d, true) = (d', true) := by
  induction calls generalizing d with
  | nil => simp [pure_eq_ok]
  | cons c rest ih =>
      rw [List.foldlM_cons, bind_eq_ok, List.foldl_cons]
      cases hcall : d.call c with
      | error fault =>
          have htrack : track (d, true) c = (d.step c, false) := by
            simp [track, hcall, Except.isOk, Except.toBool]
          -- the flag is down, and no later call puts it up again
          refine iff_of_false (by simp) fun h => ?_
          have hflag := snd_foldl_track_false rest (d.step c)
          rw [← htrack, h] at hflag
          exact Bool.noConfusion hflag
      | ok own =>
          have htrack : track (d, true) c = (own, true) := by
            simp [track, step, hcall, Except.isOk, Except.toBool]
          rw [htrack, ← ih]
          simp

end Draft

/-- Two runs on a draft come to the same. -/
structure SameOutcome (start : Draft) (first second : List Call) : Prop where
  /-- All calls of the one go through when all calls of the other do. -/
  succeeds : (∃ d, first.foldlM Draft.call start = .ok d) ↔
    ∃ d, second.foldlM Draft.call start = .ok d
  /-- Then both are finished with the same document, or with the same fault. -/
  build : ∀ d d', first.foldlM Draft.call start = .ok d → second.foldlM Draft.call start = .ok d' →
    d.build = d'.build
  /-- When calls that fail are passed over, the runs leave the same draft as well. -/
  left : first.foldl Draft.step start = second.foldl Draft.step start

theorem SameByKind.sameOutcome {first second : List Call} (h : SameByKind first second)
    (start : Draft) : SameOutcome start first second := by
  have htrack := fun s => foldl_of_sameByKind Draft.track_comm h s
  have hsame : ∀ d, first.foldlM Draft.call start = .ok d ↔
      second.foldlM Draft.call start = .ok d := by
    intro d
    rw [Draft.foldlM_call_eq_ok, Draft.foldlM_call_eq_ok, htrack]
  refine ⟨exists_congr hsame, ?_, ?_⟩
  · intro d d' hfirst hsecond
    rw [(hsame d).mp hfirst, Except.ok.injEq] at hsecond
    rw [hsecond]
  · have hleft := congrArg Prod.fst (htrack (start, true))
    rwa [Draft.fst_foldl_track, Draft.fst_foldl_track] at hleft

/-- Calls that share no kind may change places as a whole. -/
theorem sameByKind_append_comm {front back : List Call}
    (h : ∀ x ∈ front, ∀ y ∈ back, x.kind ≠ y.kind) :
    SameByKind (front ++ back) (back ++ front) := by
  intro k
  rw [List.filter_append, List.filter_append]
  by_cases hk : ∃ x ∈ front, x.kind = k
  · obtain ⟨x, hx, rfl⟩ := hk
    have hback : back.filter (·.kind = x.kind) = [] := by
      simpa using fun y hy => (h x hx y hy).symm
    rw [hback, List.append_nil, List.nil_append]
  · have hfront : front.filter (·.kind = k) = [] := by
      simpa using hk
    rw [hfront, List.append_nil, List.nil_append]

/-- **Calls of different kinds can be made in any order**: common responses behind the endpoints or
in front of them, the name of the API before its license or after it. -/
theorem order_of_kinds (start : Draft) :
    (∀ first second, SameByKind first second → SameOutcome start first second) ∧
    (∀ (endpoints : List Endpoint) (responses : List ApiNotes.Response),
      SameOutcome start (endpoints.map .endpoint ++ responses.map .commonResponse)
        (responses.map .commonResponse ++ endpoints.map .endpoint)) ∧
    (∀ license title version description,
      (start.withLicense license).withInfo title version description =
        (start.withInfo title version description).withLicense license) := by
  refine ⟨fun _ _ h => h.sameOutcome start, ?_, fun _ _ _ _ => rfl⟩
  intro endpoints responses
  refine SameByKind.sameOutcome (sameByKind_append_comm ?_) start
  intro x hx y hy
  obtain ⟨e, -, rfl⟩ := List.mem_map.mp hx
  obtain ⟨r, -, rfl⟩ := List.mem_map.mp hy
  exact Call.Kind.noConfusion

/-- An endpoint that lists the pets. -/
def petsEndpoint : Endpoint where
  method := .get
  path := "/pets"
  responses := [{ status := 200, mimetype := "*" }]

/-- A call of each kind, and a second endpoint. -/
def orderedCalls : List Call :=
  [.info "Pets" "1" none, .license { name := "MIT" }, .externalDocs { url := "/docs" },
    .server { url := "/v1" }, .group { name := "pets" },
    .commonResponse { status := 404, mimetype := "*" }, .endpoint petsEndpoint,
    .endpoint { method := .get, path := "/pets/:id" }]

/-- The same calls, the endpoints in front and the name of the API at the end. -/
def shuffledCalls : List Call :=
  [.endpoint petsEndpoint, .group { name := "pets" },
    .endpoint { method := .get, path := "/pets/:id" }, .license { name := "MIT" },
    .commonResponse { status := 404, mimetype := "*" }, .server { url := "/v1" },
    .externalDocs { url := "/docs" }, .info "Pets" "1" none]

theorem build_shuffledCalls : SameByKind orderedCalls shuffledCalls ∧
    ∃ d d' document, orderedCalls.foldlM Draft.call {} = .ok d ∧
      shuffledCalls.foldlM Draft.call {} = .ok d' ∧
      d.build = .ok document ∧ d'.build = .ok document := by
  have hkinds : SameByKind orderedCalls shuffledCalls := by
    intro k
    cases k <;> rfl
  have hsame := (order_of_kinds {}).1 orderedCalls shuffledCalls hkinds
  obtain ⟨document, hfinished⟩ : ∃ document,
      (orderedCalls.foldlM Draft.call {} >>= Draft.build) = .ok document := by
    have hok : (orderedCalls.foldlM Draft.call {} >>= Draft.build).isOk = true := by decide +kernel
    cases h : orderedCalls.foldlM Draft.call {} >>= Draft.build with
    | error fault =>
        rw [h] at hok
        exact Bool.noConfusion hok
    | ok document => exact ⟨document, rfl⟩
  obtain ⟨d, hfirst, hbuild⟩ := bind_eq_ok.mp hfinished
  obtain ⟨d', hsecond⟩ := hsame.succeeds.mp ⟨d, hfirst⟩
  refine ⟨hkinds, d, d', document, hfirst, hsecond, hbuild, ?_⟩
  rw [← hsame.build d d' hfirst hsecond]
  exact hbuild

end ApiNotes.OpenApi
