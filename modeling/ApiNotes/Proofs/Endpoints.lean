/-
The operations of a draft.

An endpoint goes to the slot of its method on the template of its path, and only there.
A slot is written once: the first endpoint that wants one that is taken stops the whole.
So after some endpoints the operations of the draft are theirs, one each, and nothing
else; `Added` says so, and `addEndpoints_isOk_iff` when it comes to that.
-/
import ApiNotes.Proofs.Grouping

namespace ApiNotes

theorem Endpoint.sameSlot_iff {a b : Endpoint} :
    a.sameSlot b = true ↔ a.method = b.method ∧ Route.template a.path = Route.template b.path := by
  rw [Endpoint.sameSlot, Bool.and_eq_true, beq_iff_eq, beq_iff_eq]

namespace OpenApi

/-! ### Slots of a path -/

namespace PathItem

@[simp] theorem slot_empty (m : Method) : ({} : PathItem).slot m = none := by cases m <;> rfl

theorem mem_operations {item : PathItem} {m : Method} {operation : Operation} :
    (m, operation) ∈ item.operations ↔ item.slot m = some operation := by
  rw [operations, List.mem_filterMap]
  constructor
  · rintro ⟨m', -, h⟩
    rw [Option.map_eq_some_iff] at h
    obtain ⟨operation', hslot, heq⟩ := h
    obtain ⟨rfl, rfl⟩ := Prod.mk.inj heq
    exact hslot
  · intro h
    exact ⟨m, m.mem_all, by rw [h]; rfl⟩

theorem slot_mapOperations (f : Operation → Operation) (item : PathItem) (m : Method) :
    (item.mapOperations f).slot m = (item.slot m).map f := by
  cases m <;> rfl

/-- Filling a free slot adds one operation. -/
theorem length_operations_withSlot {item : PathItem} {m : Method} (h : item.slot m = none)
    (operation : Operation) :
    (item.withSlot m (some operation)).operations.length = item.operations.length + 1 := by
  have hcount : ∀ i : PathItem,
      i.operations.length = (Method.all.map fun m' => (i.slot m').toList.length).sum := by
    intro i
    rw [operations]
    induction Method.all with
    | nil => rfl
    | cons m' rest ih =>
        rw [List.map_cons, List.sum_cons, ← ih, List.filterMap_cons]
        cases i.slot m' <;> simp [Nat.add_comm]
  rw [hcount, hcount]
  simp only [slot_withSlot]
  cases m <;> simp [Method.all, h] <;> omega

theorem length_operations_mapOperations (f : Operation → Operation) (item : PathItem) :
    (item.mapOperations f).operations.length = item.operations.length := by
  simp only [operations, slot_mapOperations, List.length_filterMap_eq_countP, Option.isSome_map]

end PathItem

/-! ### Counting the operations of a document -/

/-- How many operations a table of paths holds. -/
def operationCount (paths : Dict PathItem) : Nat :=
  (paths.map fun p => p.2.operations.length).sum

theorem operationCount_insert (paths : Dict PathItem) (path : String) (item : PathItem) :
    operationCount (Dict.insert paths path item) +
        ((Dict.get? paths path).getD {}).operations.length =
      operationCount paths + item.operations.length := by
  induction paths with
  | nil =>
      have hempty : ({} : PathItem).operations = [] := rfl
      simp [operationCount, Dict.insert, hempty]
  | cons p rest ih =>
      obtain ⟨path', item'⟩ := p
      unfold operationCount at ih ⊢
      rw [Dict.insert, Dict.get?_cons]
      by_cases h : path' = path
      · rw [if_pos h, if_pos h]
        simp only [List.map_cons, List.sum_cons, Option.getD_some]
        omega
      · rw [if_neg h, if_neg h]
        simp only [List.map_cons, List.sum_cons]
        omega

theorem operationCount_mapOperations (f : Operation → Operation) (paths : Dict PathItem) :
    operationCount (paths.mapValues (·.mapOperations f)) = operationCount paths := by
  unfold operationCount Dict.mapValues
  rw [List.map_map]
  congr 1
  exact List.map_congr_left fun p _ => PathItem.length_operations_mapOperations f p.2

/-! ### Adding endpoints to a draft -/

/-- An endpoint goes in when its slot is free and its responses can be taken together. -/
theorem addEndpoint_eq_ok {d d' : Draft} {e : Endpoint} :
    d.addEndpoint e = .ok d' ↔
      d.operation? (Route.template e.path) e.method = none ∧
      ∃ operation, Operation.ofModel e = .ok operation ∧
        d' = { d with
          paths := Dict.insert d.paths (Route.template e.path)
            (((Dict.get? d.paths (Route.template e.path)).getD {}).withSlot e.method
              (some operation)) } := by
  unfold Draft.addEndpoint
  simp only
  split
  · rename_i htaken
    refine iff_of_false (by simp) fun h => ?_
    rw [h.1] at htaken
    cases htaken
  · rename_i hfree
    rw [Option.not_isSome_iff_eq_none] at hfree
    cases hoperation : Operation.ofModel e with
    | error fault => simp
    | ok operation =>
        simp only [Except.ok.injEq, hfree, true_and, exists_eq_left']
        exact eq_comm

/-- What a draft holds after some endpoints: the operation of each in its slot, and no others. -/
structure Added (start : Draft) (before : List Endpoint) (d : Draft) : Prop where
  frame : d = { start with paths := d.paths }
  nodup : (Dict.keys d.paths).Nodup
  holds : ∀ e ∈ before, ∃ operation, Operation.ofModel e = .ok operation ∧
    d.operation? (Route.template e.path) e.method = some operation
  slots : ∀ path m operation, d.operation? path m = some operation →
    ∃ e ∈ before, Route.template e.path = path ∧ e.method = m ∧ Operation.ofModel e = .ok operation
  paths : ∀ path ∈ Dict.keys d.paths, ∃ e ∈ before, Route.template e.path = path
  count : operationCount d.paths = before.length

theorem added_start {start : Draft} (h : start.paths = []) : Added start [] start where
  frame := rfl
  nodup := by rw [h]; simp
  holds := by simp
  slots := by
    intro path m operation hoperation
    rw [Draft.operation?, h, Dict.get?_nil] at hoperation
    cases hoperation
  paths := by rw [h]; simp
  count := by rw [h]; rfl

/-- The operation of a slot after another one was written. -/
theorem operation?_insert (d : Draft) (path path' : String) (m m' : Method)
    (operation : Operation) :
    Draft.operation?
        { d with
          paths := Dict.insert d.paths path
            (((Dict.get? d.paths path).getD {}).withSlot m (some operation)) } path' m' =
      if path = path' ∧ m = m' then some operation else d.operation? path' m' := by
  unfold Draft.operation?
  simp only [Dict.get?_insert]
  by_cases hpath : path = path'
  · subst hpath
    rw [if_pos rfl, Option.bind_some, PathItem.slot_withSlot]
    by_cases hm : m = m'
    · simp [hm]
    · rw [if_neg hm, if_neg fun h => hm h.2]
      cases Dict.get? d.paths path <;> simp
  · rw [if_neg hpath, if_neg fun h => hpath h.1]

theorem added_step {start d d' : Draft} {before : List Endpoint} {e : Endpoint}
    (h : Added start before d) (hstep : d.addEndpoint e = .ok d') :
    Added start (before ++ [e]) d' := by
  obtain ⟨hfree, operation, hoperation, rfl⟩ := addEndpoint_eq_ok.mp hstep
  refine ⟨?_, Dict.nodup_keys_insert h.nodup _ _, ?_, ?_, ?_, ?_⟩
  · conv_lhs => rw [h.frame]
  · intro x hx
    rw [operation?_insert]
    rcases List.mem_append.mp hx with hx | hx
    · obtain ⟨own, hown, hslot⟩ := h.holds x hx
      refine ⟨own, hown, ?_⟩
      rw [if_neg, hslot]
      rintro ⟨hpath, hmethod⟩
      rw [hpath, hmethod, hslot] at hfree
      cases hfree
    · rw [List.mem_singleton.mp hx]
      exact ⟨operation, hoperation, if_pos ⟨rfl, rfl⟩⟩
  · intro path m own hown
    rw [operation?_insert] at hown
    split at hown
    · rename_i hslot
      rw [← Option.some.inj hown]
      exact ⟨e, by simp, hslot.1, hslot.2, hoperation⟩
    · obtain ⟨x, hx, hrest⟩ := h.slots path m own hown
      exact ⟨x, List.mem_append_left _ hx, hrest⟩
  · intro path hpath
    rcases Dict.mem_keys_insert.mp hpath with hpath | rfl
    · obtain ⟨x, hx, hxpath⟩ := h.paths path hpath
      exact ⟨x, List.mem_append_left _ hx, hxpath⟩
    · exact ⟨e, by simp, rfl⟩
  · have hslot : ((Dict.get? d.paths (Route.template e.path)).getD {}).slot e.method = none := by
      unfold Draft.operation? at hfree
      cases hget : Dict.get? d.paths (Route.template e.path) with
      | none => exact PathItem.slot_empty e.method
      | some item => rw [hget] at hfree; exact hfree
    have hcount := operationCount_insert d.paths (Route.template e.path)
      (((Dict.get? d.paths (Route.template e.path)).getD {}).withSlot e.method (some operation))
    rw [PathItem.length_operations_withSlot hslot, h.count] at hcount
    rw [List.length_append, List.length_singleton]
    show operationCount (Dict.insert d.paths _ _) = before.length + 1
    omega

theorem addEndpoint_isOk_iff {start d : Draft} {before : List Endpoint} {e : Endpoint}
    (h : Added start before d) :
    (∃ d', d.addEndpoint e = .ok d') ↔
      (∃ operation, Operation.ofModel e = .ok operation) ∧
        ∀ x ∈ before, x.sameSlot e = false := by
  have hfree : d.operation? (Route.template e.path) e.method = none ↔
      ∀ x ∈ before, x.sameSlot e = false := by
    constructor
    · intro hnone x hx
      rw [Bool.eq_false_iff]
      intro hslot
      obtain ⟨hmethod, hpath⟩ := Endpoint.sameSlot_iff.mp hslot
      obtain ⟨operation, -, hoperation⟩ := h.holds x hx
      rw [hmethod, hpath, hnone] at hoperation
      cases hoperation
    · intro hall
      rw [Option.eq_none_iff_forall_ne_some]
      intro operation hoperation
      obtain ⟨x, hx, hpath, hmethod, -⟩ := h.slots _ _ _ hoperation
      have hslot := hall x hx
      rw [Endpoint.sameSlot_iff.mpr ⟨hmethod, hpath⟩] at hslot
      cases hslot
  simp only [addEndpoint_eq_ok, hfree]
  constructor
  · rintro ⟨d', hall, operation, hoperation, -⟩
    exact ⟨⟨operation, hoperation⟩, hall⟩
  · rintro ⟨⟨operation, hoperation⟩, hall⟩
    exact ⟨_, hall, operation, hoperation, rfl⟩

theorem addEndpoints_added {start d : Draft} {endpoints : List Endpoint}
    (hstart : start.paths = []) (h : endpoints.foldlM Draft.addEndpoint start = .ok d) :
    Added start endpoints d :=
  foldlM_invariant (fun _ _ _ _ (_ : True) h hstep => added_step h hstep) endpoints [] start d
    (fun _ _ => trivial) (added_start hstart) h

/-- Endpoints go in when each has an operation and no two want the same slot. -/
theorem addEndpoints_isOk_iff {start : Draft} {endpoints : List Endpoint}
    (hstart : start.paths = []) :
    (∃ d, endpoints.foldlM Draft.addEndpoint start = .ok d) ↔
      (∀ e ∈ endpoints, ∃ operation, Operation.ofModel e = .ok operation) ∧
        endpoints.Pairwise fun a b => a.sameSlot b = false := by
  have hfold : (∃ d, endpoints.foldlM Draft.addEndpoint start = .ok d) ↔
      (∀ e ∈ endpoints, (∃ operation, Operation.ofModel e = .ok operation) ∧
        ∀ x ∈ ([] : List Endpoint), x.sameSlot e = false) ∧
      endpoints.Pairwise fun a b => a.sameSlot b = false :=
    foldlM_isOk_iff (fun _ _ _ _ (_ : True) h hstep => added_step h hstep)
      (fun _ _ _ _ h => addEndpoint_isOk_iff h) endpoints [] start (fun _ _ => trivial)
      (added_start hstart)
  rw [hfold]
  simp

end OpenApi

end ApiNotes
