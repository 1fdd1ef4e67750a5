/-
Sharing responses loses none.

When a draft is finished, its operations are pointed at the shared responses.  `Links`
says what that makes of the responses of one operation, status by status: what was
declared is still there, word for word or by reference to a shared response that is the
same, and what was not declared is there by reference when it is shared.  It holds of all
operations of a finished draft, whatever calls led to it.
-/
import ApiNotes.Proofs.Runs

namespace ApiNotes.OpenApi

/-! ### One operation -/

/-- What the responses `own` of an operation become when it is linked to the shared ones. -/
structure Links (own : Dict (Referable Response)) (shared : Dict Response)
    (linked : Dict (Referable Response)) : Prop where
  /-- Under a declared status the response itself is found, or the shared one if that is the same;
  and a reference stands there exactly when the shared one is the same. -/
  declared : ∀ k r, Dict.get? own k = some (.item r) → ∃ entry found,
    Dict.get? linked k = some entry ∧ entry.resolve shared = some found ∧
    (found = r ∨ Dict.get? shared k = some found ∧ (r == found) = true) ∧
    ((∃ target, entry = .reference target) ↔
      ∃ common, Dict.get? shared k = some common ∧ (r == common) = true)
  /-- A status that was not declared refers to the shared response, if there is one. -/
  undeclared : ∀ k, Dict.get? own k = none →
    Dict.get? linked k = (Dict.get? shared k).map fun _ => .toComponent "responses" k
  /-- Such references lead back to the shared response. -/
  resolves : ∀ k common, Dict.get? shared k = some common →
    (Referable.toComponent "responses" k).resolve shared = some common
  /-- No status comes twice. -/
  nodup : (Dict.keys linked).Nodup
  /-- Declared statuses keep their order, and the others come behind them in the order in which
  they are shared. -/
  keys : Dict.keys linked = Dict.keys own ++ (Dict.keys shared).filter (· ∉ Dict.keys own)

theorem keys_link (operation : Operation) (shared : String × Response) :
    Dict.keys (operation.link shared).responses =
      if shared.1 ∈ Dict.keys operation.responses then Dict.keys operation.responses
      else Dict.keys operation.responses ++ [shared.1] := by
  rw [link_eq]
  cases hown : Dict.get? operation.responses shared.1 with
  | none => exact Dict.keys_insert _ _ _
  | some entry =>
      rw [if_pos (Dict.mem_keys_of_get? hown)]
      split
      · exact (Dict.keys_insert _ _ _).trans (if_pos (Dict.mem_keys_of_get? hown))
      · rfl

/-- Linking leaves the statuses of an operation where they are and adds those that are shared and
new. -/
theorem keys_linkAll {shared : Dict Response} (h : (Dict.keys shared).Nodup) :
    ∀ operation : Operation, Dict.keys (operation.linkAll shared).responses =
      Dict.keys operation.responses ++
        (Dict.keys shared).filter (· ∉ Dict.keys operation.responses) := by
  unfold Operation.linkAll
  induction shared with
  | nil => intro operation; simp
  | cons e rest ih =>
      intro operation
      rw [Dict.keys_cons, List.nodup_cons] at h
      rw [List.foldl_cons, ih h.2, keys_link, Dict.keys_cons]
      by_cases hown : e.1 ∈ Dict.keys operation.responses
      · rw [if_pos hown, List.filter_cons_of_neg (by simpa using hown)]
      · -- the status that has just been added does not come again
        have hrest : ((Dict.keys rest).filter (· ∉ Dict.keys operation.responses ++ [e.1])) =
            (Dict.keys rest).filter (· ∉ Dict.keys operation.responses) := by
          refine List.filter_congr fun k hk => ?_
          have hne : k ≠ e.1 := fun heq => h.1 (heq ▸ hk)
          simp [hne]
        rw [if_neg hown, hrest, List.filter_cons_of_pos (by simpa using hown),
          List.append_assoc, List.singleton_append]

theorem links_linkAll {shared : Dict Response} (hnodup : (Dict.keys shared).Nodup)
    (hslash : ∀ k ∈ Dict.keys shared, '/' ∉ k.toList) {operation : Operation}
    (hown : (Dict.keys operation.responses).Nodup) :
    Links operation.responses shared (operation.linkAll shared).responses := by
  have hresolves : ∀ k common, Dict.get? shared k = some common →
      (Referable.toComponent "responses" k).resolve shared = some common := by
    intro k common hk
    rw [Referable.resolve_toComponent_of_undivided "responses"
      (hslash k (Dict.mem_keys_of_get? hk)), hk]
  refine ⟨fun k r hown => ?_, fun k hown => ?_, hresolves, nodup_keys_linkAll shared hown,
    keys_linkAll hnodup operation⟩
  · have hlinked := get?_linkAll hnodup operation k
    rw [hown] at hlinked
    cases hshared : Dict.get? shared k with
    | none =>
        rw [hshared] at hlinked
        refine ⟨_, r, hlinked, rfl, .inl rfl, iff_of_false ?_ ?_⟩
        · exact fun ⟨target, htarget⟩ => nomatch htarget
        · exact fun ⟨common, hcommon, _⟩ => nomatch hcommon
    | some common =>
        rw [hshared, Option.any_some] at hlinked
        by_cases hsame : (r == common) = true
        · have hrefers : refers (some (.item r)) common = true := hsame
          rw [if_pos hrefers] at hlinked
          exact ⟨_, common, hlinked, hresolves k common hshared, .inr ⟨rfl, hsame⟩,
            iff_of_true ⟨_, rfl⟩ ⟨common, rfl, hsame⟩⟩
        · have hrefers : ¬refers (some (.item r)) common = true := hsame
          rw [if_neg hrefers] at hlinked
          refine ⟨_, r, hlinked, rfl, .inl rfl, iff_of_false ?_ ?_⟩
          · exact fun ⟨target, htarget⟩ => nomatch htarget
          · rintro ⟨common', hcommon, hsame'⟩
            exact hsame (Option.some.inj hcommon ▸ hsame')
  · rw [get?_linkAll hnodup, hown]
    cases Dict.get? shared k <;> rfl

/-! ### Finished drafts -/

/-- **Sharing responses preserves what operations mean.**  However a draft was made, when it can be
finished, the document has an operation in each slot where the draft has the operation of an
endpoint, and no others.  The responses of the operation are those that the endpoint declares, each
in place or by reference to a shared response that is the same, followed by references to the shared
ones of the other statuses. -/
theorem build_preserves_responses {calls : List Call} {document : Document}
    (h : (Draft.run calls).build = .ok document) :
    (Dict.keys document.paths).Nodup ∧
    ∀ path m, Option.Rel
      (fun own linked : Operation =>
        (∃ e table, Call.endpoint e ∈ calls ∧ Route.template e.path = path ∧ e.method = m ∧
          responsesOf e = .ok table ∧ own = operationWith e table) ∧
        Links own.responses (sharedResponses document) linked.responses)
      ((Draft.run calls).operation? path m) (document.operation? path m) := by
  have hreached := reached_run calls
  have hslash : ∀ k ∈ Dict.keys (Draft.run calls).components.responses, '/' ∉ k.toList := by
    intro k hk
    obtain ⟨common, hcommon⟩ := Dict.exists_get?_of_mem_keys hk
    obtain ⟨r, -, rfl, -⟩ := hreached.shared k common hcommon
    exact slash_not_mem_status r.status
  refine ⟨?_, fun path m => ?_⟩
  · have hkeys : Dict.keys (Draft.run calls).document.paths = Dict.keys (Draft.run calls).paths :=
      Dict.keys_mapValues _ _
    rw [(build_eq_ok h).1, hkeys]
    exact hreached.nodup_paths
  · rw [operation?_of_build h, sharedResponses_of_build h]
    cases hown : (Draft.run calls).operation? path m with
    | none => exact .none
    | some own =>
        obtain ⟨e, he, hpath, hm, hoperation⟩ := hreached.slots path m own hown
        obtain ⟨table, htable, rfl⟩ := operation_ofModel_eq_ok.mp hoperation
        exact .some ⟨⟨e, table, he, hpath, hm, htable, rfl⟩,
          links_linkAll hreached.nodup_shared hslash (nodup_keys_operationWith htable)⟩

/-- A response of plain text. -/
def plainResponse (status : Nat) (text : String) : ApiNotes.Response :=
  { status, mimetype := "text/plain", body := { type := some (.leaf .string text) } }

/-- An endpoint among shared responses, one of which is refused. -/
def listPetsCalls : List Call :=
  [.commonResponse (plainResponse 404 "not found"),
    .endpoint
      { method := .get
        path := "/pets"
        responses := [plainResponse 200 "all pets", plainResponse 404 "not found",
          plainResponse 500 "broken"] },
    .commonResponse (plainResponse 404 "gone"), .commonResponse (plainResponse 503 "busy"),
    .commonResponse (plainResponse 500 "failed")]

theorem build_listPets : ∃ document own linked,
    (Draft.run listPetsCalls).build = .ok document ∧
    (Draft.run listPetsCalls).operation? "/pets" .get = some own ∧
    document.operation? "/pets" .get = some linked ∧
    Links own.responses (sharedResponses document) linked.responses ∧
    linked.responses.map (fun e => (e.1, e.2 matches .reference _)) =
      [("200", false), ("404", true), ("500", false), ("503", true)] := by
  obtain ⟨document, hdocument, hreferences⟩ : ∃ document,
      (Draft.run listPetsCalls).build = .ok document ∧
      (document.operation? "/pets" .get).map (fun linked =>
        linked.responses.map fun e => (e.1, e.2 matches .reference _)) =
          some [("200", false), ("404", true), ("500", false), ("503", true)] := ⟨_, rfl, rfl⟩
  obtain ⟨own, hown⟩ : ∃ own, (Draft.run listPetsCalls).operation? "/pets" .get = some own :=
    ⟨_, rfl⟩
  obtain ⟨linked, hlinked, hkinds⟩ := Option.map_eq_some_iff.mp hreferences
  have hslot := (build_preserves_responses hdocument).2 "/pets" .get
  rw [hown, hlinked] at hslot
  cases hslot with
  | some hrel => exact ⟨document, own, linked, hdocument, hown, hlinked, hrel.2, hkinds⟩

end ApiNotes.OpenApi
