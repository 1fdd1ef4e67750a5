/-
Operations that point at shared responses.

A finished draft goes through all its operations and writes a reference for every shared
status that the operation leaves open or declares the same way.  Each shared response is
looked at once, so what happens to a status depends on that status alone.  A reference
leads back to the response it was made for, a status being a name without slashes.
-/
import ApiNotes.Proofs.References
import ApiNotes.Proofs.SharedResponses

namespace ApiNotes.OpenApi

/-- A status is a name without slashes. -/
theorem slash_not_mem_status (status : Nat) : '/' ∉ (toString status).toList :=
  fun h => by simpa using Text.isDigit_of_mem_toString h

/-! ### Linking one operation -/

/-- Whether a shared response is referred to, given what the operation has under its status. -/
def refers (own : Option (Referable Response)) (common : Response) : Bool :=
  match own with
  | none => true
  | some (.item own) => own == common
  | some (.reference _) => false

theorem link_eq (operation : Operation) (shared : String × Response) :
    operation.link shared =
      if refers (Dict.get? operation.responses shared.1) shared.2 then
        { operation with
          responses :=
            Dict.insert operation.responses shared.1 (.toComponent "responses" shared.1) }
      else operation := rfl

theorem get?_link (operation : Operation) (shared : String × Response) (k : String) :
    Dict.get? (operation.link shared).responses k =
      if shared.1 = k ∧ refers (Dict.get? operation.responses k) shared.2 = true
      then some (.toComponent "responses" k) else Dict.get? operation.responses k := by
  rw [link_eq]
  by_cases hk : shared.1 = k
  · subst hk
    by_cases hrefers : refers (Dict.get? operation.responses shared.1) shared.2 = true
    · rw [if_pos hrefers, if_pos ⟨rfl, hrefers⟩, Dict.get?_insert, if_pos rfl]
    · rw [if_neg hrefers, if_neg fun h => hrefers h.2]
  · have hnot : ¬(shared.1 = k ∧ refers (Dict.get? operation.responses k) shared.2 = true) :=
      fun h => hk h.1
    rw [if_neg hnot]
    split
    · rw [Dict.get?_insert, if_neg hk]
    · rfl

/-- Linking changes the responses of an operation and nothing else. -/
theorem linkAll_frame (shared : Dict Response) (operation : Operation) :
    operation.linkAll shared =
      { operation with responses := (operation.linkAll shared).responses } := by
  unfold Operation.linkAll
  induction shared generalizing operation with
  | nil => rfl
  | cons e rest ih =>
      rw [List.foldl_cons, ih (operation.link e)]
      rw [link_eq]
      split <;> rfl

/-- What an operation has under a status when it is linked: the reference, if the status is shared
and the operation has nothing else to say, and what it had otherwise. -/
theorem get?_linkAll {shared : Dict Response} (h : (Dict.keys shared).Nodup)
    (operation : Operation) (k : String) :
    Dict.get? (operation.linkAll shared).responses k =
      if (Dict.get? shared k).any (refers (Dict.get? operation.responses k))
      then some (.toComponent "responses" k) else Dict.get? operation.responses k := by
  unfold Operation.linkAll
  induction shared generalizing operation with
  | nil => rfl
  | cons e rest ih =>
      obtain ⟨status, common⟩ := e
      rw [Dict.keys_cons, List.nodup_cons] at h
      rw [List.foldl_cons, ih h.2, get?_link, Dict.get?_cons]
      by_cases hk : status = k
      · subst hk
        rw [Dict.get?_eq_none_iff.mpr h.1, if_pos rfl]
        simp
      · have hnot : ¬(status = k ∧ refers (Dict.get? operation.responses k) common = true) :=
          fun hlink => hk hlink.1
        rw [if_neg hk, if_neg hnot]

theorem nodup_keys_linkAll (shared : Dict Response) {operation : Operation}
    (h : (Dict.keys operation.responses).Nodup) :
    (Dict.keys (operation.linkAll shared).responses).Nodup := by
  unfold Operation.linkAll
  induction shared generalizing operation with
  | nil => exact h
  | cons e rest ih =>
      refine ih ?_
      rw [link_eq]
      split
      · exact Dict.nodup_keys_insert h _ _
      · exact h

/-- A linked operation has its own statuses and the shared ones. -/
theorem mem_keys_linkAll {shared : Dict Response} (h : (Dict.keys shared).Nodup)
    (operation : Operation) (k : String) :
    k ∈ Dict.keys (operation.linkAll shared).responses ↔
      k ∈ Dict.keys operation.responses ∨ k ∈ Dict.keys shared := by
  rw [← Dict.get?_isSome_iff, ← Dict.get?_isSome_iff, ← Dict.get?_isSome_iff, get?_linkAll h]
  cases hshared : Dict.get? shared k with
  | none => simp
  | some common =>
      cases hown : Dict.get? operation.responses k with
      | none => simp [refers]
      | some own => split <;> simp

end ApiNotes.OpenApi
