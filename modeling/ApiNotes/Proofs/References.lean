/-
What a reference to a component leads to.

A reference is written by putting the name of the entry behind the name of its table, and read
by taking what stands behind the last slash.  The two agree as long as the name has no slash in
it.  A name that has one comes back as its last part, so such an entry cannot be referred to,
and a reference to it leads to the entry that has the last part for its name, if there is one.
-/
import ApiNotes.OpenApi.Document
import ApiNotes.Proofs.Tables
import ApiNotes.Proofs.Words

namespace ApiNotes.OpenApi.Referable

variable {α : Type}

/-- What stands behind the last slash of a name; all of it, if there is none. -/
structure IsLastPart (last name : String) : Prop where
  undivided : '/' ∉ last.toList
  behind : name = last ∨ ∃ front, name = front ++ "/" ++ last

theorem exists_isLastPart (name : String) : ∃ last, IsLastPart last name := by
  by_cases h : '/' ∈ name.toList
  · obtain ⟨front, last, hname, hlast⟩ := Text.exists_last_separator h
    refine ⟨String.ofList last, by simpa using hlast, .inr ⟨String.ofList front, ?_⟩⟩
    rw [← String.toList_inj, hname]
    simp
  · exact ⟨name, h, .inl rfl⟩

theorem targetName_of_undivided {name : String} (h : '/' ∉ name.toList) :
    targetName name = name := by
  rw [targetName, List.splitOn_eq_singleton h]
  exact String.ofList_toList

/-- What stands before a slash does not matter. -/
theorem targetName_append (front name : String) :
    targetName (front ++ "/" ++ name) = targetName name := by
  have htext : (front ++ "/" ++ name).toList = front.toList ++ '/' :: name.toList := by
    simp
  obtain ⟨pieces, last, hsplit⟩ := Text.exists_splitOn '/' name.toList
  rw [targetName, targetName, htext, List.splitOn_append_cons_self, hsplit, ← List.append_assoc,
    List.getLastD_concat, List.getLastD_concat]

theorem targetName_of_isLastPart {last name : String} (h : IsLastPart last name) :
    targetName name = last := by
  rcases h.behind with rfl | ⟨front, rfl⟩
  · exact targetName_of_undivided h.undivided
  · rw [targetName_append, targetName_of_undivided h.undivided]

/-- A reference to a component leads to the entry under the last part of its name. -/
theorem resolve_toComponent (table name : String) (d : Dict α) :
    (toComponent table name).resolve d = Dict.get? d (targetName name) := by
  rw [toComponent, resolve, targetName_append]

/-- A name without slashes leads back to its own entry. -/
theorem resolve_toComponent_of_undivided (table : String) {name : String}
    (h : '/' ∉ name.toList) (d : Dict α) :
    (toComponent table name).resolve d = Dict.get? d name := by
  rw [resolve_toComponent, targetName_of_undivided h]

/-- **A reference to a component is read as the last part of the name that it was made for.**  So it
leads to the entry of that name, and nowhere if there is none, in all tables just when the name
has no slash in it. -/
theorem resolve_toComponent_exact_iff [Nonempty α] (table name : String) :
    (∃ last, IsLastPart last name ∧
      ∀ d : Dict α, (toComponent table name).resolve d = Dict.get? d last) ∧
    ((∀ d : Dict α, (toComponent table name).resolve d = Dict.get? d name) ↔
      '/' ∉ name.toList) := by
  obtain ⟨last, hlast⟩ := exists_isLastPart name
  have hresolve : ∀ d : Dict α, (toComponent table name).resolve d = Dict.get? d last := fun d => by
    rw [resolve_toComponent, targetName_of_isLastPart hlast]
  refine ⟨⟨last, hlast, hresolve⟩, ?_, fun h => resolve_toComponent_of_undivided table h⟩
  intro hall hslash
  obtain ⟨value⟩ := ‹Nonempty α›
  have hother : name ≠ last := fun heq => hlast.undivided (heq ▸ hslash)
  -- in a table with this name alone, the last part is no key
  have hfound := hall [(name, value)]
  rw [hresolve, Dict.get?_cons, if_neg hother, Dict.get?_cons, if_pos rfl] at hfound
  cases hfound

/-- Names with blanks, dots and tildes lead back, also past an entry that a part of them names. -/
theorem resolve_petList :
    (toComponent "schemas" "pet.list ~1").resolve
      [("~1", "a part"), ("pet.list ~1", "the list")] = some "the list" :=
  ((resolve_toComponent_exact_iff "schemas" "pet.list ~1").2.mpr (by decide +kernel) _).trans rfl

/-- An entry whose name has a slash in it is not found, and a reference to a name that no entry has
is read as one to another entry. -/
theorem resolve_slashedName :
    '/' ∉ "responses".toList ∧
    (∃ d : Dict Response, Dict.get? d "v1/pet" = some { description := "a pet" } ∧
      (toComponent "responses" "v1/pet").resolve d ≠ some { description := "a pet" }) ∧
    ∃ d : Dict Response, Dict.get? d "v1/pet" = none ∧
      (toComponent "responses" "v1/pet").resolve d ≠ none := by
  have hlast : targetName "v1/pet" = "pet" := by decide +kernel
  refine ⟨by decide +kernel, ⟨[("v1/pet", { description := "a pet" })], rfl, ?_⟩,
    ⟨[("pet", { description := "a pet" })], rfl, ?_⟩⟩
  · rw [resolve_toComponent, hlast]
    simp
  · rw [resolve_toComponent, hlast]
    simp

end ApiNotes.OpenApi.Referable
