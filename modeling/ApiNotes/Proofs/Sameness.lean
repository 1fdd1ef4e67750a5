/-
Sameness of schemas is an equivalence.

Two schemas are the same when they agree up to the order of their properties.  The
test for it walks the properties of the first schema and looks each up in the second,
which says nothing by itself about the way back; it takes the count of properties, and
distinct names at every depth, to make the test symmetric.  `Keyed` is that condition.
Every table that a document holds satisfies it, since writing to a table never repeats
a key.
-/
import ApiNotes.OpenApi.Schema
import ApiNotes.Proofs.Tables

namespace ApiNotes.OpenApi.Schema

/-! ### Induction over a schema -/

theorem sizeOf_property_lt {s : Schema} {ps : List (String × Schema)} (hps : s.properties = some ps)
    {e : String × Schema} (he : e ∈ ps) : sizeOf e.2 < sizeOf s := by
  have hlt := List.sizeOf_lt_of_mem he
  obtain ⟨name, inner⟩ := e
  obtain ⟨type, description, properties, required, items⟩ := s
  simp only at hps
  subst hps
  simp only [Prod.mk.sizeOf_spec, Schema.mk.sizeOf_spec, Option.some.sizeOf_spec] at hlt ⊢
  omega

theorem sizeOf_items_lt {s i : Schema} (hi : s.items = some i) : sizeOf i < sizeOf s := by
  obtain ⟨type, description, properties, required, items⟩ := s
  simp only at hi
  subst hi
  simp only [Schema.mk.sizeOf_spec, Option.some.sizeOf_spec]
  omega

/-- A statement holds of every schema when it passes from its properties and the schema of its
elements to the schema itself. -/
theorem induct {motive : Schema → Prop}
    (step : ∀ s : Schema, (∀ ps, s.properties = some ps → ∀ e ∈ ps, motive e.2) →
      (∀ i, s.items = some i → motive i) → motive s) (s : Schema) : motive s :=
  step s
    (fun _ hps e he => have := sizeOf_property_lt hps he; induct step e.2)
    (fun i hi => have := sizeOf_items_lt hi; induct step i)
termination_by sizeOf s

/-! ### Distinct names at every depth -/

mutual

/-- The properties of a schema have distinct names, at every depth. -/
def Keyed : Schema → Prop
  | ⟨_, _, properties, _, items⟩ =>
    (match properties with
      | some ps => (Dict.keys ps).Nodup ∧ KeyedProperties ps
      | none => True) ∧
    (match items with
      | some s => Keyed s
      | none => True)

/-- Each schema of a table of properties is keyed. -/
def KeyedProperties : List (String × Schema) → Prop
  | [] => True
  | (_, s) :: rest => Keyed s ∧ KeyedProperties rest

end

theorem keyedProperties_iff {ps : List (String × Schema)} :
    KeyedProperties ps ↔ ∀ e ∈ ps, e.2.Keyed := by
  induction ps with
  | nil => simp [KeyedProperties]
  | cons e rest ih => rw [KeyedProperties, ih, List.forall_mem_cons]

theorem keyed_iff {s : Schema} :
    s.Keyed ↔ (∀ ps, s.properties = some ps → (Dict.keys ps).Nodup ∧ ∀ e ∈ ps, e.2.Keyed) ∧
      ∀ i, s.items = some i → i.Keyed := by
  obtain ⟨type, description, properties, required, items⟩ := s
  cases properties with
  | none => cases items <;> simp [Keyed]
  | some ps => cases items <;> simp [Keyed, keyedProperties_iff]

theorem Keyed.nodup {s : Schema} (h : s.Keyed) {ps : List (String × Schema)}
    (hps : s.properties = some ps) : (Dict.keys ps).Nodup := ((keyed_iff.mp h).1 ps hps).1

theorem Keyed.property {s : Schema} (h : s.Keyed) {ps : List (String × Schema)}
    (hps : s.properties = some ps) {e : String × Schema} (he : e ∈ ps) : e.2.Keyed :=
  ((keyed_iff.mp h).1 ps hps).2 e he

theorem Keyed.items {s : Schema} (h : s.Keyed) {i : Schema} (hi : s.items = some i) : i.Keyed :=
  (keyed_iff.mp h).2 i hi

/-! ### The test, field by field -/

theorem sameProperties_eq (ps qs : List (String × Schema)) :
    (ps.length == qs.length && sameProperties ps qs) = Dict.sameBy same ps qs := by
  rw [Dict.sameBy]
  congr 1
  induction ps with
  | nil => rfl
  | cons e rest ih =>
      rw [sameProperties, ih, List.all_cons]
      cases Dict.get? qs e.1 <;> rfl

/-- Two optional values agree: both are absent, or both are present and the test holds. -/
theorem optionRel_iff {α : Type} {r : α → α → Prop} {x y : Option α} :
    Option.Rel r x y ↔
      (x = none ∧ y = none) ∨ ∃ a b, x = some a ∧ y = some b ∧ r a b := by
  constructor
  · rintro (h | _)
    · exact Or.inr ⟨_, _, rfl, rfl, h⟩
    · exact Or.inl ⟨rfl, rfl⟩
  · rintro (⟨rfl, rfl⟩ | ⟨a, b, rfl, rfl, h⟩)
    · exact .none
    · exact .some h

theorem same_iff {s t : Schema} :
    same s t = true ↔ s.type = t.type ∧ s.description = t.description ∧
      Option.Rel (fun ps qs => Dict.sameBy same ps qs = true) s.properties t.properties ∧
      s.required = t.required ∧
      Option.Rel (fun i j => same i j = true) s.items t.items := by
  obtain ⟨type, description, properties, required, items⟩ := s
  obtain ⟨type', description', properties', required', items'⟩ := t
  have hps : ∀ ps qs, (ps.length = qs.length ∧ sameProperties ps qs = true) ↔
      Dict.sameBy same ps qs = true := by
    intro ps qs
    rw [← sameProperties_eq, Bool.and_eq_true, beq_iff_eq]
  cases properties with
  | none => cases properties' <;> cases items <;> cases items' <;>
      simp [same, optionRel_iff, and_assoc]
  | some ps => cases properties' <;> cases items <;> cases items' <;>
      simp [same, optionRel_iff, and_assoc, ← hps]

/-! ### The three laws -/

theorem same_refl {s : Schema} (hs : s.Keyed) : same s s = true := by
  induction s using induct with
  | step s ihProperties ihItems =>
      refine same_iff.mpr ⟨rfl, rfl, ?_, rfl, ?_⟩
      · cases hps : s.properties with
        | none => exact .none
        | some ps =>
            exact .some (Dict.sameBy_refl (hs.nodup hps) fun e he =>
              ihProperties ps hps e he (hs.property hps he))
      · cases hi : s.items with
        | none => exact .none
        | some i => exact .some (ihItems i hi (hs.items hi))

theorem same_symm {s t : Schema} (hs : s.Keyed) (ht : t.Keyed) (h : same s t = true) :
    same t s = true := by
  induction s using induct generalizing t with
  | step s ihProperties ihItems =>
      obtain ⟨htype, hdesc, hprops, hreq, hitems⟩ := same_iff.mp h
      refine same_iff.mpr ⟨htype.symm, hdesc.symm, ?_, hreq.symm, ?_⟩
      · rcases optionRel_iff.mp hprops with ⟨hp, hq⟩ | ⟨ps, qs, hp, hq, hsame⟩
        · rw [hp, hq]; exact .none
        · rw [hp, hq]
          refine .some (Dict.sameBy_symm (hs.nodup hp) (ht.nodup hq) ?_ hsame)
          exact fun x hx y hy => ihProperties ps hp x hx (hs.property hp hx) (ht.property hq hy)
      · rcases optionRel_iff.mp hitems with ⟨hi, hj⟩ | ⟨i, j, hi, hj, hij⟩
        · rw [hi, hj]; exact .none
        · rw [hi, hj]
          exact .some (ihItems i hi (hs.items hi) (ht.items hj) hij)

theorem same_trans {s t u : Schema} (h : same s t = true) (h' : same t u = true) :
    same s u = true := by
  induction s using induct generalizing t u with
  | step s ihProperties ihItems =>
      obtain ⟨htype, hdesc, hprops, hreq, hitems⟩ := same_iff.mp h
      obtain ⟨htype', hdesc', hprops', hreq', hitems'⟩ := same_iff.mp h'
      refine same_iff.mpr ⟨htype.trans htype', hdesc.trans hdesc', ?_, hreq.trans hreq', ?_⟩
      · cases hps : s.properties with
        | none =>
            rw [hps] at hprops
            generalize t.properties = qs at hprops hprops'
            cases hprops
            exact hprops'
        | some ps =>
            rw [hps] at hprops
            generalize t.properties = qs at hprops hprops'
            generalize u.properties = rs at hprops'
            cases hprops with
            | some hsame =>
                cases hprops' with
                | some hsame' =>
                    refine .some (Dict.sameBy_trans ?_ hsame hsame')
                    exact fun x hx v w => ihProperties ps hps x hx
      · cases hi : s.items with
        | none =>
            rw [hi] at hitems
            generalize t.items = j at hitems hitems'
            cases hitems
            exact hitems'
        | some i =>
            rw [hi] at hitems
            generalize t.items = j at hitems hitems'
            generalize u.items = k at hitems'
            cases hitems with
            | some hij =>
                cases hitems' with
                | some hjk => exact .some (ihItems i hi hij hjk)

end ApiNotes.OpenApi.Schema
