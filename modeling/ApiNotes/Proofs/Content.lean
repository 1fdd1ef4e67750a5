/-
What the content of a body holds.

Content is built in two moves: the type goes under the mimetype of the body, then each
example goes under its own, which is created with the same schema when it is new.  The
order of the moves shows only in the order of the table.  What stands under a mimetype
does not depend on it: the schema of the body, and the examples of that mimetype in
order, numbered from one.  `get?_contentOf` says so, and everything about exported
bodies is read off it.
-/
import ApiNotes.OpenApi.Draft
import ApiNotes.Proofs.Numerals
import ApiNotes.Proofs.TypeImages

namespace ApiNotes.OpenApi

/-! ### Numbered examples -/

theorem exampleKey_inj {m n : Nat} (h : exampleKey m = exampleKey n) : m = n :=
  Text.toString_nat_inj ((String.append_right_inj _).mp h)

/-- Examples under the keys that count them from one. -/
def numbered (es : List Example) : Dict Example :=
  es.mapIdx fun i e => (exampleKey (i + 1), e)

@[simp] theorem numbered_nil : numbered [] = [] := rfl

@[simp] theorem length_numbered (es : List Example) : (numbered es).length = es.length := by
  simp [numbered]

@[simp] theorem values_numbered (es : List Example) : (numbered es).map Prod.snd = es := by
  apply List.ext_getElem
  · simp
  · intro i h₁ h₂
    simp [numbered]

theorem numbered_append_singleton (es : List Example) (e : Example) :
    numbered (es ++ [e]) = numbered es ++ [(exampleKey (es.length + 1), e)] := by
  simp [numbered, List.mapIdx_append]

theorem mem_keys_numbered {es : List Example} {key : String} :
    key ∈ Dict.keys (numbered es) ↔ ∃ i < es.length, key = exampleKey (i + 1) := by
  induction es using List.reverseRecOn with
  | nil => simp
  | append_singleton es e ih =>
      rw [numbered_append_singleton, Dict.keys, List.map_append, List.mem_append, ← Dict.keys, ih]
      simp only [List.map_cons, List.map_nil, List.mem_singleton, List.length_append,
        List.length_cons, List.length_nil]
      constructor
      · rintro (⟨i, hi, rfl⟩ | rfl)
        · exact ⟨i, by omega, rfl⟩
        · exact ⟨es.length, by omega, rfl⟩
      · rintro ⟨i, hi, rfl⟩
        by_cases hlast : i = es.length
        · exact Or.inr (by rw [hlast])
        · exact Or.inl ⟨i, by omega, rfl⟩

/-- The key that an example is pushed under is free. -/
theorem exampleKey_not_mem_numbered (es : List Example) :
    exampleKey (es.length + 1) ∉ Dict.keys (numbered es) := by
  rw [mem_keys_numbered]
  rintro ⟨i, hi, h⟩
  have := exampleKey_inj h
  omega

theorem nodup_keys_numbered (es : List Example) : (Dict.keys (numbered es)).Nodup := by
  induction es using List.reverseRecOn with
  | nil => simp
  | append_singleton es e ih =>
      rw [numbered_append_singleton, ← Dict.insert_of_not_mem (exampleKey_not_mem_numbered es)]
      exact Dict.nodup_keys_insert ih _ _

theorem get?_numbered (es : List Example) (i : Nat) :
    Dict.get? (numbered es) (exampleKey (i + 1)) = es[i]? := by
  induction es using List.reverseRecOn with
  | nil => rfl
  | append_singleton es e ih =>
      rw [numbered_append_singleton, Dict.get?_append_singleton, ih]
      rcases Nat.lt_trichotomy i es.length with hi | hi | hi
      · rw [List.getElem?_append_left hi, List.getElem?_eq_getElem hi, Option.some_or]
      · subst hi
        simp
      · have hne : exampleKey (es.length + 1) ≠ exampleKey (i + 1) := by
          intro h
          have := exampleKey_inj h
          omega
        rw [if_neg hne, List.getElem?_eq_none (by omega), Option.none_or,
          List.getElem?_eq_none (by simp; omega)]

namespace MediaType

theorem pushExample_numbered (schema : Option Schema) (es : List Example) (e : Example) :
    pushExample ⟨schema, numbered es⟩ e = ⟨schema, numbered (es ++ [e])⟩ := by
  rw [pushExample, numbered_append_singleton]
  simp only [length_numbered]
  rw [Dict.insert_of_not_mem (exampleKey_not_mem_numbered es)]

theorem foldl_pushExample_numbered (schema : Option Schema) (es new : List Example) :
    new.foldl pushExample ⟨schema, numbered es⟩ = ⟨schema, numbered (es ++ new)⟩ := by
  induction new generalizing es with
  | nil => rw [List.foldl_nil, List.append_nil]
  | cons e rest ih =>
      rw [List.foldl_cons, pushExample_numbered, ih, List.append_assoc, List.singleton_append]

end MediaType

/-! ### Under one mimetype -/

/-- The schema of a body that has content. -/
def bodySchema (body : Body) : Option Schema := body.type.bind Schema.ofType?

/-- The examples that are exported under a name, in order. -/
def examplesUnder (name : String) (examples : List ApiNotes.Example) : List Example :=
  (examples.filter fun e => mediaTypeName e.mimetype == name).map Example.ofModel

/-- The names under which the content of a body is exported. -/
def contentNames (mimetype : String) (body : Body) : List String :=
  (if (bodySchema body).isSome then [mediaTypeName mimetype] else []) ++
    body.examples.map fun e => mediaTypeName e.mimetype

theorem examplesUnder_append (name : String) (xs ys : List ApiNotes.Example) :
    examplesUnder name (xs ++ ys) = examplesUnder name xs ++ examplesUnder name ys := by
  simp [examplesUnder]

theorem examplesUnder_singleton (name : String) (e : ApiNotes.Example) :
    examplesUnder name [e] =
      if mediaTypeName e.mimetype = name then [Example.ofModel e] else [] := by
  by_cases h : mediaTypeName e.mimetype = name <;> simp [examplesUnder, h]

theorem examplesUnder_eq_nil {name : String} {examples : List ApiNotes.Example}
    (h : name ∉ examples.map fun e => mediaTypeName e.mimetype) :
    examplesUnder name examples = [] := by
  rw [examplesUnder, List.map_eq_nil_iff, List.filter_eq_nil_iff]
  intro e he hname
  exact h (List.mem_map.mpr ⟨e, he, by simpa using hname⟩)

/-- One example more under its mimetype; the content of the others stays. -/
theorem get?_addExample {schema : Option Schema} {start : List String}
    {es : List ApiNotes.Example} {content : Dict MediaType} (e : ApiNotes.Example)
    (h : ∀ name, Dict.get? content name =
      if name ∈ start ++ es.map (fun e => mediaTypeName e.mimetype)
      then some ⟨schema, numbered (examplesUnder name es)⟩ else none) (name : String) :
    Dict.get? (addExample schema content e) name =
      if name ∈ start ++ (es ++ [e]).map (fun e => mediaTypeName e.mimetype)
      then some ⟨schema, numbered (examplesUnder name (es ++ [e]))⟩ else none := by
  have hmedia : (Dict.get? content (mediaTypeName e.mimetype)).getD { schema } =
      ⟨schema, numbered (examplesUnder (mediaTypeName e.mimetype) es)⟩ := by
    rw [h]
    split
    · rfl
    · rename_i hnot
      rw [List.mem_append, not_or] at hnot
      rw [examplesUnder_eq_nil hnot.2]
      rfl
  unfold addExample
  simp only [hmedia]
  rw [MediaType.pushExample_numbered, Dict.get?_insert, examplesUnder_append,
    examplesUnder_singleton]
  by_cases hname : mediaTypeName e.mimetype = name
  · subst hname
    simp
  · rw [if_neg hname, if_neg hname, List.append_nil, h]
    simp [Ne.symm hname]

theorem nodup_keys_contentOf (mimetype : String) (body : Body) :
    (Dict.keys (contentOf mimetype body)).Nodup := by
  unfold contentOf
  simp only
  generalize body.type.bind Schema.ofType? = schema
  induction body.examples using List.reverseRecOn with
  | nil => cases schema <;> simp
  | append_singleton es e ih =>
      rw [List.foldl_append]
      exact Dict.nodup_keys_insert ih _ _

/-- **Content, by mimetype.**  Under each name that a body is exported under stands the schema of
the body, with the examples of that name numbered in order. -/
theorem get?_contentOf (mimetype : String) (body : Body) (name : String) :
    Dict.get? (contentOf mimetype body) name =
      if name ∈ contentNames mimetype body
      then some ⟨bodySchema body, numbered (examplesUnder name body.examples)⟩ else none := by
  unfold contentOf contentNames
  simp only
  rw [← bodySchema]
  generalize bodySchema body = schema
  induction body.examples using List.reverseRecOn generalizing name with
  | nil =>
      cases schema with
      | none => simp
      | some s =>
          by_cases hname : mediaTypeName mimetype = name
          · subst hname; simp [examplesUnder]
          · simp [hname, Ne.symm hname]
  | append_singleton es e ih =>
      rw [List.foldl_append]
      exact get?_addExample e ih name

theorem mem_keys_contentOf {mimetype : String} {body : Body} {name : String} :
    name ∈ Dict.keys (contentOf mimetype body) ↔ name ∈ contentNames mimetype body := by
  rw [← Dict.get?_isSome_iff, get?_contentOf]
  split
  · rename_i h; simp [h]
  · rename_i h; simp [h]

end ApiNotes.OpenApi
