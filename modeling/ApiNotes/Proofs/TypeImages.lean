/-
What the schema of a type remembers.

The schema of a type keeps its shape, its members and their order: the properties stand
in order of declaration, and `required` lists the members that may not be left out in
that order too.  Types, on the other hand, are compared without regard to the order of
their members.  So two types that are the same have the same schema exactly when their
required members stand in the same order at every depth; `Aligned` says that, and
`ofType?_beq_iff` is the statement.
-/
import ApiNotes.Model.ApiDoc
import ApiNotes.Proofs.Sameness

namespace ApiNotes

namespace DataType

/-! ### Induction over a type -/

/-- A statement holds of every type when it holds of the types without parts, and passes from
the elements of an array and from the members of an object to the whole. -/
theorem induct {motive : DataType → Prop} (leaf : ∀ kind text, motive (.leaf kind text))
    (bare : ∀ text, motive (.array none text))
    (array : ∀ items text, motive items → motive (.array (some items) text))
    (object : ∀ members text, (∀ e ∈ members, motive e.2.type) → motive (.object members text))
    (t : DataType) : motive t :=
  match t with
  | .leaf kind text => leaf kind text
  | .array none text => bare text
  | .array (some items) text => array items text (induct leaf bare array object items)
  | .object members text => object members text fun e he =>
      have : sizeOf e.2.type < 1 + sizeOf members + sizeOf text := by
        have hlt := List.sizeOf_lt_of_mem he
        obtain ⟨key, name, type, optional, description⟩ := e
        simp only [Prod.mk.sizeOf_spec, Param.mk.sizeOf_spec] at hlt ⊢
        omega
      induct leaf bare array object e.2.type
termination_by sizeOf t

/-! ### Distinct members at every depth -/

mutual

/-- The members of a type have distinct names, at every depth. -/
def Keyed : DataType → Prop
  | .leaf _ _ => True
  | .array none _ => True
  | .array (some items) _ => Keyed items
  | .object members _ => (Dict.keys members).Nodup ∧ KeyedMembers members

/-- Each type of a table of members is keyed. -/
def KeyedMembers : List (String × Param) → Prop
  | [] => True
  | (_, p) :: rest => KeyedParam p ∧ KeyedMembers rest

/-- The type of a parameter is keyed. -/
def KeyedParam : Param → Prop
  | ⟨_, type, _, _⟩ => Keyed type

end

theorem keyedMembers_iff {members : List (String × Param)} :
    KeyedMembers members ↔ ∀ e ∈ members, e.2.type.Keyed := by
  induction members with
  | nil => simp [KeyedMembers]
  | cons e rest ih =>
      obtain ⟨key, name, type, optional, description⟩ := e
      rw [KeyedMembers, KeyedParam, ih, List.forall_mem_cons]

theorem keyed_object {members : List (String × Param)} {text : String} :
    (DataType.object members text).Keyed ↔
      (Dict.keys members).Nodup ∧ ∀ e ∈ members, e.2.type.Keyed := by
  rw [Keyed, keyedMembers_iff]

/-! ### The test for sameness, case by case -/

theorem sameParam_iff {p q : Param} :
    sameParam p q = true ↔ p.name = q.name ∧ same p.type q.type = true ∧
      p.optional = q.optional ∧ p.description = q.description := by
  obtain ⟨name, type, optional, description⟩ := p
  simp [sameParam, and_assoc]

theorem sameMembers_eq (members others : List (String × Param)) :
    (members.length == others.length && sameMembers members others) =
      Dict.sameBy sameParam members others := by
  rw [Dict.sameBy]
  congr 1
  induction members with
  | nil => rfl
  | cons e rest ih =>
      rw [sameMembers, ih, List.all_cons]
      cases Dict.get? others e.1 <;> rfl

theorem same_leaf {kind : Leaf} {text : String} {b : DataType}
    (h : same (.leaf kind text) b = true) : b = .leaf kind text := by
  cases b with
  | leaf kind' text' =>
      simp only [same, Bool.and_eq_true, beq_iff_eq] at h
      rw [h.1, h.2]
  | array items text' => simp [same] at h
  | object members text' => simp [same] at h

theorem same_bare {text : String} {b : DataType} (h : same (.array none text) b = true) :
    b = .array none text := by
  cases b with
  | leaf kind text' => simp [same] at h
  | array items text' =>
      cases items with
      | none =>
          simp only [same, beq_iff_eq] at h
          rw [h]
      | some items => simp [same] at h
  | object members text' => simp [same] at h

theorem same_array {items : DataType} {text : String} {b : DataType}
    (h : same (.array (some items) text) b = true) :
    ∃ items', b = .array (some items') text ∧ same items items' = true := by
  cases b with
  | leaf kind text' => simp [same] at h
  | array other text' =>
      cases other with
      | none => simp [same] at h
      | some items' =>
          simp only [same, Bool.and_eq_true, beq_iff_eq] at h
          exact ⟨items', by rw [h.2], h.1⟩
  | object members text' => simp [same] at h

theorem same_object {members : List (String × Param)} {text : String} {b : DataType}
    (h : same (.object members text) b = true) :
    ∃ others, b = .object others text ∧ Dict.sameBy sameParam members others = true := by
  cases b with
  | leaf kind text' => simp [same] at h
  | array items text' => cases items <;> simp [same] at h
  | object others text' =>
      rw [same, Bool.and_eq_true, beq_iff_eq, sameMembers_eq] at h
      exact ⟨others, by rw [h.2], h.1⟩

theorem same_description {a b : DataType} (h : same a b = true) :
    a.description = b.description := by
  cases a with
  | leaf kind text => rw [same_leaf h]
  | array items text =>
      cases items with
      | none => rw [same_bare h]
      | some items => obtain ⟨items', rfl, -⟩ := same_array h; rfl
  | object members text => obtain ⟨others, rfl, -⟩ := same_object h; rfl

/-! ### The order of required members -/

/-- The names of the members that may not be left out, in order of declaration. -/
def requiredNames (members : List (String × Param)) : List String :=
  (members.filter (!·.2.optional)).map Prod.fst

/-- Two types list their required members in the same order, at every depth. -/
inductive Aligned : DataType → DataType → Prop
  | leaf (kind kind' : Leaf) (text text' : String) : Aligned (.leaf kind text) (.leaf kind' text')
  | bare (text text' : String) : Aligned (.array none text) (.array none text')
  | array {items items' : DataType} (text text' : String) (h : Aligned items items') :
      Aligned (.array (some items) text) (.array (some items') text')
  | object {members members' : List (String × Param)} (text text' : String)
      (names : requiredNames members = requiredNames members')
      (nested : ∀ key p q, Dict.get? members key = some p → Dict.get? members' key = some q →
        Aligned p.type q.type) :
      Aligned (.object members text) (.object members' text')

theorem aligned_array_iff {items items' : DataType} {text text' : String} :
    Aligned (.array (some items) text) (.array (some items') text') ↔ Aligned items items' :=
  ⟨fun h => by cases h; assumption, fun h => .array text text' h⟩

theorem aligned_object_iff {members members' : List (String × Param)} {text text' : String} :
    Aligned (.object members text) (.object members' text') ↔
      requiredNames members = requiredNames members' ∧
        ∀ key p q, Dict.get? members key = some p → Dict.get? members' key = some q →
          Aligned p.type q.type :=
  ⟨fun h => by cases h with | object _ _ names nested => exact ⟨names, nested⟩,
    fun h => .object text text' h.1 h.2⟩

theorem Aligned.refl (t : DataType) : Aligned t t := by
  induction t using DataType.induct with
  | leaf kind text => exact .leaf kind kind text text
  | bare text => exact .bare text text
  | array items text ih => exact .array text text ih
  | object members text ih =>
      refine .object text text rfl fun key p q hp hq => ?_
      rw [hp, Option.some.injEq] at hq
      rw [← hq]
      exact ih _ (Dict.mem_of_get? hp)

end DataType

namespace OpenApi.Schema

open DataType

/-! ### Descriptions -/

@[simp] theorem describe_type (s : Schema) (text : String) : (s.describe text).type = s.type := by
  unfold describe; split <;> rfl

@[simp] theorem describe_properties (s : Schema) (text : String) :
    (s.describe text).properties = s.properties := by
  unfold describe; split <;> rfl

@[simp] theorem describe_required (s : Schema) (text : String) :
    (s.describe text).required = s.required := by
  unfold describe; split <;> rfl

@[simp] theorem describe_items (s : Schema) (text : String) :
    (s.describe text).items = s.items := by
  unfold describe; split <;> rfl

theorem describe_description (s : Schema) (text : String) :
    (s.describe text).description = if text.isEmpty then s.description else some text := by
  unfold describe; split <;> rfl

theorem keyed_describe {s : Schema} {text : String} : (s.describe text).Keyed ↔ s.Keyed := by
  rw [keyed_iff, keyed_iff, describe_properties, describe_items]

/-- A description that goes on both sides makes no difference to sameness. -/
theorem same_describe {s t : Schema} (h : s.description = t.description) (text : String) :
    same (s.describe text) (t.describe text) = true ↔ same s t = true := by
  rw [same_iff, same_iff]
  simp only [describe_type, describe_properties, describe_required, describe_items,
    describe_description, h]

/-! ### The image of a type -/

theorem ofMembers_eq (members : List (String × Param)) :
    ofMembers members = Dict.mapValues ofParam members := by
  induction members with
  | nil => rfl
  | cons e rest ih =>
      rw [ofMembers, ih]
      rfl

theorem ofParam_eq (p : Param) : ofParam p = ((ofType? p.type).getD {}).describe p.description := by
  obtain ⟨name, type, optional, description⟩ := p
  rw [ofParam]

/-- Only the type without content has no schema. -/
theorem ofType?_isSome_of_same {a b : DataType} (h : DataType.same a b = true) :
    (ofType? a).isSome = (ofType? b).isSome := by
  cases a with
  | leaf kind text => rw [same_leaf h]
  | array items text =>
      cases items with
      | none => rw [same_bare h]
      | some items => obtain ⟨items', rfl, -⟩ := same_array h; simp [ofType?]
  | object members text => obtain ⟨others, rfl, -⟩ := same_object h; simp [ofType?]

/-- The schema of a type carries the text of the type. -/
theorem description_ofType? {t : DataType} {s : Schema} (h : ofType? t = some s) :
    s.description = if t.description.isEmpty then none else some t.description := by
  cases t with
  | leaf kind text =>
      cases kind <;>
        simp only [ofType?, ofLeaf?, Option.map_some, Option.map_none, Option.some.injEq,
          reduceCtorEq] at h <;>
        rw [← h, describe_description] <;> rfl
  | array items text =>
      cases items <;> rw [ofType?, Option.some.injEq] at h <;>
        rw [← h, describe_description] <;> rfl
  | object members text =>
      rw [ofType?, Option.some.injEq] at h
      rw [← h, describe_description]
      by_cases hms : members.isEmpty = true
      · rw [if_pos hms]; rfl
      · rw [if_neg hms]; rfl

theorem description_getD_of_same {a b : DataType} (h : DataType.same a b = true) :
    ((ofType? a).getD {}).description = ((ofType? b).getD {}).description := by
  have hsome := ofType?_isSome_of_same h
  cases ha : ofType? a with
  | none =>
      rw [ha] at hsome
      have hb : ofType? b = none := Option.not_isSome_iff_eq_none.mp (by simp [← hsome])
      rw [hb]
  | some s =>
      rw [ha] at hsome
      obtain ⟨t, hb⟩ := Option.isSome_iff_exists.mp (hsome.symm.trans Option.isSome_some)
      rw [hb]
      show s.description = t.description
      rw [description_ofType? ha, description_ofType? hb, same_description h]

/-- The schema of a keyed type is keyed. -/
theorem keyed_ofType? {t : DataType} (ht : t.Keyed) : ((ofType? t).getD {}).Keyed := by
  have empty : ({} : Schema).Keyed := keyed_iff.mpr ⟨by simp, by simp⟩
  have plain : ∀ name, (named name).Keyed := fun name =>
    keyed_iff.mpr ⟨by simp [named], by simp [named]⟩
  induction t using DataType.induct with
  | leaf kind text =>
      cases kind with
      | nothing => exact empty
      | any => exact keyed_describe.mpr empty
      | bool | number | string => exact keyed_describe.mpr (plain _)
  | bare text =>
      refine keyed_describe.mpr (keyed_iff.mpr ⟨by simp [named], fun i hi => ?_⟩)
      rw [← Option.some.inj hi]
      exact empty
  | array items text ih =>
      rw [DataType.Keyed] at ht
      refine keyed_describe.mpr (keyed_iff.mpr ⟨by simp [named], fun i hi => ?_⟩)
      rw [← Option.some.inj hi]
      exact ih ht
  | object members text ih =>
      obtain ⟨hnodup, hmembers⟩ := keyed_object.mp ht
      rw [ofType?]
      refine keyed_describe.mpr ?_
      by_cases hms : members.isEmpty = true
      · rw [if_pos hms]; exact plain _
      · rw [if_neg hms]
        refine keyed_iff.mpr ⟨fun ps hps => ?_, by simp [named]⟩
        rw [← Option.some.inj hps, ofMembers_eq]
        refine ⟨by rwa [Dict.keys_mapValues], fun e he => ?_⟩
        obtain ⟨e', he', rfl⟩ := List.mem_map.mp he
        show (ofParam e'.2).Keyed
        rw [ofParam_eq]
        exact keyed_describe.mpr (ih e' he' (hmembers e' he'))

/-! ### Same types, same schemas -/

/-- The schema of an object, field by field. -/
theorem ofType?_object (members : List (String × Param)) (text : String) :
    ∃ s : Schema, (ofType? (.object members text)).getD {} = s.describe text ∧
      s.type = some "object" ∧ s.description = none ∧ s.items = none ∧
      s.properties = (if members.isEmpty then none else some (Dict.mapValues ofParam members)) ∧
      s.required =
        (if (requiredNames members).isEmpty then none else some (requiredNames members)) := by
  rw [ofType?, Option.getD_some]
  refine ⟨_, rfl, ?_⟩
  cases members with
  | nil => exact ⟨rfl, rfl, rfl, rfl, rfl⟩
  | cons e rest => exact ⟨rfl, rfl, rfl, by rw [← ofMembers_eq]; rfl, rfl⟩

theorem nonEmpty_list_inj {α : Type} {xs ys : List α} :
    (if xs.isEmpty then none else some xs) = (if ys.isEmpty then none else some ys) ↔ xs = ys := by
  cases xs <;> cases ys <;> simp

/-- The properties of two objects with the same members agree when the schemas of equally named
members do. -/
theorem properties_agree_iff {members others : List (String × Param)}
    (hnodup : (Dict.keys members).Nodup) (hnodup' : (Dict.keys others).Nodup)
    (hsame : Dict.sameBy sameParam members others = true) :
    Option.Rel (fun ps qs => Dict.sameBy same ps qs = true)
        (if members.isEmpty then none else some (Dict.mapValues ofParam members))
        (if others.isEmpty then none else some (Dict.mapValues ofParam others)) ↔
      ∀ key p q, Dict.get? members key = some p → Dict.get? others key = some q →
        same (ofParam p) (ofParam q) = true := by
  have hempty : members.isEmpty = others.isEmpty := by
    have hlen := (Dict.sameBy_eq_true.mp hsame).1
    rw [Bool.eq_iff_iff, List.isEmpty_iff_length_eq_zero, List.isEmpty_iff_length_eq_zero, hlen]
  by_cases hne : members.isEmpty = true
  · rw [if_pos hne, if_pos (hempty ▸ hne)]
    refine iff_of_true .none fun key p q hp => ?_
    rw [List.isEmpty_iff.mp hne] at hp
    cases hp
  · rw [if_neg hne, if_neg (hempty ▸ hne)]
    have hiff : Dict.sameBy same (Dict.mapValues ofParam members) (Dict.mapValues ofParam others)
        = true ↔ _ := Dict.sameBy_iff (by rwa [Dict.keys_mapValues]) (by rwa [Dict.keys_mapValues])
    simp only [Dict.get?_mapValues] at hiff
    constructor
    · intro h key p q hp hq
      cases h with
      | some h =>
          have hkey := hiff.mp h key
          rw [hp, hq] at hkey
          cases hkey with
          | some hpq => exact hpq
    · intro h
      refine .some (hiff.mpr fun key => ?_)
      rcases optionRel_iff.mp ((Dict.sameBy_iff hnodup hnodup').mp hsame key) with
        ⟨hp, hq⟩ | ⟨p, q, hp, hq, -⟩
      · rw [hp, hq]; exact .none
      · rw [hp, hq]; exact .some (h key p q hp hq)

/-- Same types have the same schema exactly when their required members stand in the same order,
at every depth. -/
theorem same_ofType?_iff {a b : DataType} (ha : a.Keyed) (hb : b.Keyed)
    (h : DataType.same a b = true) :
    same ((ofType? a).getD {}) ((ofType? b).getD {}) = true ↔ Aligned a b := by
  induction a using DataType.induct generalizing b with
  | leaf kind text =>
      rw [same_leaf h]
      exact iff_of_true (same_refl (keyed_ofType? ha)) (.leaf kind kind text text)
  | bare text =>
      rw [same_bare h]
      exact iff_of_true (same_refl (keyed_ofType? ha)) (.bare text text)
  | array items text ih =>
      obtain ⟨items', rfl, hitems⟩ := same_array h
      rw [DataType.Keyed] at ha hb
      rw [aligned_array_iff, ← ih ha hb hitems]
      simp only [ofType?, Option.getD_some]
      rw [same_describe (by rfl), same_iff]
      simp [named, optionRel_iff]
  | object members text ih =>
      obtain ⟨others, rfl, hmembers⟩ := same_object h
      obtain ⟨hnodup, hkeyed⟩ := keyed_object.mp ha
      obtain ⟨hnodup', hkeyed'⟩ := keyed_object.mp hb
      obtain ⟨s, hs, htype, hdesc, hitems, hprops, hreq⟩ := ofType?_object members text
      obtain ⟨s', hs', htype', hdesc', hitems', hprops', hreq'⟩ := ofType?_object others text
      have hfields : ∀ key p q, Dict.get? members key = some p → Dict.get? others key = some q →
          (same (ofParam p) (ofParam q) = true ↔ Aligned p.type q.type) := by
        intro key p q hp hq
        have hpq := (Dict.sameBy_iff hnodup hnodup').mp hmembers key
        rw [hp, hq] at hpq
        cases hpq with
        | some hpq =>
            obtain ⟨-, htypes, -, htext⟩ := sameParam_iff.mp hpq
            rw [ofParam_eq, ofParam_eq, htext, same_describe (description_getD_of_same htypes)]
            have hpmem := Dict.mem_of_get? hp
            exact ih _ hpmem (hkeyed _ hpmem) (hkeyed' _ (Dict.mem_of_get? hq)) htypes
      rw [hs, hs', same_describe (by rw [hdesc, hdesc']), same_iff, aligned_object_iff, htype,
        htype', hdesc, hdesc', hitems, hitems', hreq, hreq', nonEmpty_list_inj, hprops, hprops',
        properties_agree_iff hnodup hnodup' hmembers]
      constructor
      · rintro ⟨-, -, hps, hnames, -⟩
        exact ⟨hnames, fun key p q hp hq => (hfields key p q hp hq).mp (hps key p q hp hq)⟩
      · rintro ⟨hnames, hnested⟩
        exact ⟨rfl, rfl, fun key p q hp hq => (hfields key p q hp hq).mpr (hnested key p q hp hq),
          hnames, .none⟩

end OpenApi.Schema

end ApiNotes
