/-
The schema of a type is a faithful image of it.

A type leaves two things unsaid: that the elements of a bare array can be anything, and that a
part without content can be too, since only a whole type without content has no schema.  Spelled
out (`explicit`), these are all that a schema forgets.  The texts are told apart because a part
has none of its own, and the flags because the names in `required` stand in order of declaration
and no name stands there twice.  What a schema says of a type it says of each part, at the same
place.
-/
import ApiNotes.Proofs.TypeParts

namespace ApiNotes

/-! ### Places in a type and in its schema -/

/-- A step into a type: to the elements, or to the member of a name. -/
inductive Hop
  | items
  | member (name : String)
deriving DecidableEq, Repr

namespace DataType

/-- The part of a type that a step leads to. -/
def hop? (t : DataType) : Hop → Option DataType
  | .items => t.items?
  | .member name => (Dict.get? (t.properties?.getD []) name).map (·.type)

/-- The part of a type that a path leads to. -/
def at? (t : DataType) : List Hop → Option DataType
  | [] => some t
  | step :: path => (t.hop? step).bind (at? · path)

/-- Whether the innermost segment of the type's token is a bare `array`. -/
def endsBare : DataType → Bool
  | .array none _ => true
  | .array (some items) _ => endsBare items
  | _ => false

mutual

/-- The type with all that it leaves unsaid: a bare array holds anything, and so does a part
without content. -/
def explicit : DataType → DataType
  | .leaf .nothing _ => .leaf .any ""
  | .leaf kind text => .leaf kind text
  | .array none text => .array (some (.leaf .any "")) text
  | .array (some items) text => .array (some (explicit items)) text
  | .object members text => .object (explicitMembers members) text

/-- The members, each with an explicit type. -/
def explicitMembers : List (String × Param) → List (String × Param)
  | [] => []
  | (key, p) :: rest => (key, explicitParam p) :: explicitMembers rest

/-- The parameter with an explicit type. -/
def explicitParam : Param → Param
  | ⟨name, type, optional, description⟩ => ⟨name, explicit type, optional, description⟩

end

end DataType

namespace OpenApi.Schema

open DataType

/-- The part of a schema that a step leads to. -/
def hop? (s : Schema) : Hop → Option Schema
  | .items => s.items
  | .member name => Dict.get? (s.properties.getD []) name

/-- The part of a schema that a path leads to. -/
def at? (s : Schema) : List Hop → Option Schema
  | [] => some s
  | step :: path => (s.hop? step).bind (at? · path)

/-- The number of schemas of elements, one inside the other. -/
def itemLevels : Schema → Nat
  | ⟨_, _, _, _, none⟩ => 0
  | ⟨_, _, _, _, some items⟩ => itemLevels items + 1

/-- A schema has the members and the levels of a type. -/
structure Mirrors (s : Schema) (t : DataType) : Prop where
  keys : Dict.keys (s.properties.getD []) = Dict.keys (t.properties?.getD [])
  required : ∀ e ∈ t.properties?.getD [], e.1 ∈ s.required.getD [] ↔ e.2.optional = false
  declared : ∀ name ∈ s.required.getD [], name ∈ Dict.keys (t.properties?.getD [])
  levels : s.itemLevels = t.depth - 1 + (if t.endsBare then 1 else 0)

/-! ### Texts -/

theorem describe_empty (s : Schema) : s.describe "" = s := rfl

/-- A schema that had no text keeps the one that it gets. -/
theorem describe_inj {s s' : Schema} (h : s.description = none) (h' : s'.description = none)
    {text text' : String} : s.describe text = s'.describe text' ↔ s = s' ∧ text = text' := by
  constructor
  · intro heq
    have hdescription := congrArg description heq
    rw [describe_description, describe_description, h, h'] at hdescription
    have htext : text = text' := by
      by_cases he : text = ""
      · by_cases he' : text' = ""
        · rw [he, he']
        · simp [he, he'] at hdescription
      · by_cases he' : text' = ""
        · simp [he, he'] at hdescription
        · simpa [he, he'] using hdescription
    refine ⟨?_, htext⟩
    have htype : s.type = s'.type := by simpa using congrArg type heq
    have hproperties : s.properties = s'.properties := by simpa using congrArg properties heq
    have hrequired : s.required = s'.required := by simpa using congrArg required heq
    have hitems : s.items = s'.items := by simpa using congrArg items heq
    cases s
    cases s'
    rw [Schema.mk.injEq]
    exact ⟨htype, h.trans h'.symm, hproperties, hrequired, hitems⟩
  · rintro ⟨rfl, rfl⟩
    rfl

theorem itemLevels_of_none {s : Schema} (h : s.items = none) : s.itemLevels = 0 := by
  cases s
  obtain rfl := h
  rw [itemLevels]

theorem itemLevels_of_some {s items : Schema} (h : s.items = some items) :
    s.itemLevels = items.itemLevels + 1 := by
  cases s
  obtain rfl := h
  rw [itemLevels]

theorem itemLevels_describe (s : Schema) (text : String) :
    (s.describe text).itemLevels = s.itemLevels := by
  cases hitems : s.items with
  | none => rw [itemLevels_of_none hitems, itemLevels_of_none (by rw [describe_items, hitems])]
  | some items =>
      rw [itemLevels_of_some hitems, itemLevels_of_some (by rw [describe_items, hitems])]

/-! ### Images -/

/-- The schema of a type as a part of another, where having no content is no restriction. -/
def image (t : DataType) : Schema := (ofType? t).getD {}

/-- The elements of an array, of any type where a bare array says nothing of them. -/
def elements (items : Option DataType) : DataType := items.getD (.leaf .any "")

/-- The image of a type without its text. -/
def core : DataType → Schema
  | .leaf kind _ => (ofLeaf? kind).getD {}
  | .array items _ => { named "array" with items := some (image (elements items)) }
  | .object members _ =>
    { named "object" with
      properties := if members.isEmpty then none else some (Dict.mapValues ofParam members)
      required := if (requiredNames members).isEmpty then none else some (requiredNames members) }

theorem description_core (t : DataType) : (core t).description = none := by
  cases t with
  | leaf kind text => cases kind <;> rfl
  | array items text => rfl
  | object members text => rfl

/-- The text that a schema shows; that of a type without content is lost. -/
def shownText : DataType → String
  | .leaf .nothing _ => ""
  | t => t.description

theorem image_eq (t : DataType) : image t = (core t).describe (shownText t) := by
  cases t with
  | leaf kind text => cases kind <;> rfl
  | array items text => cases items <;> rfl
  | object members text =>
      obtain ⟨s, hs, htype, hdescription, hitems, hproperties, hrequired⟩ :=
        ofType?_object members text
      have hcore : s = core (.object members text) := by
        cases s
        rw [core, Schema.mk.injEq]
        exact ⟨htype, hdescription, hproperties, hrequired, hitems⟩
      rw [image, hs, hcore]
      rfl

theorem ofParam_image (p : Param) : ofParam p = (image p.type).describe p.description :=
  ofParam_eq p

theorem shownText_of_plain {t : DataType} (h : t.description = "") : shownText t = "" := by
  cases t with
  | leaf kind text => cases kind <;> first | rfl | exact h
  | array items text => exact h
  | object members text => exact h

/-- So the image of a part has no text. -/
theorem description_image {t : DataType} (h : t.description = "") :
    (image t).description = none := by
  rw [image_eq, shownText_of_plain h, describe_empty]
  exact description_core t

/-! ### What images tell apart -/

theorem image_eq_iff_core {a b : DataType} :
    image a = image b ↔ core a = core b ∧ shownText a = shownText b := by
  rw [image_eq, image_eq]
  exact describe_inj (description_core a) (description_core b)

theorem image_ne_of_type {a b : DataType} (h : (core a).type ≠ (core b).type) :
    image a ≠ image b := by
  intro himage
  exact h (congrArg type (image_eq_iff_core.mp himage).1)

theorem image_leaf_iff {kind : Leaf} {text : String} {b : DataType} :
    image (.leaf kind text) = image b ↔ (DataType.leaf kind text).explicit = b.explicit := by
  cases b with
  | leaf kind' text' =>
      rw [image_eq_iff_core]
      cases kind <;> cases kind' <;> simp [core, ofLeaf?, named, shownText, explicit,
        DataType.description]
  | array items text' =>
      refine iff_of_false (image_ne_of_type ?_) ?_
      · cases kind <;> simp [core, ofLeaf?, named]
      · cases kind <;> cases items <;> simp [explicit]
  | object members text' =>
      refine iff_of_false (image_ne_of_type ?_) ?_
      · cases kind <;> simp [core, ofLeaf?, named]
      · cases kind <;> simp [explicit]

theorem explicit_array (items : Option DataType) (text : String) :
    (DataType.array items text).explicit = .array (some (elements items).explicit) text := by
  cases items <;> simp [explicit, elements]

theorem image_array_object {items : Option DataType} {members : Dict Param} {text text' : String} :
    image (.array items text) ≠ image (.object members text') := by
  apply image_ne_of_type
  simp [core, named]

/-- The images of two arrays agree when those of their elements do, and their texts. -/
theorem image_array_iff {items items' : Option DataType} {text text' : String} :
    image (.array items text) = image (.array items' text') ↔
      image (elements items) = image (elements items') ∧ text = text' := by
  rw [image_eq_iff_core, core, core]
  simp [shownText, DataType.description, named]

/-- The images of two objects agree when their members do, and the names that are required. -/
theorem image_object_iff {members others : Dict Param} {text text' : String} :
    image (.object members text) = image (.object others text') ↔
      (Dict.mapValues ofParam members = Dict.mapValues ofParam others ∧
        requiredNames members = requiredNames others) ∧ text = text' := by
  have hempty : ∀ ms : Dict Param, (Dict.mapValues ofParam ms).isEmpty = ms.isEmpty := by
    intro ms
    exact List.isEmpty_map
  rw [image_eq_iff_core, core, core, Schema.mk.injEq, ← hempty members, ← hempty others,
    nonEmpty_list_inj, nonEmpty_list_inj]
  simp [shownText, DataType.description, named]

/-! ### Members -/

theorem explicitMembers_eq (members : Dict Param) :
    explicitMembers members = Dict.mapValues explicitParam members := by
  induction members with
  | nil => rfl
  | cons e rest ih =>
      rw [explicitMembers, ih]
      rfl

theorem requiredNames_cons (e : String × Param) (rest : Dict Param) :
    requiredNames (e :: rest) =
      if e.2.optional then requiredNames rest else e.1 :: requiredNames rest := by
  rw [requiredNames, List.filter_cons]
  cases e.2.optional <;> rfl

/-- A required member is told from an optional one, since its name stands nowhere below. -/
theorem requiredNames_cons_ne {e e' : String × Param} {rest rest' : Dict Param}
    (ho : e.2.optional = false) (ho' : e'.2.optional = true) (h : e.1 ∉ Dict.keys rest') :
    requiredNames (e :: rest) ≠ requiredNames (e' :: rest') := by
  intro heq
  rw [requiredNames_cons, requiredNames_cons, if_neg (by simp [ho]), if_pos ho'] at heq
  have hlisted : e.1 ∈ requiredNames rest' := by
    rw [← heq]
    exact List.mem_cons_self
  obtain ⟨found, hfound, hname⟩ := List.mem_map.mp hlisted
  rw [← hname] at h
  exact h (List.mem_map_of_mem (List.mem_of_mem_filter hfound))

theorem requiredNames_cons_iff {e e' : String × Param} {rest rest' : Dict Param}
    (hkey : e.1 = e'.1) (h : e.1 ∉ Dict.keys rest) (h' : e'.1 ∉ Dict.keys rest') :
    requiredNames (e :: rest) = requiredNames (e' :: rest') ↔
      e.2.optional = e'.2.optional ∧ requiredNames rest = requiredNames rest' := by
  cases ho : e.2.optional with
  | false =>
      cases ho' : e'.2.optional with
      | false => simp [requiredNames_cons, ho, ho', hkey]
      | true => exact iff_of_false (requiredNames_cons_ne ho ho' (by rwa [hkey])) (by simp)
  | true =>
      cases ho' : e'.2.optional with
      | false =>
          refine iff_of_false ?_ (by simp)
          exact (requiredNames_cons_ne ho' ho (by rwa [← hkey])).symm
      | true => simp [requiredNames_cons, ho, ho']

/-- The images of named members tell all of them apart that the images of their types do. -/
theorem members_image_iff {members others : Dict Param} (hnodup : (Dict.keys members).Nodup)
    (hnodup' : (Dict.keys others).Nodup) (hnamed : ∀ e ∈ members, e.1 = e.2.name)
    (hnamed' : ∀ e ∈ others, e.1 = e.2.name)
    (hparts : ∀ e ∈ members, ∀ e' ∈ others, ofParam e.2 = ofParam e'.2 ↔
      e.2.type.explicit = e'.2.type.explicit ∧ e.2.description = e'.2.description) :
    (Dict.mapValues ofParam members = Dict.mapValues ofParam others ∧
        requiredNames members = requiredNames others) ↔
      explicitMembers members = explicitMembers others := by
  rw [explicitMembers_eq, explicitMembers_eq]
  induction members generalizing others with
  | nil => cases others <;> simp [Dict.mapValues, requiredNames]
  | cons e rest ih =>
      cases others with
      | nil => simp [Dict.mapValues]
      | cons e' rest' =>
          obtain ⟨hfirst, hnodup⟩ := List.nodup_cons.mp hnodup
          obtain ⟨hfirst', hnodup'⟩ := List.nodup_cons.mp hnodup'
          rw [List.forall_mem_cons] at hnamed hnamed'
          have hpart := hparts e List.mem_cons_self e' List.mem_cons_self
          have hrest := ih hnodup hnodup' hnamed.2 hnamed'.2 fun f hf f' hf' =>
            hparts f (List.mem_cons_of_mem e hf) f' (List.mem_cons_of_mem e' hf')
          by_cases hkey : e.1 = e'.1
          · have hname : e.2.name = e'.2.name := by
              rw [← hnamed.1, ← hnamed'.1, hkey]
            obtain ⟨key, name, type, optional, description⟩ := e
            obtain ⟨key', name', type', optional', description'⟩ := e'
            rw [requiredNames_cons_iff hkey hfirst hfirst']
            simp only [Dict.mapValues, List.map_cons, List.cons.injEq, Prod.mk.injEq, explicitParam,
              Param.mk.injEq] at hpart hrest hkey hname ⊢
            rw [hpart, ← hrest]
            tauto
          · simp [Dict.mapValues, hkey]

theorem tidy_elements {items : Option DataType} {text : String}
    (h : (DataType.array items text).Tidy) : (elements items).Tidy := by
  cases items with
  | none => exact (parsed_leaf .any "").toTidy
  | some items => exact h.items.2

theorem image_eq_iff_of_elements (items : Option DataType) {text : String}
    (ih : ∀ {b : DataType}, b.Tidy →
      (image (elements items) = image b ↔ (elements items).explicit = b.explicit))
    {b : DataType} (hb : b.Tidy) :
    image (.array items text) = image b ↔ (DataType.array items text).explicit = b.explicit := by
  cases b with
  | leaf kind text' => rw [eq_comm, image_leaf_iff, eq_comm]
  | array items' text' =>
      rw [image_array_iff, ih (tidy_elements hb), explicit_array, explicit_array]
      simp
  | object members text' =>
      refine iff_of_false image_array_object ?_
      rw [explicit_array, explicit]
      simp

/-- **Images tell types apart that differ once they are spelled out, and no others.** -/
theorem image_eq_iff {a b : DataType} (ha : a.Tidy) (hb : b.Tidy) :
    image a = image b ↔ a.explicit = b.explicit := by
  induction a using DataType.induct generalizing b with
  | leaf kind text => exact image_leaf_iff
  | bare text => exact image_eq_iff_of_elements none (fun _ => image_leaf_iff) hb
  | array items text ih => exact image_eq_iff_of_elements (some items) (fun h => ih ha.items.2 h) hb
  | object members text ih =>
      cases b with
      | leaf kind text' => rw [eq_comm, image_leaf_iff, eq_comm]
      | array items text' =>
          refine iff_of_false image_array_object.symm ?_
          rw [explicit_array, explicit]
          simp
      | object others text' =>
          have htable := (tidy_iff.mp ha).1 members rfl
          have htable' := (tidy_iff.mp hb).1 others rfl
          have hparts : ∀ e ∈ members, ∀ e' ∈ others, ofParam e.2 = ofParam e'.2 ↔
              e.2.type.explicit = e'.2.type.explicit ∧ e.2.description = e'.2.description := by
            intro e he e' he'
            obtain ⟨hplain, htidy⟩ := ha.member he
            obtain ⟨hplain', htidy'⟩ := hb.member he'
            rw [ofParam_image, ofParam_image,
              describe_inj (description_image hplain) (description_image hplain'),
              ih e he htidy htidy']
          rw [image_object_iff,
            members_image_iff htable.1 htable'.1 htable.2 htable'.2 hparts, explicit, explicit]
          simp

/-! ### What a schema says at each place -/

theorem ofType?_eq_none {t : DataType} : ofType? t = none ↔ t.kind = .leaf .nothing := by
  cases t with
  | leaf kind text => cases kind <;> simp [ofType?, ofLeaf?, DataType.kind]
  | array items text => cases items <;> simp [ofType?, DataType.kind]
  | object members text => simp [ofType?, DataType.kind]

theorem ofType?_eq_image {t : DataType} (h : t.kind ≠ .leaf .nothing) :
    ofType? t = some (image t) := by
  cases hs : ofType? t with
  | none => exact absurd (ofType?_eq_none.mp hs) h
  | some s => rw [image, hs, Option.getD_some]

theorem properties_image (t : DataType) :
    (image t).properties.getD [] = Dict.mapValues ofParam (t.properties?.getD []) := by
  rw [image_eq, describe_properties]
  cases t with
  | leaf kind text => cases kind <;> rfl
  | array items text => cases items <;> rfl
  | object members text => cases members <;> rfl

theorem required_image (t : DataType) :
    (image t).required.getD [] = requiredNames (t.properties?.getD []) := by
  rw [image_eq, describe_required]
  cases t with
  | leaf kind text => cases kind <;> rfl
  | array items text => cases items <;> rfl
  | object members text =>
      rw [core, properties?, Option.getD_some]
      cases requiredNames members <;> rfl

theorem items_image_array (items : Option DataType) (text : String) :
    (image (.array items text)).items = some (image (elements items)) := by
  rw [image_eq, describe_items, core]

theorem items_image_of_ne {t : DataType} (h : t.kind ≠ .array) : (image t).items = none := by
  rw [image_eq, describe_items]
  cases t with
  | leaf kind text => cases kind <;> rfl
  | array items text => exact absurd rfl h
  | object members text => rfl

theorem one_le_depth (t : DataType) : 1 ≤ t.depth := by
  induction t using DataType.induct with
  | leaf kind text => simp [depth]
  | bare text => simp [depth]
  | array items text _ =>
      rw [depth]
      omega
  | object members text _ => simp [depth]

theorem itemLevels_image (t : DataType) :
    (image t).itemLevels = t.depth - 1 + (if t.endsBare then 1 else 0) := by
  induction t using DataType.induct with
  | leaf kind text =>
      rw [itemLevels_of_none (items_image_of_ne (by simp [DataType.kind]))]
      simp [depth, endsBare]
  | bare text =>
      rw [itemLevels_of_some (items_image_array none text), elements, Option.getD_none,
        itemLevels_of_none (items_image_of_ne (by simp [DataType.kind]))]
      simp [depth, endsBare]
  | array items text ih =>
      have hdepth := one_le_depth items
      rw [itemLevels_of_some (items_image_array (some items) text), elements, Option.getD_some, ih,
        depth, endsBare]
      omega
  | object members text _ =>
      rw [itemLevels_of_none (items_image_of_ne (by simp [DataType.kind]))]
      simp [depth, endsBare]

/-- The schema of a type says of the type itself what it should. -/
theorem mirrors_image {t : DataType} (h : t.Tidy) (text : String) :
    ((image t).describe text).Mirrors t := by
  have hkeys : Dict.keys ((image t).properties.getD []) = Dict.keys (t.properties?.getD []) := by
    rw [properties_image, Dict.keys_mapValues]
  have hrequired : ∀ name, name ∈ requiredNames (t.properties?.getD []) ↔
      ∃ e ∈ t.properties?.getD [], e.2.optional = false ∧ e.1 = name := by
    intro name
    simp [requiredNames, and_assoc]
  have hnodup : (Dict.keys (t.properties?.getD [])).Nodup := by
    cases hmembers : t.properties? with
    | none => exact List.nodup_nil
    | some members => exact ((tidy_iff.mp h).1 members hmembers).1
  refine ⟨by rw [describe_properties, hkeys], ?_, ?_, ?_⟩
  · intro e he
    rw [describe_required, required_image, hrequired]
    constructor
    · rintro ⟨found, hfound, hoptional, hname⟩
      rw [← List.inj_on_of_nodup_map hnodup hfound he hname]
      exact hoptional
    · intro hoptional
      exact ⟨e, he, hoptional, rfl⟩
  · intro name hname
    rw [describe_required, required_image, hrequired] at hname
    obtain ⟨e, he, -, rfl⟩ := hname
    exact List.mem_map_of_mem he
  · rw [itemLevels_describe, itemLevels_image]

/-- A step that leads into a type leads into its schema, to the image of the part. -/
theorem hop?_image {t u : DataType} {step : Hop} (h : t.hop? step = some u) (text : String) :
    ∃ text', ((image t).describe text).hop? step = some ((image u).describe text') := by
  cases step with
  | items =>
      refine ⟨"", ?_⟩
      rw [hop?, describe_items, describe_empty]
      cases t with
      | leaf kind old => cases h
      | array items old =>
          obtain rfl : items = some u := h
          exact items_image_array (some u) old
      | object members old => cases h
  | member name =>
      obtain ⟨p, hp, rfl⟩ := Option.map_eq_some_iff.mp h
      refine ⟨p.description, ?_⟩
      rw [hop?, describe_properties, properties_image, Dict.get?_mapValues, hp, Option.map_some,
        ofParam_image]

theorem tidy_of_hop? {t u : DataType} (ht : t.Tidy) {step : Hop} (h : t.hop? step = some u) :
    u.Tidy := by
  cases step with
  | items => exact ((tidy_iff.mp ht).2 u (.items h)).2
  | member name =>
      obtain ⟨p, hp, rfl⟩ := Option.map_eq_some_iff.mp h
      cases hmembers : t.properties? with
      | none =>
          rw [hmembers] at hp
          cases hp
      | some members =>
          rw [hmembers] at hp
          exact ((tidy_iff.mp ht).2 p.type (.member hmembers (Dict.mem_of_get? hp))).2

theorem at?_image {path : List Hop} {t u : DataType} (ht : t.Tidy) (h : t.at? path = some u)
    (text : String) : ∃ s, ((image t).describe text).at? path = some s ∧ s.Mirrors u := by
  induction path generalizing t text with
  | nil =>
      obtain rfl := Option.some.inj h
      exact ⟨_, rfl, mirrors_image ht text⟩
  | cons step path ih =>
      obtain ⟨next, hnext, h⟩ := Option.bind_eq_some_iff.mp h
      obtain ⟨text', hhop⟩ := hop?_image hnext text
      rw [Schema.at?, hhop, Option.bind_some]
      exact ih (tidy_of_hop? ht hnext) h text'

/-- **Schemas are faithful images of types.**  Only a type without content has none; two others
have the same schema exactly when they are the same type once they are spelled out; and at each
place of a type the schema has the same members, those required that are not optional, and as
many levels of elements as the type has arrays. -/
theorem ofType?_faithful {a b : DataType} (ha : a.Tidy) (hb : b.Tidy) :
    (ofType? a = none ↔ a.kind = .leaf .nothing) ∧
    (a.kind ≠ .leaf .nothing → b.kind ≠ .leaf .nothing →
      (ofType? a = ofType? b ↔ a.explicit = b.explicit)) ∧
    ∀ schema, ofType? a = some schema → ∀ path u, a.at? path = some u →
      ∃ s, schema.at? path = some s ∧ s.Mirrors u := by
  refine ⟨ofType?_eq_none, ?_, ?_⟩
  · intro hsome hsome'
    rw [ofType?_eq_image hsome, ofType?_eq_image hsome', Option.some.injEq, image_eq_iff ha hb]
  · intro schema hschema path u hu
    have himage : image a = schema := by rw [image, hschema, Option.getD_some]
    rw [← himage, ← describe_empty (image a)]
    exact at?_image ha hu ""

/-- A page of entries, each with tags that may be left out and a link that may not. -/
def pageOf (tags link : DataType) : DataType :=
  .array (some (.object [("tags", ⟨"tags", tags, true, "its tags"⟩),
    ("link", ⟨"link", link, false, ""⟩)] "")) "a page"

theorem tidy_pageOf {tags link : DataType} (htags : tags.Parsed) (hlink : link.Parsed)
    (hplain : tags.description = "") (hplain' : link.description = "") :
    (pageOf tags link).Tidy := by
  apply DataType.Parsed.toTidy
  apply parsed_array_iff.mpr
  intro items hitems
  obtain rfl := Option.some.inj hitems
  refine ⟨rfl, parsed_object_iff.mpr ⟨by simp [Dict.keys], by simp, ?_⟩⟩
  rw [List.forall_mem_cons, List.forall_mem_singleton]
  exact ⟨⟨by simp, hplain, htags⟩, ⟨by simp, hplain', hlink⟩⟩

theorem ofType?_pageOf :
    ofType? (pageOf (.array none "") (.leaf .nothing "")) =
      ofType? (pageOf (.array (some (.leaf .any "")) "") (.leaf .any "")) ∧
    ∃ schema s, ofType? (pageOf (.array none "") (.leaf .nothing "")) = some schema ∧
      schema.at? [.items] = some s ∧ "link" ∈ s.required.getD [] ∧ "tags" ∉ s.required.getD [] := by
  have hbare : (DataType.array none "").Parsed := parsed_array_iff.mpr (by simp)
  have hopen : (DataType.array (some (.leaf .any "")) "").Parsed := by
    apply parsed_array_iff.mpr
    intro items hitems
    obtain rfl := Option.some.inj hitems
    exact ⟨rfl, parsed_leaf .any ""⟩
  obtain ⟨-, hiff, hplaces⟩ := ofType?_faithful
    (tidy_pageOf hbare (parsed_leaf .nothing "") rfl rfl)
    (tidy_pageOf hopen (parsed_leaf .any "") rfl rfl)
  refine ⟨(hiff (by simp [pageOf, DataType.kind]) (by simp [pageOf, DataType.kind])).mpr rfl, ?_⟩
  obtain ⟨s, hs, hmirrors⟩ := hplaces _ rfl [.items] _ rfl
  refine ⟨_, s, rfl, hs, ?_, ?_⟩
  · exact (hmirrors.required ("link", _) (.tail _ (.head _))).mpr rfl
  · intro htags
    exact absurd ((hmirrors.required ("tags", _) (.head _)).mp htags) (by simp)

end OpenApi.Schema

end ApiNotes
