/-
Schemas of types are sound at every depth.

Types are built from leaves, arrays and empty objects, read from tokens, and extended member
by member.  A member that comes again takes the place of the one before it, so the members of
such a type have distinct names at every depth (`Built.keyed`).  The schema of a type with
distinct members has elements exactly when it is an array, properties only when it is an
object, and a list of required properties that makes sense; and the same holds of every schema
inside it, since those are schemas of the parts of the type.
-/
import ApiNotes.Proofs.TypeImages

namespace ApiNotes

namespace DataType

/-! ### Types, as they are built -/

/-- The types that can be built. -/
inductive Built : DataType → Prop
  | leaf (kind : Leaf) (text : String) : Built (.leaf kind text)
  | bare (text : String) : Built (.array none text)
  | array {items : DataType} (h : Built items) (text : String) : Built (.array (some items) text)
  | object (text : String) : Built (.object [] text)
  /-- A type read from a token. -/
  | parsed {token : String} {t : DataType} (h : parse token = .ok t) : Built t
  /-- A type with another text. -/
  | described {t : DataType} (h : Built t) (text : String) : Built (t.withDescription text)
  /-- A type with one member more, at any depth. -/
  | attached {t t' : DataType} {p : Param} (ht : Built t) (hp : Built p.type) (key : String)
      (parents : List String) (h : t.attach? key p parents = some t') : Built t'

/-- Members under distinct names, with types that have distinct members at every depth. -/
structure KeyedTable (members : Dict Param) : Prop where
  nodup : (Dict.keys members).Nodup
  keyed : ∀ e ∈ members, e.2.type.Keyed

theorem keyed_object_iff {members : List (String × Param)} {text : String} :
    (DataType.object members text).Keyed ↔ KeyedTable members :=
  keyed_object.trans ⟨fun h => ⟨h.1, h.2⟩, fun h => ⟨h.nodup, h.keyed⟩⟩

theorem KeyedTable.insert {members : Dict Param} (h : KeyedTable members) {p : Param}
    (hp : p.type.Keyed) (key : String) : KeyedTable (Dict.insert members key p) where
  nodup := Dict.nodup_keys_insert h.nodup key p
  keyed := by
    intro e he
    rcases Dict.mem_insert he with he | rfl
    · exact h.keyed e he
    · exact hp

/-- A change of members that keeps them keyed keeps the type keyed. -/
theorem Keyed.mapMembers? {f : Dict Param → Option (Dict Param)}
    (hf : ∀ ms ms', KeyedTable ms → f ms = some ms' → KeyedTable ms') {t t' : DataType}
    (ht : t.Keyed) (h : t.mapMembers? f = some t') : t'.Keyed := by
  induction t using DataType.induct generalizing t' with
  | leaf kind text => cases h
  | bare text => cases h
  | array items text ih =>
      rw [DataType.mapMembers?, Option.map_eq_some_iff] at h
      obtain ⟨items', hitems, rfl⟩ := h
      rw [Keyed] at ht ⊢
      exact ih ht hitems
  | object members text _ =>
      rw [DataType.mapMembers?, Option.map_eq_some_iff] at h
      obtain ⟨members', hmembers, rfl⟩ := h
      rw [keyed_object_iff] at ht ⊢
      exact hf members members' ht hmembers

theorem Keyed.attach? {key : String} {p : Param} (hp : p.type.Keyed) :
    ∀ {parents : List String} {t t' : DataType}, t.Keyed → t.attach? key p parents = some t' →
      t'.Keyed := by
  intro parents
  induction parents with
  | nil =>
      intro t t' ht h
      refine Keyed.mapMembers? (fun ms ms' hms hinsert => ?_) ht h
      rw [← Option.some.inj hinsert]
      exact hms.insert hp key
  | cons parent parents ih =>
      intro t t' ht h
      refine Keyed.mapMembers? (fun ms ms' hms hinsert => ?_) ht h
      obtain ⟨holder, hholder, hinsert⟩ := Option.bind_eq_some_iff.mp hinsert
      obtain ⟨type, htype, hinsert⟩ := Option.bind_eq_some_iff.mp hinsert
      rw [← Option.some.inj hinsert]
      exact hms.insert (p := { holder with type })
        (ih (hms.keyed _ (Dict.mem_of_get? hholder)) htype) parent

theorem keyed_ofKeyword? {segment : List Char} {t : DataType} (h : ofKeyword? segment = some t) :
    t.Keyed := by
  unfold ofKeyword? at h
  split at h
  · rw [← Option.some.inj h]
    trivial
  · rw [← Option.some.inj h]
    exact keyed_object_iff.mpr ⟨List.nodup_nil, by simp⟩
  · obtain ⟨kind, -, rfl⟩ := Option.map_eq_some_iff.mp h
    trivial

theorem keyed_ofSegments? {segments : List (List Char)} :
    ∀ {t : DataType}, ofSegments? segments = some t → t.Keyed := by
  induction segments with
  | nil => intro t h; cases h
  | cons segment rest ih =>
      intro t h
      cases rest with
      | nil => exact keyed_ofKeyword? h
      | cons next rest =>
          rw [ofSegments?] at h
          · split at h
            · obtain ⟨items, hitems, rfl⟩ := Option.map_eq_some_iff.mp h
              rw [Keyed]
              exact ih hitems
            · cases h
          · simp

theorem keyed_of_parse {token : String} {t : DataType} (h : parse token = .ok t) : t.Keyed := by
  unfold parse at h
  split at h
  next found hfound => rw [← Except.ok.inj h]; exact keyed_ofSegments? hfound
  next => cases h

theorem keyed_withDescription {t : DataType} {text : String} :
    (t.withDescription text).Keyed ↔ t.Keyed := by
  cases t with
  | leaf kind old => exact Iff.rfl
  | array items old => cases items <;> exact Iff.rfl
  | object members old => rw [withDescription, keyed_object_iff, keyed_object_iff]

/-- The members of a type that was built have distinct names at every depth. -/
theorem Built.keyed {t : DataType} (h : t.Built) : t.Keyed := by
  induction h with
  | leaf kind text => trivial
  | bare text => trivial
  | array h text ih => exact ih
  | object text => exact keyed_object_iff.mpr ⟨List.nodup_nil, by simp⟩
  | parsed h => exact keyed_of_parse h
  | described h text ih => exact keyed_withDescription.mpr ih
  | attached ht hp key parents h iht ihp => exact Keyed.attach? ihp iht h

end DataType

namespace OpenApi.Schema

/-! ### Schemas at every depth -/

/-- A schema stands in another one: it is that one, or stands in a property or the elements. -/
inductive Within (s : Schema) : Schema → Prop
  | here : Within s s
  | property {t : Schema} {ps : List (String × Schema)} (hps : t.properties = some ps)
      {e : String × Schema} (he : e ∈ ps) (h : Within s e.2) : Within s t
  | items {t i : Schema} (hi : t.items = some i) (h : Within s i) : Within s t

/-- What a schema says fits together. -/
structure Fits (s : Schema) : Prop where
  items : s.items.isSome = true ↔ s.type = some "array"
  properties : s.properties.isSome = true → s.type = some "object"
  /-- What is required is some of the properties, in their order and each once. -/
  required : ∀ names, s.required = some names → names ≠ [] ∧ names.Nodup ∧
    ∃ ps, s.properties = some ps ∧ names.Sublist (Dict.keys ps)

/-- Every schema in this one fits, at any depth. -/
def Sound (t : Schema) : Prop := ∀ s, Within s t → s.Fits

theorem sound_iff {t : Schema} :
    t.Sound ↔ t.Fits ∧ (∀ ps, t.properties = some ps → ∀ e ∈ ps, e.2.Sound) ∧
      ∀ i, t.items = some i → i.Sound := by
  constructor
  · intro h
    refine ⟨h t .here, ?_, ?_⟩
    · intro ps hps e he s hs
      exact h s (.property hps he hs)
    · intro i hi s hs
      exact h s (.items hi hs)
  · rintro ⟨hfits, hproperties, hitems⟩ s hs
    cases hs with
    | here => exact hfits
    | property hps he hs => exact hproperties _ hps _ he s hs
    | items hi hs => exact hitems _ hi s hs

/-- A description does not count. -/
theorem sound_withDescription {s : Schema} {text : Option String} :
    ({ s with description := text } : Schema).Sound ↔ s.Sound := by
  have hfits : ({ s with description := text } : Schema).Fits ↔ s.Fits :=
    ⟨fun ⟨hitems, hproperties, hrequired⟩ => ⟨hitems, hproperties, hrequired⟩,
      fun ⟨hitems, hproperties, hrequired⟩ => ⟨hitems, hproperties, hrequired⟩⟩
  rw [sound_iff, sound_iff, hfits]

theorem sound_describe {s : Schema} {text : String} : (s.describe text).Sound ↔ s.Sound := by
  unfold describe
  by_cases hempty : text.isEmpty = true
  · rw [if_pos hempty]
  · rw [if_neg hempty, sound_withDescription]

/-- A schema without parts. -/
theorem sound_plain {s : Schema} (hitems : s.items = none) (hproperties : s.properties = none)
    (hrequired : s.required = none) (htype : s.type ≠ some "array") : s.Sound := by
  refine sound_iff.mpr ⟨⟨?_, ?_, ?_⟩, ?_, ?_⟩
  · simp [hitems, htype]
  · simp [hproperties]
  · simp [hrequired]
  · simp [hproperties]
  · simp [hitems]

theorem sound_empty : ({} : Schema).Sound := sound_plain rfl rfl rfl (by simp)

theorem sound_named {name : String} (h : name ≠ "array") : (named name).Sound :=
  sound_plain rfl rfl rfl fun heq => h (Option.some.inj heq)

/-- The schema of every header. -/
theorem sound_string : (named "string").Sound := sound_named (by decide)

/-- An array of elements with a sound schema. -/
theorem sound_array {i : Schema} (h : i.Sound) :
    ({ named "array" with items := some i }).Sound := by
  refine sound_iff.mpr ⟨⟨?_, ?_, ?_⟩, ?_, ?_⟩
  · simp [named]
  · simp [named]
  · simp [named]
  · simp [named]
  · intro i' hi'
    rwa [← Option.some.inj hi']

/-- An object that requires members has them, in their order and each once. -/
theorem required_object {members : List (String × Param)} (hnodup : (Dict.keys members).Nodup)
    {names : List String}
    (h : (if (DataType.requiredNames members).isEmpty then none
      else some (DataType.requiredNames members)) = some names) :
    names ≠ [] ∧ names.Nodup ∧
      ∃ ps, (if members.isEmpty then none else some (Dict.mapValues ofParam members)) = some ps ∧
        names.Sublist (Dict.keys ps) := by
  have hsub : (DataType.requiredNames members).Sublist (Dict.keys members) :=
    List.Sublist.map Prod.fst List.filter_sublist
  by_cases hempty : (DataType.requiredNames members).isEmpty = true
  · rw [if_pos hempty] at h
    cases h
  · rw [if_neg hempty, Option.some.injEq] at h
    subst h
    have hne : DataType.requiredNames members ≠ [] := by simpa using hempty
    have hmembers : ¬members.isEmpty = true := by
      intro hnone
      rw [List.isEmpty_iff.mp hnone] at hne
      exact hne rfl
    refine ⟨hne, hsub.nodup hnodup, _, if_neg hmembers, ?_⟩
    rwa [Dict.keys_mapValues]

/-- An object, the properties of which have sound schemas. -/
theorem sound_object {members : List (String × Param)} {text : String}
    (hnodup : (Dict.keys members).Nodup) (hmembers : ∀ e ∈ members, (ofParam e.2).Sound) :
    ((ofType? (.object members text)).getD {}).Sound := by
  obtain ⟨s, hs, htype, -, hitems, hproperties, hrequired⟩ := ofType?_object members text
  rw [hs, sound_describe]
  refine sound_iff.mpr ⟨⟨?_, fun _ => htype, fun names hnames => ?_⟩, fun ps hps e he => ?_, ?_⟩
  · simp [hitems, htype]
  · rw [hrequired] at hnames
    rw [hproperties]
    exact required_object hnodup hnames
  · rw [hproperties] at hps
    by_cases hempty : members.isEmpty = true
    · rw [if_pos hempty] at hps
      cases hps
    · rw [if_neg hempty, Option.some.injEq] at hps
      rw [← hps] at he
      obtain ⟨member, hmember, rfl⟩ := List.mem_map.mp he
      exact hmembers member hmember
  · simp [hitems]

/-- **The schema of a type is sound at every depth**, whether the type has content or not. -/
theorem sound_getD_ofType? {t : DataType} (h : t.Keyed) : ((ofType? t).getD {}).Sound := by
  induction t using DataType.induct with
  | leaf kind text =>
      cases kind with
      | nothing => exact sound_empty
      | any => exact sound_describe.mpr sound_empty
      | bool | number | string => exact sound_describe.mpr (sound_named (by decide))
  | bare text => exact sound_describe.mpr (sound_array sound_empty)
  | array items text ih =>
      rw [DataType.Keyed] at h
      exact sound_describe.mpr (sound_array (ih h))
  | object members text ih =>
      obtain ⟨hnodup, hkeyed⟩ := DataType.keyed_object.mp h
      refine sound_object hnodup fun e he => ?_
      rw [ofParam_eq]
      exact sound_describe.mpr (ih e he (hkeyed e he))

theorem sound_ofType? {t : DataType} (ht : t.Keyed) {s : Schema} (h : ofType? t = some s) :
    s.Sound := by
  have hsound := sound_getD_ofType? ht
  rwa [h] at hsound

end OpenApi.Schema

end ApiNotes
