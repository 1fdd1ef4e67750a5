/-
The types inside a type.

A type has parts: the type of its elements, the types of its members, and what is inside those.
What tags build is the same at every depth.  Members stand under their own names, each name
once and without dots, and only the type as a whole has a text.  `Parsed` says so of all parts
at once; `parsed_iff` takes it apart by one level, which is what an induction over the type
asks for.  A token names such a type, and a member that is attached keeps it one.
-/
import ApiNotes.Proofs.MemberPaths

namespace ApiNotes

namespace DataType

/-! ### Kinds and parts -/

/-- What the last segment of a token says of a type, or that there is a segment before it. -/
inductive Kind
  | leaf (kind : Leaf)
  | array
  | object
deriving DecidableEq, Repr

/-- The kind of a type. -/
def kind : DataType → Kind
  | .leaf kind _ => .leaf kind
  | .array _ _ => .array
  | .object _ _ => .object

/-- The type of the elements, where there is one. -/
def items? : DataType → Option DataType
  | .array items _ => items
  | _ => none

/-- The members of the type itself, none of those below its arrays. -/
def properties? : DataType → Option (Dict Param)
  | .object members _ => some members
  | _ => none

/-- A type is a part of another: the type of its elements, or that of a member. -/
inductive PartOf : DataType → DataType → Prop
  | items {t items : DataType} (h : t.items? = some items) : PartOf items t
  | member {t : DataType} {members : Dict Param} {e : String × Param}
      (h : t.properties? = some members) (he : e ∈ members) : PartOf e.2.type t

/-- A type is the other one, or stands in it at some depth. -/
def Within (u t : DataType) : Prop := Relation.ReflTransGen PartOf u t

/-- A type stands in another one, at some depth. -/
def Below (u t : DataType) : Prop := Relation.TransGen PartOf u t

variable {u t : DataType} {P : DataType → Prop}

/-- What holds of all types within another holds of that one, and within its parts. -/
theorem forall_within_iff :
    (∀ u, Within u t → P u) ↔ P t ∧ ∀ p, PartOf p t → ∀ u, Within u p → P u := by
  constructor
  · intro h
    refine ⟨h t Relation.ReflTransGen.refl, ?_⟩
    intro p hp u hu
    exact h u (hu.tail hp)
  · intro h u hu
    rcases Relation.ReflTransGen.cases_tail hu with rfl | ⟨p, hup, hpt⟩
    · exact h.1
    · exact h.2 p hpt u hup

/-- What holds of all types below another holds of its parts, and below them. -/
theorem forall_below_iff :
    (∀ u, Below u t → P u) ↔ ∀ p, PartOf p t → P p ∧ ∀ u, Below u p → P u := by
  constructor
  · intro h p hp
    refine ⟨h p (Relation.TransGen.single hp), ?_⟩
    intro u hu
    exact h u (hu.tail hp)
  · intro h u hu
    cases hu with
    | single hut => exact (h u hut).1
    | tail hup hpt => exact (h _ hpt).2 u hup

/-- The parts of a type, by its kind. -/
theorem forall_partOf_iff : (∀ p, PartOf p t → P p) ↔
    (∀ items, t.items? = some items → P items) ∧
      ∀ members, t.properties? = some members → ∀ e ∈ members, P e.2.type := by
  constructor
  · intro h
    refine ⟨?_, ?_⟩
    · intro items hitems
      exact h items (.items hitems)
    · intro members hmembers e he
      exact h e.2.type (.member hmembers he)
  · intro h p hp
    cases hp with
    | items hitems => exact h.1 p hitems
    | member hmembers he => exact h.2 _ hmembers _ he

/-! ### Types as tags build them -/

/-- The parts of a type fit its kind. -/
structure Fits (t : DataType) : Prop where
  properties : t.properties?.isSome = true ↔ t.kind = .object
  items : t.items?.isSome = true → t.kind = .array
  apart : ¬(t.items?.isSome = true ∧ t.properties?.isSome = true)

theorem fits (t : DataType) : t.Fits := by
  cases t with
  | leaf kind text => constructor <;> simp [properties?, items?, DataType.kind]
  | array items text => constructor <;> simp [properties?, DataType.kind]
  | object members text => constructor <;> simp [properties?, items?, DataType.kind]

/-- A type with members under their own names, each name once, and with no text but its own. -/
structure Tidy (t : DataType) : Prop where
  nodup : ∀ u, Within u t → ∀ members, u.properties? = some members → (Dict.keys members).Nodup
  named : ∀ u, Within u t → ∀ members, u.properties? = some members →
    ∀ e ∈ members, e.1 = e.2.name
  plain : ∀ u, Below u t → u.description = ""

/-- A type as the tags of an annotation build it. -/
structure Parsed (t : DataType) : Prop extends t.Tidy where
  fits : ∀ u, Within u t → u.Fits
  undotted : ∀ u, Within u t → ∀ members, u.properties? = some members →
    ∀ e ∈ members, '.' ∉ e.2.name.toList

end DataType

/-- A parameter as the tags of an annotation build it. -/
structure Param.Parsed (p : Param) : Prop where
  undotted : '.' ∉ p.name.toList
  plain : p.type.description = ""
  type : p.type.Parsed

namespace DataType

/-- A table of members as tags fill it. -/
structure ParsedMembers (members : Dict Param) : Prop where
  nodup : (Dict.keys members).Nodup
  named : ∀ e ∈ members, e.1 = e.2.name
  parsed : ∀ e ∈ members, e.2.Parsed

/-- A type is tidy when its members are named, and its parts are tidy and have no texts. -/
theorem tidy_iff {t : DataType} : t.Tidy ↔
    (∀ members, t.properties? = some members →
      (Dict.keys members).Nodup ∧ ∀ e ∈ members, e.1 = e.2.name) ∧
    ∀ p, PartOf p t → p.description = "" ∧ p.Tidy := by
  constructor
  · intro h
    have hnodup := forall_within_iff.mp h.nodup
    have hnamed := forall_within_iff.mp h.named
    have hplain := forall_below_iff.mp h.plain
    refine ⟨?_, ?_⟩
    · intro members hmembers
      exact ⟨hnodup.1 members hmembers, hnamed.1 members hmembers⟩
    · intro p hp
      exact ⟨(hplain p hp).1, hnodup.2 p hp, hnamed.2 p hp, (hplain p hp).2⟩
  · intro h
    refine ⟨forall_within_iff.mpr ⟨?_, ?_⟩, forall_within_iff.mpr ⟨?_, ?_⟩, forall_below_iff.mpr ?_⟩
    · intro members hmembers
      exact (h.1 members hmembers).1
    · intro p hp
      exact (h.2 p hp).2.nodup
    · intro members hmembers
      exact (h.1 members hmembers).2
    · intro p hp
      exact (h.2 p hp).2.named
    · intro p hp
      exact ⟨(h.2 p hp).1, (h.2 p hp).2.plain⟩

theorem Tidy.items {items : DataType} {text : String}
    (h : (DataType.array (some items) text).Tidy) : items.description = "" ∧ items.Tidy :=
  (tidy_iff.mp h).2 items (.items rfl)

theorem Tidy.member {members : Dict Param} {text : String} (h : (DataType.object members text).Tidy)
    {e : String × Param} (he : e ∈ members) : e.2.type.description = "" ∧ e.2.type.Tidy :=
  (tidy_iff.mp h).2 e.2.type (.member rfl he)

/-- So it is with types that tags build. -/
theorem parsed_iff {t : DataType} : t.Parsed ↔
    (∀ items, t.items? = some items → items.description = "" ∧ items.Parsed) ∧
    ∀ members, t.properties? = some members → ParsedMembers members := by
  constructor
  · intro h
    obtain ⟨hnames, hparts⟩ := tidy_iff.mp h.toTidy
    have hundotted := forall_within_iff.mp h.undotted
    have hpart : ∀ p, PartOf p t → p.description = "" ∧ p.Parsed := by
      intro p hp
      exact ⟨(hparts p hp).1, (hparts p hp).2, fun u _ => fits u, hundotted.2 p hp⟩
    refine ⟨?_, ?_⟩
    · intro items hitems
      exact hpart items (.items hitems)
    · intro members hmembers
      obtain ⟨hnodup, hnamed⟩ := hnames members hmembers
      refine ⟨hnodup, hnamed, ?_⟩
      intro e he
      obtain ⟨hplain, hparsed⟩ := hpart e.2.type (.member hmembers he)
      exact ⟨hundotted.1 members hmembers e he, hplain, hparsed⟩
  · rintro ⟨hitems, hmembers⟩
    have hpart : ∀ p, PartOf p t → p.description = "" ∧ p.Parsed := by
      refine forall_partOf_iff.mpr ⟨hitems, ?_⟩
      intro members hms e he
      exact ⟨((hmembers members hms).parsed e he).plain, ((hmembers members hms).parsed e he).type⟩
    refine ⟨tidy_iff.mpr ⟨?_, ?_⟩, fun u _ => fits u, forall_within_iff.mpr ⟨?_, ?_⟩⟩
    · intro members hms
      exact ⟨(hmembers members hms).nodup, (hmembers members hms).named⟩
    · intro p hp
      exact ⟨(hpart p hp).1, (hpart p hp).2.toTidy⟩
    · intro members hms e he
      exact ((hmembers members hms).parsed e he).undotted
    · intro p hp
      exact (hpart p hp).2.undotted

theorem parsed_leaf (kind : Leaf) (text : String) : (DataType.leaf kind text).Parsed := by
  apply parsed_iff.mpr
  simp [items?, properties?]

theorem parsed_array_iff {items : Option DataType} {text : String} :
    (DataType.array items text).Parsed ↔
      ∀ i, items = some i → i.description = "" ∧ i.Parsed := by
  rw [parsed_iff]
  simp [items?, properties?]

theorem parsed_object_iff {members : Dict Param} {text : String} :
    (DataType.object members text).Parsed ↔ ParsedMembers members := by
  rw [parsed_iff]
  simp [items?, properties?]

/-- The text of the type as a whole does not count. -/
theorem parsed_withDescription {t : DataType} {text : String} :
    (t.withDescription text).Parsed ↔ t.Parsed := by
  cases t with
  | leaf kind old => exact iff_of_true (parsed_leaf kind text) (parsed_leaf kind old)
  | array items old => rw [withDescription, parsed_array_iff, parsed_array_iff]
  | object members old => rw [withDescription, parsed_object_iff, parsed_object_iff]

/-! ### Tokens -/

theorem description_bare (t : DataType) : t.bare.description = "" := by
  cases t with
  | leaf kind text => rfl
  | array items text => cases items <;> rfl
  | object members text => rfl

/-- A token names a type without members and texts, and that is one that tags build. -/
theorem parsed_of_bare {t : DataType} (h : t.bare = t) : t.Parsed := by
  induction t using DataType.induct with
  | leaf kind text => exact parsed_leaf kind text
  | bare text =>
      apply parsed_array_iff.mpr
      simp
  | array items text ih =>
      rw [bare, DataType.array.injEq, Option.some.injEq] at h
      apply parsed_array_iff.mpr
      intro i hi
      obtain rfl := Option.some.inj hi
      refine ⟨?_, ih h.1⟩
      rw [← h.1]
      exact description_bare items
  | object members text ih =>
      rw [bare, DataType.object.injEq] at h
      apply parsed_object_iff.mpr
      rw [← h.1]
      exact ⟨List.nodup_nil, by simp, by simp⟩

/-! ### Members -/

theorem ParsedMembers.insert {members : Dict Param} (h : ParsedMembers members) {p : Param}
    (hp : p.Parsed) : ParsedMembers (Dict.insert members p.name p) where
  nodup := Dict.nodup_keys_insert h.nodup p.name p
  named := by
    intro e he
    rcases Dict.mem_insert he with he | rfl
    · exact h.named e he
    · rfl
  parsed := by
    intro e he
    rcases Dict.mem_insert he with he | rfl
    · exact h.parsed e he
    · exact hp

/-- A change of members that keeps them as tags fill them keeps the type as tags build it. -/
theorem Parsed.mapMembers? {f : Dict Param → Option (Dict Param)}
    (hf : ∀ ms ms', ParsedMembers ms → f ms = some ms' → ParsedMembers ms') {t t' : DataType}
    (ht : t.Parsed) (h : t.mapMembers? f = some t') : t'.Parsed := by
  induction t using DataType.induct generalizing t' with
  | leaf kind text => cases h
  | bare text => cases h
  | array items text ih =>
      rw [DataType.mapMembers?, Option.map_eq_some_iff] at h
      obtain ⟨items', hitems, rfl⟩ := h
      obtain ⟨hplain, hparsed⟩ := parsed_array_iff.mp ht items rfl
      have hdescription : items'.description = items.description := by
        obtain ⟨-, -, -, -, -, -, hdescription⟩ := mapMembers?_eq_some hitems
        exact hdescription
      apply parsed_array_iff.mpr
      intro i hi
      obtain rfl := Option.some.inj hi
      exact ⟨hdescription.trans hplain, ih hparsed hitems⟩
  | object members text _ =>
      rw [DataType.mapMembers?, Option.map_eq_some_iff] at h
      obtain ⟨members', hmembers, rfl⟩ := h
      rw [parsed_object_iff] at ht ⊢
      exact hf members members' ht hmembers

theorem description_of_attach? {key : String} {p : Param} {parents : List String}
    {t t' : DataType} (h : t.attach? key p parents = some t') : t'.description = t.description := by
  cases parents with
  | nil =>
      obtain ⟨-, -, -, -, -, -, hdescription⟩ := mapMembers?_eq_some h
      exact hdescription
  | cons parent parents =>
      obtain ⟨-, -, -, -, -, -, hdescription⟩ := mapMembers?_eq_some h
      exact hdescription

/-- **A member that is attached leaves a type as tags build it.** -/
theorem Parsed.attach? {p : Param} (hp : p.Parsed) {parents : List String} {t t' : DataType}
    (ht : t.Parsed) (h : t.attach? p.name p parents = some t') : t'.Parsed := by
  induction parents generalizing t t' with
  | nil =>
      apply Parsed.mapMembers? _ ht h
      intro ms ms' hms hinsert
      obtain rfl := Option.some.inj hinsert
      exact hms.insert hp
  | cons parent parents ih =>
      apply Parsed.mapMembers? _ ht h
      intro ms ms' hms hinsert
      obtain ⟨holder, hholder, hinsert⟩ := Option.bind_eq_some_iff.mp hinsert
      obtain ⟨type, htype, hinsert⟩ := Option.bind_eq_some_iff.mp hinsert
      obtain rfl := Option.some.inj hinsert
      have hmem := Dict.mem_of_get? hholder
      have hparsed := hms.parsed _ hmem
      have hdescription := description_of_attach? htype
      -- the parent is written back under its own name, so the table stays one of names
      obtain rfl : parent = holder.name := hms.named _ hmem
      refine hms.insert (p := { holder with type }) ⟨hparsed.undotted, ?_, ih hparsed.type htype⟩
      exact hdescription.trans hparsed.plain

end DataType

end ApiNotes
