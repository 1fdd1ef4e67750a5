/-
A dotted parameter changes exactly one member.

The members of a type are found along paths of names, through any number of arrays on the
way.  What a parameter with a dotted name does to a body is said through these paths alone:
the one that the name spells leads to the new member, and what lies apart from it is found as
before.  The proof goes down the path.  At each name of it one entry of one table is written,
and `Writes` is all that the rest of the proof knows about that.
-/
import ApiNotes.Annotation.Block
import ApiNotes.Proofs.Members

namespace ApiNotes

/-! ### Members along a path -/

/-- The member that is reached from a parameter by going through the members named. -/
def Param.below? : List String → Param → Option Param
  | [], p => some p
  | name :: names, p => (p.type.members?.bind (Dict.get? · name)).bind (below? names)

namespace DataType

/-- The member at the end of a path of names; the empty path leads to none. -/
def memberAt? : List String → DataType → Option Param
  | [], _ => none
  | name :: names, t => (t.members?.bind (Dict.get? · name)).bind (Param.below? names)

/-- Whether members can be attached below the names given: the type is like an object, and so is
the member that each of the names leads to. -/
def Encloses (t : DataType) (parents : List String) : Prop :=
  t.isObjectLike = true ∧ ∀ q, q <+: parents → q ≠ [] →
    ∃ m, t.memberAt? q = some m ∧ m.type.isObjectLike = true

/-- Two types that differ in one member, the one below the names given. -/
structure DiffersAt (parents : List String) (new : Param) (t t' : DataType) : Prop where
  /-- The path leads to the new member. -/
  found : t'.memberAt? (parents ++ [new.name]) = some new
  /-- Which has no members of its own. -/
  beyond : ∀ q, q ≠ [] → t'.memberAt? (parents ++ [new.name] ++ q) = none
  /-- What lies apart from the path is found as before. -/
  apart : ∀ q, ¬q <+: parents ++ [new.name] → ¬parents ++ [new.name] <+: q →
    t'.memberAt? q = t.memberAt? q
  /-- The members on the way stay what they are, but for their own members. -/
  above : ∀ q, q <+: parents → q ≠ [] → ∃ m m', t.memberAt? q = some m ∧
    t'.memberAt? q = some m' ∧ m'.name = m.name ∧ m'.optional = m.optional ∧
    m'.description = m.description ∧ m'.type.bare = m.type.bare ∧
    m'.type.description = m.type.description
  /-- So does the type itself. -/
  bare : t'.bare = t.bare
  description : t'.description = t.description
  /-- The table that takes the member keeps the order of its keys, and gets a new one last. -/
  table : ∃ members, t.membersAt? parents = some members ∧
    (t'.membersAt? parents).map Dict.keys = some (if new.name ∈ Dict.keys members
      then Dict.keys members else Dict.keys members ++ [new.name])
  /-- All other tables keep their keys and their order. -/
  tables : ∀ q, q ≠ parents → ¬parents ++ [new.name] <+: q →
    (t'.membersAt? q).map Dict.keys = (t.membersAt? q).map Dict.keys

theorem memberAt?_singleton (t : DataType) (name : String) :
    t.memberAt? [name] = t.members?.bind (Dict.get? · name) := by
  rw [memberAt?]
  cases t.members?.bind (Dict.get? · name) <;> rfl

theorem memberAt?_cons (t : DataType) (name : String) (names : List String) :
    t.memberAt? (name :: names) = (t.memberAt? [name]).bind (Param.below? names) := by
  rw [memberAt?_singleton, memberAt?]

/-- Below a member stand the members of its type. -/
theorem below?_of_ne_nil (p : Param) {names : List String} (h : names ≠ []) :
    p.below? names = p.type.memberAt? names := by
  cases names with
  | nil => exact absurd rfl h
  | cons name names => rfl

theorem membersAt?_cons (t : DataType) (name : String) (names : List String) :
    t.membersAt? (name :: names) = (t.memberAt? [name]).bind fun m => m.type.membersAt? names := by
  rw [memberAt?_singleton, membersAt?]
  cases t.members? <;> rfl

/-! ### Writing one entry -/

/-- A member of the type itself is written under its key, and nothing else happens. -/
structure Writes (key : String) (p : Param) (t t' : DataType) : Prop where
  members : ∃ ms, t.members? = some ms ∧ t'.members? = some (Dict.insert ms key p)
  bare : t'.bare = t.bare
  description : t'.description = t.description

/-- A change of members, through whatever arrays stand around them. -/
theorem mapMembers?_eq_some {f : Dict Param → Option (Dict Param)} {t t' : DataType}
    (h : t.mapMembers? f = some t') :
    ∃ ms ms', t.members? = some ms ∧ f ms = some ms' ∧ t'.members? = some ms' ∧
      t'.bare = t.bare ∧ t'.description = t.description := by
  induction t using DataType.induct generalizing t' with
  | leaf kind text => cases h
  | bare text => cases h
  | array items text ih =>
      rw [mapMembers?, Option.map_eq_some_iff] at h
      obtain ⟨items', hitems, rfl⟩ := h
      obtain ⟨ms, ms', hms, hf, hms', hbare, -⟩ := ih hitems
      exact ⟨ms, ms', hms, hf, hms', by rw [DataType.bare, DataType.bare, hbare], rfl⟩
  | object members text ih =>
      rw [mapMembers?, Option.map_eq_some_iff] at h
      obtain ⟨ms', hf, rfl⟩ := h
      exact ⟨members, ms', rfl, hf, rfl, rfl, rfl⟩

theorem mapMembers?_isSome {f : Dict Param → Option (Dict Param)} (t : DataType) :
    (t.mapMembers? f).isSome = (t.members?.bind f).isSome := by
  induction t using DataType.induct with
  | leaf kind text => rfl
  | bare text => rfl
  | array items text ih => rw [mapMembers?, Option.isSome_map, ih, members?]
  | object members text ih => rw [mapMembers?, Option.isSome_map, members?, Option.bind_some]

variable {key : String} {p : Param} {t t' : DataType}

theorem writes_of_attach? (h : t.attach? key p [] = some t') : Writes key p t t' := by
  rw [attach?] at h
  obtain ⟨ms, ms', hms, hinsert, hms', hbare, hdescription⟩ := mapMembers?_eq_some h
  obtain rfl := Option.some.inj hinsert
  exact ⟨⟨ms, hms, hms'⟩, hbare, hdescription⟩

/-- A member that goes below the first name changes the type of the member of this name. -/
theorem writes_of_attach?_cons {parent : String} {parents : List String}
    (h : t.attach? key p (parent :: parents) = some t') :
    ∃ holder type, t.memberAt? [parent] = some holder ∧
      holder.type.attach? key p parents = some type ∧
      Writes parent { holder with type } t t' := by
  rw [attach?] at h
  obtain ⟨ms, ms', hms, hchange, hms', hbare, hdescription⟩ := mapMembers?_eq_some h
  obtain ⟨holder, hholder, hchange⟩ := Option.bind_eq_some_iff.mp hchange
  obtain ⟨type, htype, hinsert⟩ := Option.bind_eq_some_iff.mp hchange
  obtain rfl := Option.some.inj hinsert
  refine ⟨holder, type, ?_, htype, ⟨ms, hms, hms'⟩, hbare, hdescription⟩
  rw [memberAt?_singleton, hms]
  exact hholder

namespace Writes

variable (h : Writes key p t t')
include h

theorem memberAt?_singleton (name : String) :
    t'.memberAt? [name] = if key = name then some p else t.memberAt? [name] := by
  obtain ⟨ms, hms, hms'⟩ := h.members
  rw [DataType.memberAt?_singleton, DataType.memberAt?_singleton, hms, hms']
  exact Dict.get?_insert ms key name p

theorem memberAt?_self (names : List String) : t'.memberAt? (key :: names) = p.below? names := by
  rw [memberAt?_cons, h.memberAt?_singleton, if_pos rfl]
  rfl

theorem memberAt?_other {name : String} (hname : key ≠ name) (names : List String) :
    t'.memberAt? (name :: names) = t.memberAt? (name :: names) := by
  rw [memberAt?_cons, h.memberAt?_singleton, if_neg hname, ← memberAt?_cons]

theorem membersAt?_self (names : List String) :
    t'.membersAt? (key :: names) = p.type.membersAt? names := by
  rw [membersAt?_cons, h.memberAt?_singleton, if_pos rfl]
  rfl

theorem membersAt?_other {name : String} (hname : key ≠ name) (names : List String) :
    t'.membersAt? (name :: names) = t.membersAt? (name :: names) := by
  rw [membersAt?_cons, h.memberAt?_singleton, if_neg hname, ← membersAt?_cons]

/-- The keys of the table that is written to. -/
theorem keys_members : ∃ ms, t.members? = some ms ∧ t'.members?.map Dict.keys =
    some (if key ∈ Dict.keys ms then Dict.keys ms else Dict.keys ms ++ [key]) := by
  obtain ⟨ms, hms, hms'⟩ := h.members
  refine ⟨ms, hms, ?_⟩
  rw [hms', Option.map_some, Dict.keys_insert]

end Writes

/-! ### Attaching a member -/

theorem differsAt_of_writes {new : Param} (hnew : ∀ q, q ≠ [] → new.type.memberAt? q = none)
    (h : Writes new.name new t t') : DiffersAt [] new t t' where
  found := h.memberAt?_self []
  beyond := by
    intro q hq
    rw [List.nil_append, List.singleton_append, h.memberAt?_self, below?_of_ne_nil new hq]
    exact hnew q hq
  apart := by
    intro q hbefore hbeyond
    cases q with
    | nil => exact absurd (List.nil_prefix) hbefore
    | cons name names =>
        refine h.memberAt?_other ?_ names
        rintro rfl
        exact hbeyond (by simp)
  above := by
    intro q hq hne
    exact absurd (List.prefix_nil.mp hq) hne
  bare := h.bare
  description := h.description
  table := h.keys_members
  tables := by
    intro q hq hbeyond
    cases q with
    | nil => exact absurd rfl hq
    | cons name names =>
        rw [h.membersAt?_other ?_ names]
        rintro rfl
        exact hbeyond (by simp)

/-- A type changes below a name as the type of the member of this name does. -/
theorem DiffersAt.below {parent : String} {parents : List String} {new holder : Param}
    {type : DataType} (hd : DiffersAt parents new holder.type type)
    (hholder : t.memberAt? [parent] = some holder)
    (h : Writes parent { holder with type } t t') : DiffersAt (parent :: parents) new t t' := by
  have hself : ∀ names, names ≠ [] → t'.memberAt? (parent :: names) = type.memberAt? names := by
    intro names hne
    rw [h.memberAt?_self, below?_of_ne_nil _ hne]
  have hold : ∀ names, names ≠ [] →
      t.memberAt? (parent :: names) = holder.type.memberAt? names := by
    intro names hne
    rw [memberAt?_cons, hholder, Option.bind_some, below?_of_ne_nil _ hne]
  have htables : ∀ names, t.membersAt? (parent :: names) = holder.type.membersAt? names := by
    intro names
    rw [membersAt?_cons, hholder, Option.bind_some]
  exact
    { found := by
        rw [List.cons_append, hself _ (by simp)]
        exact hd.found
      beyond := by
        intro q hq
        rw [List.cons_append, List.cons_append, hself _ (by simp)]
        exact hd.beyond q hq
      apart := by
        intro q hbefore hbeyond
        cases q with
        | nil => exact absurd List.nil_prefix hbefore
        | cons name names =>
            by_cases hname : parent = name
            · subst hname
              rw [List.cons_append, List.cons_prefix_cons] at hbefore hbeyond
              have hne : names ≠ [] := by
                rintro rfl
                exact hbefore ⟨rfl, List.nil_prefix⟩
              rw [hself names hne, hold names hne]
              exact hd.apart names (fun hp => hbefore ⟨rfl, hp⟩) fun hp => hbeyond ⟨rfl, hp⟩
            · exact h.memberAt?_other hname names
      above := by
        intro q hq hne
        obtain ⟨name, names, rfl⟩ := List.exists_cons_of_ne_nil hne
        obtain ⟨rfl, hnames⟩ := List.cons_prefix_cons.mp hq
        by_cases hnil : names = []
        · subst hnil
          refine ⟨holder, { holder with type }, hholder, ?_, rfl, rfl, rfl, hd.bare,
            hd.description⟩
          rw [h.memberAt?_singleton, if_pos rfl]
        · rw [hself names hnil, hold names hnil]
          exact hd.above names hnames hnil
      bare := h.bare
      description := h.description
      table := by
        rw [htables, h.membersAt?_self]
        exact hd.table
      tables := by
        intro q hq hbeyond
        cases q with
        | nil =>
            obtain ⟨ms, hms, hkeys⟩ := h.keys_members
            -- the parent is written back under a key that is there, so no key is added
            have hparent : parent ∈ Dict.keys ms := by
              rw [memberAt?_singleton, hms] at hholder
              exact Dict.mem_keys_of_get? hholder
            rw [membersAt?, membersAt?, hkeys, hms, if_pos hparent]
            rfl
        | cons name names =>
            by_cases hname : parent = name
            · subst hname
              rw [h.membersAt?_self, htables]
              refine hd.tables names (fun hp => hq (by rw [hp])) fun hp => hbeyond ?_
              rw [List.cons_append, List.cons_prefix_cons]
              exact ⟨rfl, hp⟩
            · rw [h.membersAt?_other hname names] }

/-- **A member that is attached changes the type at its path only.** -/
theorem differsAt_of_attach? {new : Param} (hname : new.name = key)
    (hnew : ∀ q, q ≠ [] → new.type.memberAt? q = none) {parents : List String}
    (h : t.attach? key new parents = some t') : DiffersAt parents new t t' := by
  subst hname
  induction parents generalizing t t' with
  | nil => exact differsAt_of_writes hnew (writes_of_attach? h)
  | cons parent parents ih =>
      obtain ⟨holder, type, hholder, hattach, hwrites⟩ := writes_of_attach?_cons h
      exact (ih hattach).below hholder hwrites

theorem encloses_nil : t.Encloses [] ↔ t.isObjectLike = true := by
  refine and_iff_left_of_imp fun _ q hq hne => ?_
  exact absurd (List.prefix_nil.mp hq) hne

/-- The first name leads to a member that encloses what is below the others. -/
theorem encloses_cons {parent : String} {parents : List String} :
    t.Encloses (parent :: parents) ↔
      ∃ m, t.memberAt? [parent] = some m ∧ m.type.Encloses parents := by
  constructor
  · rintro ⟨-, h⟩
    obtain ⟨m, hm, hobject⟩ := h [parent] (by simp) (by simp)
    refine ⟨m, hm, hobject, fun q hq hne => ?_⟩
    have hq := h (parent :: q) (List.cons_prefix_cons.mpr ⟨rfl, hq⟩) (by simp)
    rwa [memberAt?_cons, hm, Option.bind_some, below?_of_ne_nil m hne] at hq
  · rintro ⟨m, hm, hobject, h⟩
    refine ⟨?_, fun q hq hne => ?_⟩
    · rw [memberAt?_singleton] at hm
      obtain ⟨ms, hms, -⟩ := Option.bind_eq_some_iff.mp hm
      rw [isObjectLike, hms]
      rfl
    · obtain ⟨name, names, rfl⟩ := List.exists_cons_of_ne_nil hne
      obtain ⟨rfl, hnames⟩ := List.cons_prefix_cons.mp hq
      by_cases hnil : names = []
      · subst hnil
        exact ⟨m, hm, hobject⟩
      · rw [memberAt?_cons, hm, Option.bind_some, below?_of_ne_nil m hnil]
        exact h names hnames hnil

/-- A member can be attached where all the names above it lead to objects. -/
theorem attach?_isSome_iff {parents : List String} :
    (t.attach? key p parents).isSome = true ↔ t.Encloses parents := by
  induction parents generalizing t with
  | nil =>
      rw [attach?, mapMembers?_isSome, encloses_nil, isObjectLike]
      cases t.members? <;> rfl
  | cons parent parents ih =>
      rw [attach?, mapMembers?_isSome, encloses_cons, memberAt?_singleton]
      cases t.members? with
      | none => simp
      | some ms =>
          rw [Option.bind_some, Option.bind_some]
          cases Dict.get? ms parent with
          | none => simp
          | some holder =>
              show ((holder.type.attach? key p parents).bind fun type =>
                some (Dict.insert ms parent { holder with type })).isSome = true ↔ _
              rw [Option.isSome_bind]
              simp [ih]

/-! ### Types without members -/

theorem members?_bare (t : DataType) : t.bare.members? = t.members?.map fun _ => [] := by
  induction t using DataType.induct with
  | leaf kind text => rfl
  | bare text => rfl
  | array items text ih => rw [DataType.bare, members?, members?, ih]
  | object members text ih => rfl

theorem bare_of_ofKeyword? {segment : List Char} {t : DataType} (h : ofKeyword? segment = some t) :
    t.bare = t := by
  unfold ofKeyword? at h
  split at h
  · rw [← Option.some.inj h]
    rfl
  · rw [← Option.some.inj h]
    rfl
  · obtain ⟨kind, -, rfl⟩ := Option.map_eq_some_iff.mp h
    rfl

theorem bare_of_ofSegments? {segments : List (List Char)} {t : DataType}
    (h : ofSegments? segments = some t) : t.bare = t := by
  induction segments generalizing t with
  | nil => cases h
  | cons segment rest ih =>
      cases rest with
      | nil => exact bare_of_ofKeyword? h
      | cons next rest =>
          rw [ofSegments?] at h
          · split at h
            · obtain ⟨items, hitems, rfl⟩ := Option.map_eq_some_iff.mp h
              rw [bare, ih hitems]
            · cases h
          · simp

/-- A token names a type without members. -/
theorem memberAt?_of_parse {token : String} {t : DataType} (h : parse token = .ok t)
    (q : List String) : t.memberAt? q = none := by
  have hbare : t.bare = t := by
    unfold parse at h
    split at h
    next found hfound =>
      rw [← Except.ok.inj h]
      exact bare_of_ofSegments? hfound
    next => cases h
  cases q with
  | nil => rfl
  | cons name names =>
      have hmembers := members?_bare t
      rw [hbare] at hmembers
      rw [memberAt?, hmembers]
      cases t.members? <;> rfl

end DataType

/-! ### Parameters of a body -/

open Annotation

namespace Annotation

/-- The parameter that the fields of a tag spell, its type being read. -/
def Tag.param (tag : Tag) (type : DataType) : Param :=
  ⟨fieldAt (tag.fields 4) 0, type, isOptional (fieldAt (tag.fields 4) 2), fieldAt (tag.fields 4) 3⟩

theorem paramOf?_short {tag : Tag} (h : (tag.fields 4).length < 3) : paramOf? tag = .ok none := by
  unfold paramOf?
  rcases hfields : tag.fields 4 with _ | ⟨name, _ | ⟨token, _ | ⟨flag, rest⟩⟩⟩
  · rfl
  · rfl
  · rfl
  · rw [hfields] at h
    simp only [List.length_cons] at h
    omega

/-- A tag with all its fields gives a parameter when the second one is a type. -/
theorem paramOf?_of_fields {tag : Tag} (h : 3 ≤ (tag.fields 4).length) :
    paramOf? tag = (typeAt tag (fieldAt (tag.fields 4) 1)).map fun type =>
      some (tag.param type) := by
  unfold paramOf? Tag.param
  rcases hfields : tag.fields 4 with _ | ⟨name, _ | ⟨token, _ | ⟨flag, rest⟩⟩⟩
  · simp [hfields] at h
  · simp [hfields] at h
  · simp [hfields] at h
  · dsimp only
    rw [show fieldAt (name :: token :: flag :: rest) 1 = token from rfl]
    cases typeAt tag token <;> rfl

theorem paramOf?_malformed {tag : Tag} (h : 3 ≤ (tag.fields 4).length) {fault : Fault}
    (hparse : DataType.parse (fieldAt (tag.fields 4) 1) = .error fault) :
    paramOf? tag = .error (fault.located tag.position) := by
  rw [paramOf?_of_fields h, typeAt, hparse]
  rfl

theorem paramOf?_formed {tag : Tag} (h : 3 ≤ (tag.fields 4).length) {type : DataType}
    (hparse : DataType.parse (fieldAt (tag.fields 4) 1) = .ok type) :
    paramOf? tag = .ok (some (tag.param type)) := by
  rw [paramOf?_of_fields h, typeAt, hparse]
  rfl

end Annotation

namespace Body

/-! ### What a tag does to a body -/

/-- Steps that write to a body as they go: what is written before a fault stays. -/
abbrev InPlace := ExceptT Fault (StateM Body)

/-- Takes in a parameter tag, in place. -/
def takeParam (tag : Tag) : InPlace Unit := do
  match ← liftM (paramOf? tag) with
  | some param => modify fun body => body.attach param
  | none => return

/-- The outcome of steps in place, and the body that they leave. -/
def outcome (x : InPlace Unit) (body : Body) : Checked Unit × Body := Id.run (x.run.run body)

/-- In place or not, a parameter makes the same of a body; a fault leaves it as it was. -/
theorem outcome_takeParam (tag : Tag) (body : Body) : outcome (takeParam tag) body =
    match body.addParam tag with
    | .ok body' => (.ok (), body')
    | .error fault => (.error fault, body) := by
  unfold takeParam addParam
  cases paramOf? tag with
  | error fault => rfl
  | ok param => cases param <;> rfl

theorem addParam_formed {body : Body} {tag : Tag} (h : 3 ≤ (tag.fields 4).length)
    {type : DataType} (hparse : DataType.parse (fieldAt (tag.fields 4) 1) = .ok type) :
    body.addParam tag = .ok (body.attach (tag.param type)) := by
  rw [addParam, paramOf?_formed h hparse]
  rfl

/-- Whether a body has an object for members below the names given. -/
def Encloses (body : Body) (parents : List String) : Prop :=
  ∃ t, body.type = some t ∧ t.Encloses parents

theorem attach_of_not_encloses {body : Body} (param : Param) {parents : List String}
    {leaf : String} (hname : splitName param.name = (parents, leaf))
    (h : ¬body.Encloses parents) : body.attach param = body := by
  have hattach : body.type.bind (·.attach? leaf { param with name := leaf } parents) = none := by
    rw [Option.bind_eq_none_iff]
    intro t ht
    rw [← Option.not_isSome_iff_eq_none, DataType.attach?_isSome_iff]
    exact fun hencloses => h ⟨t, ht, hencloses⟩
  unfold attach
  simp only [hname, hattach]

theorem attach_of_encloses {body : Body} (param : Param) {parents : List String} {leaf : String}
    (hname : splitName param.name = (parents, leaf))
    (hnew : ∀ q, param.type.memberAt? q = none) (h : body.Encloses parents) :
    ∃ t t', body.type = some t ∧ body.attach param = { body with type := some t' } ∧
      DataType.DiffersAt parents { param with name := leaf } t t' := by
  obtain ⟨t, ht, hencloses⟩ := h
  have hsome : (t.attach? leaf { param with name := leaf } parents).isSome = true :=
    DataType.attach?_isSome_iff.mpr hencloses
  obtain ⟨t', ht'⟩ := Option.isSome_iff_exists.mp hsome
  refine ⟨t, t', ht, ?_, ?_⟩
  · unfold attach
    simp only [hname, ht, Option.bind_some, ht']
  · refine DataType.differsAt_of_attach? rfl ?_ ht'
    exact fun q _ => hnew q

/-- What a parameter tag does to a body, its name being `parents` and `leaf`. -/
structure TakesParam (body : Body) (tag : Tag) (parents : List String) (leaf : String) : Prop where
  /-- A tag with too few fields does nothing. -/
  short : (tag.fields 4).length < 3 → outcome (takeParam tag) body = (.ok (), body)
  /-- One that names no type fails, and does nothing either. -/
  malformed : ∀ fault, 3 ≤ (tag.fields 4).length →
    DataType.parse (fieldAt (tag.fields 4) 1) = .error fault →
    outcome (takeParam tag) body = (.error (fault.located tag.position), body)
  /-- A member that has no object to go to is dropped. -/
  dropped : ∀ type, 3 ≤ (tag.fields 4).length →
    DataType.parse (fieldAt (tag.fields 4) 1) = .ok type → ¬body.Encloses parents →
    outcome (takeParam tag) body = (.ok (), body)
  /-- Any other is found at its path, and nowhere else has anything changed. -/
  attached : ∀ type, 3 ≤ (tag.fields 4).length →
    DataType.parse (fieldAt (tag.fields 4) 1) = .ok type → body.Encloses parents →
    ∃ t t', body.type = some t ∧
      outcome (takeParam tag) body = (.ok (), { body with type := some t' }) ∧
      DataType.DiffersAt parents { tag.param type with name := leaf } t t'

/-- **A dotted parameter changes exactly one member.** -/
theorem takeParam_changes_one (body : Body) (tag : Tag) :
    TakesParam body tag (splitName (fieldAt (tag.fields 4) 0)).1
      (splitName (fieldAt (tag.fields 4) 0)).2 where
  short := by
    intro hshort
    rw [outcome_takeParam, addParam, paramOf?_short hshort]
    rfl
  malformed := by
    intro fault hlength hparse
    rw [outcome_takeParam, addParam, paramOf?_malformed hlength hparse]
    rfl
  dropped := by
    intro type hlength hparse hencloses
    rw [outcome_takeParam, addParam_formed hlength hparse]
    dsimp only
    rw [attach_of_not_encloses (tag.param type) Prod.mk.eta.symm hencloses]
  attached := by
    intro type hlength hparse hencloses
    obtain ⟨t, t', ht, hattach, hdiffers⟩ := attach_of_encloses (tag.param type)
      Prod.mk.eta.symm (DataType.memberAt?_of_parse hparse) hencloses
    refine ⟨t, t', ht, ?_, hdiffers⟩
    rw [outcome_takeParam, addParam_formed hlength hparse]
    dsimp only
    rw [hattach]

end Body

end ApiNotes
