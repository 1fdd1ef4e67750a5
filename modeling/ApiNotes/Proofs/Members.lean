/-
Types written as a token and a list of members.

An annotation names a type by its token, which has no room for members; those follow one
by one, each under the names that lead to it.  Attached in that order to the type that the
token names they make up the type again.  The proof goes down the type: below a member
nothing can touch the members before it, since its name is not theirs.
-/
import ApiNotes.Proofs.Lexing
import ApiNotes.Proofs.TypeImages

namespace ApiNotes

theorem Param.eta (p : Param) : ⟨p.name, p.type, p.optional, p.description⟩ = p := by
  obtain ⟨name, type, optional, description⟩ := p
  rfl

namespace DataType

/-! ### Tokens -/

/-- The keyword of a leaf. -/
def leafKeyword : Leaf → String
  | .nothing => "none"
  | .bool => "bool"
  | .number => "number"
  | .string => "string"
  | .any => "*"

/-- The keywords of a type, from the outside in. -/
def keywords : DataType → List String
  | .leaf kind _ => [leafKeyword kind]
  | .array none _ => ["array"]
  | .array (some items) _ => "array" :: keywords items
  | .object _ _ => ["object"]

/-- The token of a type. -/
def token (t : DataType) : String := ".".intercalate t.keywords

/-- The type that the token of a type names: the same, without members and texts. -/
def bare : DataType → DataType
  | .leaf kind _ => .leaf kind ""
  | .array none _ => .array none ""
  | .array (some items) _ => .array (some (bare items)) ""
  | .object _ _ => .object [] ""

theorem keywords_ne_nil (t : DataType) : t.keywords ≠ [] := by
  cases t with
  | leaf kind text => simp [keywords]
  | array items text => cases items <;> simp [keywords]
  | object members text => simp [keywords]

theorem leafKeyword_word (kind : Leaf) :
    Text.IsWord (leafKeyword kind).toList ∧ '.' ∉ (leafKeyword kind).toList := by
  cases kind <;> decide

/-- A keyword is a word without dots. -/
theorem keywords_word (t : DataType) :
    ∀ w ∈ t.keywords, Text.IsWord w.toList ∧ '.' ∉ w.toList := by
  have harray : Text.IsWord "array".toList ∧ '.' ∉ "array".toList := by decide
  have hobject : Text.IsWord "object".toList ∧ '.' ∉ "object".toList := by decide
  induction t using DataType.induct with
  | leaf kind text =>
      intro w hw
      rw [List.mem_singleton.mp hw]
      exact leafKeyword_word kind
  | bare text =>
      intro w hw
      rw [List.mem_singleton.mp hw]
      exact harray
  | array items text ih =>
      intro w hw
      rcases List.mem_cons.mp hw with rfl | hw
      · exact harray
      · exact ih w hw
  | object members text ih =>
      intro w hw
      rw [List.mem_singleton.mp hw]
      exact hobject

theorem ofKeyword?_leafKeyword (kind : Leaf) :
    ofKeyword? (leafKeyword kind).toList = some (.leaf kind "") := by
  cases kind <;> rfl

theorem ofSegments?_keywords (t : DataType) :
    ofSegments? (t.keywords.map String.toList) = some t.bare := by
  induction t using DataType.induct with
  | leaf kind text => exact ofKeyword?_leafKeyword kind
  | bare text => rfl
  | array items text ih =>
      obtain ⟨w, rest, hkeywords⟩ := List.exists_cons_of_ne_nil items.keywords_ne_nil
      rw [keywords, List.map_cons, hkeywords, List.map_cons, ofSegments?, if_pos (by decide),
        ← List.map_cons, ← hkeywords, ih]
      · rfl
      · simp
  | object members text ih => rfl

theorem bare_bare (t : DataType) : t.bare.bare = t.bare := by
  induction t using DataType.induct with
  | leaf kind text => rfl
  | bare text => rfl
  | array items text ih => rw [bare, bare, ih]
  | object members text ih => rfl

theorem bare_withDescription (text : String) (t : DataType) :
    (t.withDescription text).bare = t.bare := by
  cases t with
  | leaf kind text => rfl
  | array items text => cases items <;> rfl
  | object members text => rfl

theorem withDescription_withDescription (text text' : String) (t : DataType) :
    (t.withDescription text).withDescription text' = t.withDescription text' := by
  cases t <;> rfl

theorem withDescription_description (t : DataType) : t.withDescription t.description = t := by
  cases t <;> rfl

theorem toList_intercalate_dot (names : List String) :
    (".".intercalate names).toList = ['.'].intercalate (names.map String.toList) :=
  String.toList_intercalate

/-- A token names the type without its members and texts. -/
theorem parse_token (t : DataType) : parse t.token = .ok t.bare := by
  have hsplit : t.token.toList.splitOn '.' = t.keywords.map String.toList := by
    rw [token, toList_intercalate_dot]
    refine List.splitOn_intercalate '.' ?_ (by simpa using t.keywords_ne_nil)
    intro l hl
    obtain ⟨w, hw, rfl⟩ := List.mem_map.mp hl
    exact (t.keywords_word w hw).2
  rw [parse, hsplit, ofSegments?_keywords]

/-- Words with dots between them are one word. -/
theorem isWord_intercalate_dot {names : List String} (hne : names ≠ [])
    (h : ∀ w ∈ names, Text.IsWord w.toList) : Text.IsWord (".".intercalate names).toList := by
  rw [toList_intercalate_dot]
  exact Text.isWord_intercalate (by decide) hne h

theorem isWord_token (t : DataType) : Text.IsWord t.token.toList :=
  isWord_intercalate_dot t.keywords_ne_nil fun w hw => (t.keywords_word w hw).1

/-! ### Members -/

/-- A name that can be a part of a dotted one. -/
structure IsName (name : String) : Prop where
  word : Text.IsWord name.toList
  dotless : '.' ∉ name.toList

instance (name : String) : Decidable (IsName name) :=
  decidable_of_iff (Text.IsWord name.toList ∧ '.' ∉ name.toList)
    ⟨fun h => ⟨h.1, h.2⟩, fun h => ⟨h.word, h.dotless⟩⟩

mutual

/-- The members of a type, at any depth, each before its own members: the names above it, and the
member as its token names it. -/
def nested : DataType → List (List String × Param)
  | .leaf _ _ => []
  | .array none _ => []
  | .array (some items) _ => nested items
  | .object members _ => nestedMembers members

/-- The members of a table, one after another. -/
def nestedMembers : List (String × Param) → List (List String × Param)
  | [] => []
  | (key, p) :: rest => nestedParam key p ++ nestedMembers rest

/-- A member and its own members. -/
def nestedParam (key : String) : Param → List (List String × Param)
  | ⟨name, type, optional, description⟩ =>
    ([], ⟨name, type.bare, optional, description⟩) ::
      (nested type).map fun m => (key :: m.1, m.2)

end

/-- A parameter under a name that has the names above it in front. -/
def dotted (above : List String) (p : Param) : Param :=
  { p with name := ".".intercalate (above ++ [p.name]) }

/-- A parameter without its members. -/
def bareParam (p : Param) : Param := { p with type := p.type.bare }

theorem nestedParam_eq (key : String) (p : Param) :
    nestedParam key p = ([], bareParam p) :: p.type.nested.map fun m => (key :: m.1, m.2) := by
  obtain ⟨name, type, optional, description⟩ := p
  rw [nestedParam]
  rfl

theorem nested_withDescription (text : String) (t : DataType) :
    (t.withDescription text).nested = t.nested := by
  cases t with
  | leaf kind text => rfl
  | array items text => cases items <;> rfl
  | object members text => rfl

/-- A type that an annotation can spell out: each member stands under its own name, and the only
texts are those on members. -/
inductive Writable : DataType → Prop
  | leaf (kind : Leaf) : Writable (.leaf kind "")
  | bare : Writable (.array none "")
  | array {items : DataType} (h : Writable items) : Writable (.array (some items) "")
  | object {members : List (String × Param)} (nodup : (Dict.keys members).Nodup)
      (keys : ∀ e ∈ members, e.2.name = e.1) (names : ∀ e ∈ members, IsName e.1)
      (descriptions : ∀ e ∈ members, Annotation.Running e.2.description.toList)
      (types : ∀ e ∈ members, Writable e.2.type) : Writable (.object members "")

/-- What the tag of a member needs: names all the way down, no members yet, and a text that runs
on. -/
structure IsMember (m : List String × Param) : Prop where
  names : ∀ name ∈ m.1 ++ [m.2.name], IsName name
  bare : bareParam m.2 = m.2
  running : Annotation.Running m.2.description.toList

theorem isMember_bareParam {p : Param} (hname : IsName p.name)
    (hdescription : Annotation.Running p.description.toList) : IsMember ([], bareParam p) where
  names := by simpa [bareParam] using hname
  bare := by rw [bareParam, bareParam, bare_bare]
  running := hdescription

/-- The members of a writable type, at any depth, can be written. -/
theorem Writable.nested {t : DataType} (h : Writable t) : ∀ m ∈ t.nested, IsMember m := by
  induction t using DataType.induct with
  | leaf kind text => exact fun m hm => nomatch hm
  | bare text => exact fun m hm => nomatch hm
  | array items text ih =>
      cases h with
      | array h => exact ih h
  | object members text ih =>
      cases h with
      | object nodup keys names descriptions types =>
          have hall : ∀ ms ⊆ members, ∀ m ∈ nestedMembers ms, IsMember m := by
            intro ms hms
            induction ms with
            | nil => exact fun m hm => nomatch hm
            | cons e rest ihrest =>
                obtain ⟨key, p⟩ := e
                have hmem : (key, p) ∈ members := hms List.mem_cons_self
                intro m hm
                rw [nestedMembers, nestedParam_eq, List.cons_append, List.mem_cons,
                  List.mem_append] at hm
                rcases hm with rfl | hm | hm
                · have hkey : p.name = key := keys _ hmem
                  have hname : IsName p.name := by
                    rw [hkey]
                    exact names _ hmem
                  exact isMember_bareParam hname (descriptions _ hmem)
                · obtain ⟨m', hm', rfl⟩ := List.mem_map.mp hm
                  have hmember := ih _ hmem (types _ hmem) m' hm'
                  refine ⟨?_, hmember.bare, hmember.running⟩
                  rw [List.cons_append, List.forall_mem_cons]
                  exact ⟨names _ hmem, hmember.names⟩
                · exact ihrest (fun e he => hms (List.mem_cons_of_mem _ he)) m hm
          exact hall members fun e he => he

/-! ### Attaching members -/

/-- Attaches one member below the names above it. -/
def attachMember (t : DataType) (m : List String × Param) : Option DataType :=
  t.attach? m.2.name m.2 m.1

theorem attachMember_array (items : DataType) (text : String) (m : List String × Param) :
    attachMember (.array (some items) text) m =
      (attachMember items m).map fun items => .array (some items) text := by
  obtain ⟨parents, p⟩ := m
  cases parents with
  | nil => rfl
  | cons parent parents => rfl

theorem mapMembers?_withDescription (f : Dict Param → Option (Dict Param)) (text : String)
    (t : DataType) : (t.withDescription text).mapMembers? f =
      (t.mapMembers? f).map (withDescription text) := by
  cases t with
  | leaf kind _ => rfl
  | array items _ =>
      cases items with
      | none => rfl
      | some items =>
          rw [withDescription, mapMembers?, mapMembers?, Option.map_map]
          rfl
  | object members _ =>
      rw [withDescription, mapMembers?, mapMembers?, Option.map_map]
      rfl

/-- The text on a type plays no part in what is attached to it. -/
theorem attachMember_withDescription (t : DataType) (text : String) (m : List String × Param) :
    attachMember (t.withDescription text) m = (attachMember t m).map (withDescription text) := by
  obtain ⟨parents, p⟩ := m
  unfold attachMember
  cases parents with
  | nil => exact mapMembers?_withDescription _ text t
  | cons parent parents => exact mapMembers?_withDescription _ text t

/-- A fold that fails or not follows another one step by step. -/
theorem foldlM_map_comm {α σ τ : Type} (f : σ → α → Option σ) (f' : τ → α → Option τ) (g : σ → τ)
    (h : ∀ s x, f' (g s) x = (f s x).map g) (xs : List α) :
    ∀ s, xs.foldlM f' (g s) = (xs.foldlM f s).map g := by
  induction xs with
  | nil => intro s; rfl
  | cons x rest ih =>
      intro s
      rw [List.foldlM_cons, List.foldlM_cons, h]
      cases f s x with
      | none => rfl
      | some s' => exact ih s'

/-- A member below the last one goes into that one. -/
theorem attachMember_last {done : List (String × Param)} {key : String}
    (hkey : key ∉ Dict.keys done) (p : Param) (text : String) (u : DataType)
    (m : List String × Param) :
    attachMember (.object (done ++ [(key, { p with type := u })]) text) (key :: m.1, m.2) =
      (attachMember u m).map fun u => .object (done ++ [(key, { p with type := u })]) text := by
  have hget : Dict.get? (done ++ [(key, { p with type := u })]) key =
      some { p with type := u } := by
    rw [Dict.get?_append_singleton, Dict.get?_eq_none_iff.mpr hkey, if_pos rfl, Option.none_or]
  unfold attachMember
  simp only
  rw [attach?, mapMembers?, hget]
  cases hattach : u.attach? m.2.name m.2 m.1 with
  | none => simp [hattach]
  | some u' => simp [hattach, Dict.insert_append_singleton hkey]

/-- The members of a table, attached one after another, make up the table. -/
theorem foldlM_nestedMembers {text : String} {members : List (String × Param)}
    (hkeys : ∀ e ∈ members, e.2.name = e.1)
    (ih : ∀ e ∈ members, e.2.type.nested.foldlM attachMember e.2.type.bare = some e.2.type) :
    ∀ done, (Dict.keys (done ++ members)).Nodup →
      (nestedMembers members).foldlM attachMember (.object done text) =
        some (.object (done ++ members) text) := by
  induction members with
  | nil => intro done _; rw [List.append_nil]; rfl
  | cons e rest ihrest =>
      obtain ⟨key, p⟩ := e
      intro done hnodup
      rw [List.forall_mem_cons] at hkeys ih
      have hkey : key ∉ Dict.keys done := by
        rw [Dict.keys, List.map_append, List.nodup_append] at hnodup
        exact fun hmem => hnodup.2.2 key hmem key (by simp) rfl
      have hname : p.name = key := hkeys.1
      have hfirst : attachMember (.object done text) ([], bareParam p) =
          some (.object (done ++ [(key, { p with type := p.type.bare })]) text) := by
        have hbare : (bareParam p).name = key := hname
        unfold attachMember
        simp only
        rw [attach?, mapMembers?, hbare, Dict.insert_of_not_mem hkey]
        rfl
      have hbelow : (p.type.nested.map fun m => (key :: m.1, m.2)).foldlM attachMember
          (.object (done ++ [(key, { p with type := p.type.bare })]) text) =
            some (.object (done ++ [(key, p)]) text) := by
        rw [List.foldlM_map]
        refine (foldlM_map_comm attachMember (fun t m => attachMember t (key :: m.1, m.2))
          (fun u => .object (done ++ [(key, { p with type := u })]) text)
          (attachMember_last hkey p text) p.type.nested p.type.bare).trans ?_
        rw [ih.1, Option.map_some, Param.eta]
      rw [nestedMembers, nestedParam_eq, List.cons_append, List.foldlM_cons, hfirst,
        Option.bind_eq_bind, Option.bind_some, List.foldlM_append, hbelow, Option.bind_eq_bind,
        Option.bind_some, ihrest hkeys.2 ih.2 _ (by simpa using hnodup)]
      simp

/-- **Members attached in order make up the type again.** -/
theorem foldlM_nested {t : DataType} (h : Writable t) :
    t.nested.foldlM attachMember t.bare = some t := by
  induction t using DataType.induct with
  | leaf kind text =>
      cases h
      rfl
  | bare text =>
      cases h
      rfl
  | array items text ih =>
      cases h with
      | array h =>
          refine (foldlM_map_comm attachMember attachMember (fun u => .array (some u) "")
            (fun u m => attachMember_array u "" m) items.nested items.bare).trans ?_
          rw [ih h]
          rfl
  | object members text ih =>
      cases h with
      | object nodup keys names descriptions types =>
          exact foldlM_nestedMembers keys (fun e he => ih e he (types e he)) [] nodup

end DataType

end ApiNotes
