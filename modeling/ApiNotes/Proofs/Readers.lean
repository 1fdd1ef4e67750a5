/-
What readers find in a node that holds a tree.

It does not matter which of the nodes that hold a tree is read: a reader finds the same in all
of them (`Reads`).  The readers of texts, flags, lists, tables and records are gone through here
once.  A record is read by the names of its fields, so what is found under each name is said
first (`Fields.Holds`), and then what becomes of a field that has to be there, that may be
missing, or that has a value of its own when it is.
-/
import ApiNotes.Proofs.Held

namespace ApiNotes

namespace Yaml

/-- What is neither empty nor a word for null is something else. -/
theorem not_null_of_plainKind {s : String} (h : plainKind s ≠ .null) :
    (s.isEmpty || isNullWord s) = false := by
  unfold plainKind at h
  split at h
  · exact absurd rfl h
  · rename_i hnull
    rwa [Bool.not_eq_true] at hnull

/-- What stands for a flag is its word: numbers come after the words. -/
theorem flagWord?_of_plainKind {s : String} {b : Bool} (h : plainKind s = .flag b) :
    flagWord? s = some b := by
  unfold plainKind at h
  split at h
  · cases h
  · split at h
    · rename_i value hword
      rw [hword, PlainKind.flag.inj h]
    · simp only at h
      split at h
      · rename_i kind hkind
        subst h
        obtain ⟨n, -, hn⟩ := Option.bind_eq_some_iff.mp hkind
        split_ifs at hn <;> cases hn
      · split at h <;> cases h

end Yaml

namespace Node

/-! ### What readers of values find -/

/-- A reader finds a value in every node that holds a tree. -/
def Reads {α : Type} (read : Node → Option α) (t : Tree) (value : α) : Prop :=
  ∀ node : Node, node.holds t = true → read node = some value

theorem reads_text (s : String) : Reads text? (.text s) s := by
  intro node h
  rcases holds_text_iff.mp h with rfl | ⟨form, rfl, -⟩ <;> rfl

theorem reads_flag (b : Bool) : Reads flag? (.flag b) b := by
  intro node h
  rcases holds_flag_iff.mp h with rfl | ⟨word, rfl, hword⟩
  · rfl
  · exact Yaml.flagWord?_of_plainKind hword

/-- What holds a tree is a value, and not a missing one. -/
theorem maybe?_of_holds {α : Type} {node : Node} {t : Tree} (h : node.holds t = true)
    (read : Node → Option α) : node.maybe? read = (read node).map some := by
  have hplain : ∀ word, node = .scalar .plain word → Yaml.plainKind word ≠ .null →
      node.maybe? read = (read node).map some := by
    rintro word rfl hword
    rw [maybe?, if_neg (by rw [Yaml.not_null_of_plainKind hword]; exact Bool.false_ne_true)]
  cases t with
  | text s =>
      rcases holds_text_iff.mp h with rfl | ⟨form, rfl, hkind⟩
      · rfl
      · cases form with
        | plain => exact hplain s rfl (by rw [hkind rfl]; nofun)
        | literal => rfl
        | quoted => rfl
  | flag b =>
      rcases holds_flag_iff.mp h with rfl | ⟨word, rfl, hword⟩
      · rfl
      · exact hplain word rfl (by rw [hword]; nofun)
  | list items =>
      obtain ⟨nodes, rfl | rfl, -⟩ := holds_list_iff.mp h <;> rfl
  | table entries =>
      obtain ⟨nodes, rfl, -⟩ := holds_table_iff.mp h
      rfl

/-- What is read one by one is all of what was written one by one. -/
theorem mapM_eq_some_of_forall₂ {α β γ : Type} {holds : β → γ → Prop} {read : β → Option α}
    {write : α → γ} {nodes : List β} {xs : List α} (h : List.Forall₂ holds nodes (xs.map write))
    (hread : ∀ x ∈ xs, ∀ node, holds node (write x) → read node = some x) :
    nodes.mapM read = some xs := by
  induction xs generalizing nodes with
  | nil =>
      cases h
      rfl
  | cons x rest ih =>
      cases h with
      | cons hnode hrest =>
          have hx := hread x List.mem_cons_self _ hnode
          have hxs := ih hrest fun y hy => hread y (List.mem_cons_of_mem _ hy)
          rw [List.mapM_cons, hx, hxs]
          rfl

theorem reads_list {α : Type} {read : Node → Option α} {write : α → Tree} {xs : List α}
    (h : ∀ x ∈ xs, Reads read (write x) x) : Reads (list? read) (.list (xs.map write)) xs := by
  intro node hnode
  obtain ⟨nodes, hform, hnodes⟩ := holds_list_iff.mp hnode
  have hitems : node.items? = some nodes := by
    rcases hform with rfl | rfl <;> rfl
  rw [list?, hitems]
  exact mapM_eq_some_of_forall₂ hnodes h

theorem reads_dict {α : Type} {read : Node → Option α} {write : α → Tree} {d : Dict α}
    (hkeys : (Dict.keys d).Nodup) (h : ∀ e ∈ d, Reads read (write e.2) e.2) :
    Reads (dict? read) (Tree.ofDict write d) d := by
  intro node hnode
  obtain ⟨nodes, rfl, hnodes⟩ := holds_table_iff.mp hnode
  have hentries : (nodes.mapM fun (n : Node × Node) => do
      let key ← n.1.text?
      let value ← read n.2
      some (key, value)) = some d := by
    refine mapM_eq_some_of_forall₂ hnodes fun e he n hn => ?_
    rw [reads_text e.1 n.1 hn.key, h e he n.2 hn.value]
    rfl
  rw [dict?, entries?]
  show (nodes.mapM _ >>= fun entries => some (Dict.ofEntries entries)) = some d
  rw [hentries]
  exact congrArg some (Dict.ofEntries_of_nodup hkeys)

/-! ### What readers of records find -/

/-- A key that holds a name is that name where a field is looked for. -/
theorem fieldName?_of_holds {key : Node} {name : String} (h : key.holds (.text name) = true)
    (names : List String) :
    fieldName? names key = some (if names.contains name then some name else none) := by
  rcases holds_text_iff.mp h with rfl | ⟨form, rfl, -⟩ <;> rfl

/-- The fields collected from a table are those with known names, in the order of the table. -/
theorem collect?_of_holds (names : List String) {nodes : List (Node × Node)}
    {entries : List (String × Tree)} (h : List.Forall₂ HoldsEntry nodes entries) :
    ∀ found : Dict Node, (Dict.keys found ++ Dict.keys entries).Nodup →
      ∃ more : Dict Node, collect? names found nodes = some (found ++ more) ∧
        List.Forall₂ (fun n e => n.1 = e.1 ∧ n.2.holds e.2 = true) more
          (entries.filter fun e => names.contains e.1) := by
  induction h with
  | nil => exact fun found _ => ⟨[], by rw [List.append_nil]; rfl, .nil⟩
  | @cons n e nodes entries hne _ ih =>
      intro found hkeys
      obtain ⟨key, value⟩ := n
      obtain ⟨name, t⟩ := e
      rw [collect?, fieldName?_of_holds hne.key]
      rw [Dict.keys_cons] at hkeys
      by_cases hname : names.contains name = true
      · have hnew : name ∉ Dict.keys found := fun hmem =>
          (List.nodup_append.mp hkeys).2.2 name hmem name List.mem_cons_self rfl
        have hkeys' : (Dict.keys (found ++ [(name, value)]) ++ Dict.keys entries).Nodup := by
          rw [Dict.keys, List.map_append, List.append_assoc]
          exact hkeys
        obtain ⟨more, hmore, hheld⟩ := ih _ hkeys'
        refine ⟨(name, value) :: more, ?_, ?_⟩
        · simp only [hname, if_true, Option.bind_eq_bind, Option.bind_some,
            Dict.get?_eq_none_iff.mpr hnew, Option.isSome_none, Bool.false_eq_true, if_false,
            Dict.insert_of_not_mem hnew, hmore, List.append_assoc, List.singleton_append]
        · simp only [List.filter_cons, hname, if_true]
          exact .cons ⟨rfl, hne.value⟩ hheld
      · have hkeys' : (Dict.keys found ++ Dict.keys entries).Nodup :=
          hkeys.sublist ((List.sublist_cons_self _ _).append_left _)
        obtain ⟨more, hmore, hheld⟩ := ih _ hkeys'
        refine ⟨more, ?_, ?_⟩
        · simp only [hname, if_false, Option.bind_eq_bind, Option.bind_some, hmore,
            Bool.false_eq_true]
        · simp only [List.filter_cons, hname, if_false, Bool.false_eq_true]
          exact hheld

/-- Where nodes hold the trees of a table one by one, they do so name by name. -/
theorem get?_rel_of_forall₂ {found : Dict Node} {entries : List (String × Tree)}
    (h : List.Forall₂ (fun n e => n.1 = e.1 ∧ n.2.holds e.2 = true) found entries)
    (name : String) :
    Option.Rel (fun node t => node.holds t = true) (Dict.get? found name)
      (Dict.get? entries name) := by
  induction h with
  | nil => exact .none
  | @cons n e _ _ hne _ ih =>
      obtain ⟨key, node⟩ := n
      obtain ⟨key', t⟩ := e
      obtain ⟨rfl, hnode⟩ : key = key' ∧ node.holds t = true := hne
      rw [Dict.get?_cons, Dict.get?_cons]
      split
      · exact .some hnode
      · exact ih

/-- The fields of a record that are found in a node hold what a table has under their names. -/
theorem fields?_of_holds {node : Node} {entries : List (String × Tree)}
    (h : node.holds (.table entries) = true) (hkeys : (Dict.keys entries).Nodup)
    (names : List String) :
    ∃ f, node.fields? names = some f ∧ f.inOrder = false ∧ ∀ name ∈ names,
      Option.Rel (fun node t => node.holds t = true) (Dict.get? f.found name)
        (Dict.get? entries name) := by
  obtain ⟨nodes, rfl, hnodes⟩ := holds_table_iff.mp h
  obtain ⟨found, hfound, hheld⟩ := collect?_of_holds names hnodes [] hkeys
  refine ⟨⟨false, found⟩, ?_, rfl, fun name hname => ?_⟩
  · show (collect? names [] nodes >>= fun found => some (⟨false, found⟩ : Fields)) = _
    rw [hfound]
    rfl
  · have hrel := get?_rel_of_forall₂ hheld name
    rwa [Dict.get?_filter_keys (names.contains ·), if_pos (List.contains_iff_mem.mpr hname)]
      at hrel

/-- A field has a given name, if it is present. -/
def Named (name : String) (field : Option (String × Tree)) : Prop :=
  ∀ e, field = some e → e.1 = name

@[simp] theorem named_field (name : String) (t : Tree) : Named name (Tree.field name t) := by
  rintro e ⟨⟩
  rfl

@[simp] theorem named_fieldSome {α : Type} (name : String) (write : α → Tree)
    (value : Option α) : Named name (Tree.fieldSome name write value) := by
  cases value with
  | none => rintro e ⟨⟩
  | some x =>
      rintro e ⟨⟩
      rfl

@[simp] theorem named_fieldList {α : Type} (name : String) (write : α → Tree)
    (values : List α) : Named name (Tree.fieldList name write values) := by
  cases values with
  | nil => rintro e ⟨⟩
  | cons x rest =>
      rintro e ⟨⟩
      rfl

@[simp] theorem named_fieldDict {α : Type} (name : String) (write : α → Tree)
    (entries : Dict α) : Named name (Tree.fieldDict name write entries) := by
  cases entries with
  | nil => rintro e ⟨⟩
  | cons x rest =>
      rintro e ⟨⟩
      rfl

/-- The fields that are present have names out of the list of all names, in its order. -/
theorem keys_present_sublist {names : List String} {fields : List (Option (String × Tree))}
    (h : List.Forall₂ Named names fields) :
    (Dict.keys (fields.filterMap id)).Sublist names := by
  induction h with
  | nil => exact .slnil
  | @cons name field _ _ hname _ ih =>
      cases field with
      | none => exact ih.cons name
      | some e =>
          obtain rfl := hname e rfl
          exact ih.cons_cons e.1

/-- Under each name stands its field. -/
theorem get?_present {names : List String} {fields : List (Option (String × Tree))}
    (h : List.Forall₂ Named names fields) (hnames : names.Nodup) :
    ∀ p ∈ names.zip fields, Dict.get? (fields.filterMap id) p.1 = p.2.map Prod.snd := by
  induction h with
  | nil => nofun
  | @cons name field names fields hname hrest ih =>
      obtain ⟨hnew, hothers⟩ := List.nodup_cons.mp hnames
      have habsent : Dict.get? (fields.filterMap id) name = none :=
        Dict.get?_eq_none_iff.mpr fun hmem => hnew ((keys_present_sublist hrest).subset hmem)
      rw [List.zip_cons_cons, List.forall_mem_cons]
      cases field with
      | none => exact ⟨habsent, ih hothers⟩
      | some e =>
          obtain ⟨key, t⟩ := e
          obtain rfl : key = name := hname _ rfl
          refine ⟨if_pos rfl, fun p hp => ?_⟩
          have hne : key ≠ p.1 := fun heq => hnew (heq ▸ (List.of_mem_zip hp).1)
          exact (if_neg hne).trans (ih hothers p hp)

namespace Fields

/-- Under a name was found what a field says, or nothing when it is absent. -/
structure Holds (f : Fields) (name : String) (field : Option (String × Tree)) : Prop where
  named : f.inOrder = false
  rel : Option.Rel (fun node t => node.holds t = true) (Dict.get? f.found name)
    (field.map Prod.snd)

namespace Holds

variable {f : Fields} {name : String}

theorem present {e : String × Tree} (h : f.Holds name (some e)) :
    ∃ node, Dict.get? f.found name = some node ∧ node.holds e.2 = true := by
  generalize hfound : Dict.get? f.found name = found
  have hrel := h.rel
  rw [hfound] at hrel
  cases hrel with
  | some hnode => exact ⟨_, rfl, hnode⟩

theorem absent (h : f.Holds name none) : Dict.get? f.found name = none := by
  generalize hfound : Dict.get? f.found name = found
  have hrel := h.rel
  rw [hfound] at hrel
  cases hrel
  rfl

variable {α : Type} {read : Node → Option α} {write : α → Tree}

theorem required {key : String} {t : Tree} {value : α} (h : f.Holds name (Tree.field key t))
    (hread : Reads read t value) : f.required name read = some value := by
  obtain ⟨node, hfound, hnode⟩ := present h
  rw [Fields.required, hfound]
  exact hread node hnode

theorem orElse {key : String} {t : Tree} {value default : α} (h : f.Holds name (Tree.field key t))
    (hread : Reads read t value) : f.orElse name default read = some value := by
  obtain ⟨node, hfound, hnode⟩ := present h
  rw [Fields.orElse, hfound]
  exact hread node hnode

theorem maybe {key : String} {value : Option α} (h : f.Holds name (Tree.fieldSome key write value))
    (hread : ∀ x, value = some x → Reads read (write x) x) :
    f.maybe name read = some value := by
  cases value with
  | none =>
      rw [Fields.maybe, absent h, h.named]
      rfl
  | some x =>
      obtain ⟨node, hfound, hnode⟩ := present h
      rw [Fields.maybe, hfound]
      show node.maybe? read = some (some x)
      rw [maybe?_of_holds hnode, hread x rfl node hnode]
      rfl

theorem list {key : String} {xs : List α} (h : f.Holds name (Tree.fieldList key write xs))
    (hread : ∀ x ∈ xs, Reads read (write x) x) :
    f.orElse name [] (list? read) = some xs := by
  cases xs with
  | nil => rw [Fields.orElse, absent h]
  | cons x rest =>
      obtain ⟨node, hfound, hnode⟩ := present h
      rw [Fields.orElse, hfound]
      exact reads_list hread node hnode

theorem dict {key : String} {d : Dict α} (h : f.Holds name (Tree.fieldDict key write d))
    (hkeys : (Dict.keys d).Nodup) (hread : ∀ e ∈ d, Reads read (write e.2) e.2) :
    f.orElse name [] (dict? read) = some d := by
  cases d with
  | nil => rw [Fields.orElse, absent h]
  | cons x rest =>
      obtain ⟨node, hfound, hnode⟩ := present h
      rw [Fields.orElse, hfound]
      exact reads_dict hkeys hread node hnode

end Holds

end Fields

/-- Under each of some names was found what its field says. -/
def Fields.HoldsAll (f : Fields) : List String → List (Option (String × Tree)) → Prop
  | name :: names, field :: fields => f.Holds name field ∧ f.HoldsAll names fields
  | _, _ => True

theorem Fields.holdsAll_of_zip {f : Fields} {names : List String}
    {fields : List (Option (String × Tree))}
    (h : ∀ p ∈ names.zip fields, f.Holds p.1 p.2) : f.HoldsAll names fields := by
  induction names generalizing fields with
  | nil => exact True.intro
  | cons name names ih =>
      cases fields with
      | nil => exact True.intro
      | cons field fields =>
          rw [List.zip_cons_cons, List.forall_mem_cons] at h
          exact ⟨h.1, ih h.2⟩

/-- A record is read as soon as its fields are, once each of them was found. -/
theorem reads_record {α : Type} {names : List String} {fields : List (Option (String × Tree))}
    {build : Fields → Option α} {value : α} (hnamed : List.Forall₂ Named names fields)
    (hnames : names.Nodup)
    (hbuild : ∀ f : Fields, f.HoldsAll names fields → build f = some value) :
    Reads (fun node => do let f ← node.fields? names; build f) (Tree.ofFields fields) value := by
  intro node hnode
  have hkeys := hnames.sublist (keys_present_sublist hnamed)
  obtain ⟨f, hf, horder, hrel⟩ := fields?_of_holds hnode hkeys names
  have hheld : f.HoldsAll names fields := by
    refine Fields.holdsAll_of_zip fun p hp => ⟨horder, ?_⟩
    rw [← get?_present hnamed hnames p hp]
    exact hrel p.1 (List.of_mem_zip hp).1
  show (node.fields? names >>= build) = some value
  rw [hf]
  exact hbuild f hheld

end Node

end ApiNotes
