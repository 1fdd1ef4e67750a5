/-
Nodes that hold a tree.

A format is expected to give back the tree that was written.  What it gives back is a node,
and a node need not look like the tree: most scalars of YAML are just characters until a
place asks for them, and a list may be read as the fields of a record.  `Node.holds` says
when a node and a tree come to the same: they have one shape, and each scalar, taken for what
its form says, is the text or the flag of the tree.  Among the nodes that hold a tree one is
settled (`Node.ofTree`), and all of them settle to it.
-/
import ApiNotes.Node
import ApiNotes.Proofs.Tables
import ApiNotes.Tree

namespace ApiNotes

namespace Tree

mutual

/-- How many lists and tables stand in each other. -/
def depth : Tree → Nat
  | .text _ | .flag _ => 0
  | .list items => depthItems items + 1
  | .table entries => depthEntries entries + 1

/-- The greatest depth of some trees. -/
def depthItems : List Tree → Nat
  | [] => 0
  | t :: rest => max (depth t) (depthItems rest)

/-- The greatest depth of the trees of some entries. -/
def depthEntries : List (String × Tree) → Nat
  | [] => 0
  | (_, t) :: rest => max (depth t) (depthEntries rest)

end

theorem depth_le_depthEntries {entries : List (String × Tree)} {e : String × Tree}
    (he : e ∈ entries) : e.2.depth ≤ depthEntries entries := by
  induction entries with
  | nil => cases he
  | cons first rest ih =>
      obtain ⟨key, t⟩ := first
      rcases List.mem_cons.mp he with rfl | hrest
      · exact le_max_left _ _
      · exact (ih hrest).trans (le_max_right _ _)

end Tree

namespace Node

/-! ### Nodes that hold a tree -/

mutual

/-- Whether a node says what a tree says. -/
def holds : Node → Tree → Bool
  | .text found, .text value => found == value
  | .scalar form found, .text value =>
    found == value && (form != .plain || Yaml.plainKind found == .text)
  | .flag found, .flag value => found == value
  | .scalar .plain found, .flag value => Yaml.plainKind found == .flag value
  | .row found, .list items | .list found, .list items => holdsItems found items
  | .table found, .table entries => holdsEntries found entries
  | _, _ => false

/-- Whether nodes say what trees say, one by one. -/
def holdsItems : List Node → List Tree → Bool
  | [], [] => true
  | node :: nodes, t :: rest => holds node t && holdsItems nodes rest
  | _, _ => false

/-- Whether entries say what the entries of a table say, one by one. -/
def holdsEntries : List (Node × Node) → List (String × Tree) → Bool
  | [], [] => true
  | (key, node) :: nodes, (name, t) :: rest =>
    holds key (.text name) && holds node t && holdsEntries nodes rest
  | _, _ => false

end

theorem holdsItems_iff {nodes : List Node} {items : List Tree} :
    holdsItems nodes items = true ↔
      List.Forall₂ (fun node t => node.holds t = true) nodes items := by
  induction nodes generalizing items with
  | nil => cases items <;> simp [holdsItems]
  | cons node rest ih => cases items <;> simp [holdsItems, ih]

/-- A key and a value say what an entry of a table says. -/
structure HoldsEntry (n : Node × Node) (e : String × Tree) : Prop where
  key : n.1.holds (.text e.1) = true
  value : n.2.holds e.2 = true

theorem holdsEntries_iff {nodes : List (Node × Node)} {entries : List (String × Tree)} :
    holdsEntries nodes entries = true ↔ List.Forall₂ HoldsEntry nodes entries := by
  induction nodes generalizing entries with
  | nil => cases entries <;> simp [holdsEntries]
  | cons n rest ih =>
      cases entries with
      | nil => simp [holdsEntries]
      | cons e entries =>
          have hentry : HoldsEntry n e ↔
              n.1.holds (.text e.1) = true ∧ n.2.holds e.2 = true :=
            ⟨fun h => ⟨h.key, h.value⟩, fun h => ⟨h.1, h.2⟩⟩
          simp [holdsEntries, ih, hentry]

theorem holds_text_iff {node : Node} {s : String} :
    node.holds (.text s) = true ↔ node = .text s ∨
      ∃ form, node = .scalar form s ∧ (form = .plain → Yaml.plainKind s = .text) := by
  cases node with
  | scalar form found =>
      simp only [holds, Bool.and_eq_true, beq_iff_eq, Bool.or_eq_true, bne_iff_ne]
      constructor
      · rintro ⟨rfl, h⟩
        exact .inr ⟨form, rfl, fun hform => h.resolve_left (absurd hform)⟩
      · rintro (h | ⟨_, h, hkind⟩)
        · cases h
        · cases h
          exact ⟨rfl, or_iff_not_imp_left.mpr fun hform => hkind (not_not.mp hform)⟩
  | _ => simp [holds]

theorem holds_flag_iff {node : Node} {b : Bool} :
    node.holds (.flag b) = true ↔ node = .flag b ∨
      ∃ word, node = .scalar .plain word ∧ Yaml.plainKind word = .flag b := by
  cases node with
  | scalar form found => cases form <;> simp [holds]
  | _ => simp [holds]

theorem holds_list_iff {node : Node} {items : List Tree} :
    node.holds (.list items) = true ↔ ∃ nodes, (node = .row nodes ∨ node = .list nodes) ∧
      List.Forall₂ (fun node t => node.holds t = true) nodes items := by
  cases node with
  | row nodes => simp [holds, holdsItems_iff]
  | list nodes => simp [holds, holdsItems_iff]
  | scalar form found => cases form <;> simp [holds]
  | _ => simp [holds]

theorem holds_table_iff {node : Node} {entries : List (String × Tree)} :
    node.holds (.table entries) = true ↔
      ∃ nodes, node = .table nodes ∧ List.Forall₂ HoldsEntry nodes entries := by
  cases node with
  | table nodes => simp [holds, holdsEntries_iff]
  | scalar form found => cases form <;> simp [holds]
  | _ => simp [holds]

/-! ### Settled nodes -/

mutual

/-- The settled node that holds a tree. -/
def ofTree : Tree → Node
  | .text value => .text value
  | .flag value => .flag value
  | .list items => .row (ofItems items)
  | .table entries => .table (ofEntries entries)

/-- The settled nodes that hold the elements of a list. -/
def ofItems : List Tree → List Node
  | [] => []
  | t :: rest => ofTree t :: ofItems rest

/-- The settled nodes that hold the entries of a table. -/
def ofEntries : List (String × Tree) → List (Node × Node)
  | [] => []
  | (key, t) :: rest => (.text key, ofTree t) :: ofEntries rest

end

mutual

theorem holds_ofTree : ∀ t : Tree, (ofTree t).holds t = true
  | .text _ | .flag _ => beq_self_eq_true _
  | .list items => holdsItems_ofItems items
  | .table entries => holdsEntries_ofEntries entries

theorem holdsItems_ofItems : ∀ items : List Tree, holdsItems (ofItems items) items = true
  | [] => rfl
  | t :: rest => by rw [ofItems, holdsItems, holds_ofTree t, holdsItems_ofItems rest]; rfl

theorem holdsEntries_ofEntries : ∀ entries : List (String × Tree),
    holdsEntries (ofEntries entries) entries = true
  | [] => rfl
  | (key, t) :: rest => by
      rw [ofEntries, holdsEntries, holds_ofTree t, holdsEntries_ofEntries rest, holds]
      simp

end

theorem settle?_text {node : Node} {s : String} (h : node.holds (.text s) = true) :
    node.settle? = some (.text s) := by
  rcases holds_text_iff.mp h with rfl | ⟨form, rfl, hkind⟩
  · rfl
  · cases form with
    | plain => rw [settle?, settlePlain, hkind rfl]
    | literal => rfl
    | quoted => rfl

theorem settle?_flag {node : Node} {b : Bool} (h : node.holds (.flag b) = true) :
    node.settle? = some (.flag b) := by
  rcases holds_flag_iff.mp h with rfl | ⟨word, rfl, hword⟩
  · rfl
  · rw [settle?, settlePlain, hword]

mutual

/-- **All nodes that hold a tree settle to one.** -/
theorem settle?_of_holds : ∀ {t : Tree} {node : Node}, node.holds t = true →
    node.settle? = some (ofTree t)
  | .text _, _, h => settle?_text h
  | .flag _, _, h => settle?_flag h
  | .list items, node, h => by
      obtain ⟨nodes, rfl | rfl, hnodes⟩ := holds_list_iff.mp h <;>
        rw [settle?, settleItems?_of_holds (holdsItems_iff.mpr hnodes), ofTree, Option.map_some]
  | .table entries, node, h => by
      obtain ⟨nodes, rfl, hnodes⟩ := holds_table_iff.mp h
      rw [settle?, settleEntries?_of_holds (holdsEntries_iff.mpr hnodes), ofTree, Option.map_some]

theorem settleItems?_of_holds : ∀ {items : List Tree} {nodes : List Node},
    holdsItems nodes items = true → settleItems? nodes = some (ofItems items)
  | [], [], _ => rfl
  | [], _ :: _, h | _ :: _, [], h => by simp [holdsItems] at h
  | t :: rest, node :: nodes, h => by
      rw [holdsItems, Bool.and_eq_true] at h
      rw [settleItems?, settle?_of_holds h.1, settleItems?_of_holds h.2]
      rfl

theorem settleEntries?_of_holds : ∀ {entries : List (String × Tree)}
    {nodes : List (Node × Node)}, holdsEntries nodes entries = true →
      settleEntries? nodes = some (ofEntries entries)
  | [], [], _ => rfl
  | [], _ :: _, h | _ :: _, [], h => by simp [holdsEntries] at h
  | (key, t) :: rest, (name, node) :: nodes, h => by
      rw [holdsEntries, Bool.and_eq_true, Bool.and_eq_true] at h
      rw [settleEntries?, settle?_text h.1.1, settle?_of_holds h.1.2,
        settleEntries?_of_holds h.2]
      rfl

end

/-! ### How deep a tree goes -/

mutual

theorem depth_le_height : ∀ {t : Tree} {node : Node}, node.holds t = true → t.depth ≤ node.height
  | .text _, _, _ | .flag _, _, _ => Nat.zero_le _
  | .list items, node, h => by
      obtain ⟨nodes, rfl | rfl, hnodes⟩ := holds_list_iff.mp h <;>
        exact Nat.succ_le_succ (depthItems_le (holdsItems_iff.mpr hnodes))
  | .table entries, node, h => by
      obtain ⟨nodes, rfl, hnodes⟩ := holds_table_iff.mp h
      exact Nat.succ_le_succ (depthEntries_le (holdsEntries_iff.mpr hnodes))

theorem depthItems_le : ∀ {items : List Tree} {nodes : List Node},
    holdsItems nodes items = true → Tree.depthItems items ≤ heightItems nodes
  | [], _, _ => Nat.zero_le _
  | _ :: _, [], h => by simp [holdsItems] at h
  | t :: rest, node :: nodes, h => by
      rw [holdsItems, Bool.and_eq_true] at h
      exact max_le_max (depth_le_height h.1) (depthItems_le h.2)

theorem depthEntries_le : ∀ {entries : List (String × Tree)} {nodes : List (Node × Node)},
    holdsEntries nodes entries = true → Tree.depthEntries entries ≤ heightEntries nodes
  | [], _, _ => Nat.zero_le _
  | _ :: _, [], h => by simp [holdsEntries] at h
  | (key, t) :: rest, (name, node) :: nodes, h => by
      rw [holdsEntries, Bool.and_eq_true, Bool.and_eq_true] at h
      exact max_le_max ((depth_le_height h.1.2).trans (le_max_right _ _)) (depthEntries_le h.2)

end

end Node

end ApiNotes
