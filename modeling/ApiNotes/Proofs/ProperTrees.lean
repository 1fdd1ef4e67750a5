/-
Trees of files whose names are names.

The entries of a directory have different names, and no name has a slash in it or is a step
of a path that means something else.  A tree as a list of entries does not have to be like
that; but whatever a run makes of a proper tree, by creating directories and writing files,
is proper again, since it only puts things under names that paths have led to.
-/
import ApiNotes.Generate
import ApiNotes.Proofs.EntryPaths

namespace ApiNotes.FileTree

/-! ### Induction over a tree -/

theorem sizeOf_entry_lt {entries : List (String × FileTree)} {e : String × FileTree}
    (he : e ∈ entries) : sizeOf e.2 < 1 + sizeOf entries := by
  have hlt := List.sizeOf_lt_of_mem he
  obtain ⟨name, tree⟩ := e
  simp only [Prod.mk.sizeOf_spec] at hlt ⊢
  omega

/-- A statement holds of every tree when it passes from the entries of a directory to the
directory. -/
theorem induct {motive : FileTree → Prop} (file : ∀ content, motive (.file content))
    (directory : ∀ entries, (∀ e ∈ entries, motive e.2) → motive (.directory entries))
    (special : motive .special) : ∀ tree, motive tree
  | .file content => file content
  | .directory entries => directory entries fun e he =>
      have := sizeOf_entry_lt he
      induct file directory special e.2
  | .special => special
termination_by tree => sizeOf tree

/-! ### Proper trees -/

mutual

/-- At every depth, the entries of a directory have different names, which are names. -/
def Proper : FileTree → Prop
  | .file _ | .special => True
  | .directory entries => (entries.map Prod.fst).Nodup ∧ ProperEntries entries

/-- Each entry has a name and is proper. -/
def ProperEntries : List (String × FileTree) → Prop
  | [] => True
  | (name, tree) :: rest => Path.IsEntryName name ∧ Proper tree ∧ ProperEntries rest

end

theorem properEntries_iff {entries : List (String × FileTree)} :
    ProperEntries entries ↔ ∀ e ∈ entries, Path.IsEntryName e.1 ∧ e.2.Proper := by
  induction entries with
  | nil => simp [ProperEntries]
  | cons e rest ih => rw [ProperEntries, ih, List.forall_mem_cons, and_assoc]

theorem proper_empty : (directory []).Proper := by
  rw [Proper]
  exact ⟨List.nodup_nil, trivial⟩

theorem proper_file (content : Option String) : (file content).Proper := by
  rw [Proper]
  trivial

theorem proper_directory_iff {entries : List (String × FileTree)} :
    (directory entries).Proper ↔ (entries.map Prod.fst).Nodup ∧
      ∀ e ∈ entries, Path.IsEntryName e.1 ∧ e.2.Proper := by
  rw [Proper, properEntries_iff]

/-! ### What names lead to -/

/-- In a directory whose entries have different names, a name leads to its entry. -/
theorem lookup_eq_some_iff {entries : List (String × FileTree)}
    (h : (entries.map Prod.fst).Nodup) {name : String} {tree : FileTree} :
    entries.lookup name = some tree ↔ (name, tree) ∈ entries := by
  rw [List.lookup_eq_some_iff]
  constructor
  · rintro ⟨front, back, rfl, -⟩
    exact List.mem_append_right _ List.mem_cons_self
  · intro hmem
    obtain ⟨front, back, rfl⟩ := List.append_of_mem hmem
    refine ⟨front, back, rfl, fun e he => ?_⟩
    rw [List.map_append, List.map_cons, List.nodup_append] at h
    have hne := h.2.2 e.1 (List.mem_map_of_mem he) name List.mem_cons_self
    simpa using Ne.symm hne

theorem get?_cons (entries : List (String × FileTree)) (name : String) (names : List String) :
    (directory entries).get? (name :: names) = (entries.lookup name).bind (·.get? names) := by
  rw [get?, FileTree.entries]
  cases entries.lookup name <;> rfl

theorem get?_cons_eq_some_iff {entries : List (String × FileTree)}
    (h : (entries.map Prod.fst).Nodup) {name : String} {names : List String} {found : FileTree} :
    (directory entries).get? (name :: names) = some found ↔
      ∃ tree, (name, tree) ∈ entries ∧ tree.get? names = some found := by
  simp only [get?_cons, Option.bind_eq_some_iff, lookup_eq_some_iff h]

/-- In a proper tree only names of entries lead anywhere. -/
theorem Proper.entryNames {tree found : FileTree} (h : tree.Proper) {names : List String}
    (hfound : tree.get? names = some found) : Path.EntryNames names := by
  induction names generalizing tree with
  | nil => exact List.forall_mem_nil _
  | cons name names ih =>
      cases tree with
      | file | special => cases hfound
      | directory entries =>
          rw [proper_directory_iff] at h
          obtain ⟨tree, htree, hfound⟩ := (get?_cons_eq_some_iff h.1).mp hfound
          exact List.forall_mem_cons.mpr ⟨(h.2 _ htree).1, ih (h.2 _ htree).2 hfound⟩

theorem Proper.get? {tree found : FileTree} (h : tree.Proper) {names : List String}
    (hfound : tree.get? names = some found) : found.Proper := by
  induction names generalizing tree with
  | nil =>
      cases hfound
      exact h
  | cons name names ih =>
      cases tree with
      | file | special => cases hfound
      | directory entries =>
          rw [proper_directory_iff] at h
          obtain ⟨tree, htree, hfound⟩ := (get?_cons_eq_some_iff h.1).mp hfound
          exact ih (h.2 _ htree).2 hfound

/-! ### Changes -/

theorem keys_putEntry (content : FileTree) (name : String) (names : List String)
    (entries : List (String × FileTree)) :
    (putEntry content name names entries).map Prod.fst = entries.map Prod.fst := by
  induction entries with
  | nil => rfl
  | cons e rest ih =>
      rw [putEntry]
      split
      · rfl
      · rw [List.map_cons, ih, List.map_cons]

/-- Below a name is what was there before, or that with something put into it. -/
theorem mem_putEntry {content : FileTree} {name : String} {names : List String}
    {entries : List (String × FileTree)} {e : String × FileTree}
    (he : e ∈ putEntry content name names entries) :
    e ∈ entries ∨ ∃ tree, (e.1, tree) ∈ entries ∧ e.2 = put content names tree := by
  induction entries with
  | nil => cases he
  | cons first rest ih =>
      rw [putEntry] at he
      split at he
      · rcases List.mem_cons.mp he with rfl | he
        · exact .inr ⟨first.2, List.mem_cons_self, rfl⟩
        · exact .inl (List.mem_cons_of_mem _ he)
      · rcases List.mem_cons.mp he with rfl | he
        · exact .inl List.mem_cons_self
        · rcases ih he with hold | ⟨tree, htree, hput⟩
          · exact .inl (List.mem_cons_of_mem _ hold)
          · exact .inr ⟨tree, List.mem_cons_of_mem _ htree, hput⟩

/-- A tree stays proper when something proper is put under names that entries can have. -/
theorem Proper.put {content : FileTree} (hcontent : content.Proper) {names : List String}
    (hnames : Path.EntryNames names) {tree : FileTree} (h : tree.Proper) :
    (put content names tree).Proper := by
  induction names generalizing tree with
  | nil => simpa [FileTree.put] using hcontent
  | cons name names ih =>
      obtain ⟨hname, hnames⟩ := List.forall_mem_cons.mp hnames
      cases tree with
      | file | special => simp [FileTree.put, Proper]
      | directory entries =>
          rw [proper_directory_iff] at h
          rw [FileTree.put]
          split
          · rw [proper_directory_iff, keys_putEntry]
            refine ⟨h.1, fun e he => ?_⟩
            rcases mem_putEntry he with hold | ⟨tree, htree, hput⟩
            · exact h.2 e hold
            · rw [hput]
              exact ⟨(h.2 _ htree).1, ih hnames (h.2 _ htree).2⟩
          · rename_i hfree
            have hnew : name ∉ entries.map Prod.fst := by
              simpa using hfree
            rw [proper_directory_iff, List.map_append, List.map_singleton]
            refine ⟨List.Nodup.append h.1 (List.nodup_singleton name) (by simpa using hnew), ?_⟩
            rw [List.forall_mem_append, List.forall_mem_singleton]
            exact ⟨h.2, hname, hcontent⟩

/-! ### Paths -/

/-- Steps in a row keep what each of them keeps. -/
theorem foldlM_keeps {σ α : Type} {f : σ → α → Option σ} {motive : σ → Prop} {xs : List α}
    (step : ∀ x ∈ xs, ∀ s s', motive s → f s x = some s' → motive s') {s s' : σ} (hs : motive s)
    (h : xs.foldlM f s = some s') : motive s' := by
  induction xs generalizing s with
  | nil =>
      cases h
      exact hs
  | cons x xs ih =>
      rw [List.forall_mem_cons] at step
      obtain ⟨next, hnext, h⟩ := Option.bind_eq_some_iff.mp h
      exact ih step.2 (step.1 s next hs hnext) h

/-- One step leads from names to names. -/
theorem entryNames_follow? {tree : FileTree} {names names' : List String} {segment : String}
    (hnames : Path.EntryNames names) (hslash : '/' ∉ segment.toList)
    (h : tree.follow? names segment = some names') : Path.EntryNames names' := by
  unfold FileTree.follow? at h
  split_ifs at h with hdirectory hhere habove hroot
  · cases h
    exact hnames
  · cases h
    exact fun n hn => hnames n (List.mem_of_mem_dropLast hn)
  · cases h
    simp only [Bool.or_eq_true, String.isEmpty_iff, beq_iff_eq, not_or] at hhere habove
    have hsegment : Path.IsEntryName segment := ⟨hhere.1, hslash, hhere.2, habove⟩
    exact List.forall_mem_append.mpr ⟨hnames, List.forall_mem_singleton.mpr hsegment⟩

theorem entryNames_locate? {tree : FileTree} {path : String} {names : List String}
    (h : tree.locate? path = some names) : Path.EntryNames names := by
  unfold locate? at h
  split at h
  · cases h
  · refine foldlM_keeps (motive := Path.EntryNames) (fun segment hsegment _ _ hnames hnext => ?_)
      (List.forall_mem_nil _) h
    exact entryNames_follow? hnames (Path.slash_not_mem_segment hsegment) hnext

/-- What a path leads to in a proper tree is proper. -/
theorem Proper.resolve? {tree found : FileTree} (h : tree.Proper) {path : String}
    (hfound : tree.resolve? path = some found) : found.Proper := by
  obtain ⟨names, -, hget⟩ := Option.bind_eq_some_iff.mp hfound
  exact h.get? hget

theorem Proper.write? {tree tree' : FileTree} (h : tree.Proper) {path content : String}
    (hwrite : tree.write? path content = some tree') : tree'.Proper := by
  unfold FileTree.write? at hwrite
  obtain ⟨names, hnames, hwrite⟩ := Option.bind_eq_some_iff.mp hwrite
  obtain ⟨-, -, hwrite⟩ := Option.bind_eq_some_iff.mp hwrite
  cases hwrite
  exact Proper.put (proper_file _) (entryNames_locate? hnames) h

/-- A place is a proper tree and names in it. -/
def ProperPlace (place : FileTree × List String) : Prop := place.1.Proper ∧ Path.EntryNames place.2

theorem ProperPlace.enter? {place place' : FileTree × List String} {segment : String}
    (h : ProperPlace place) (hslash : '/' ∉ segment.toList)
    (henter : FileTree.enter? place segment = some place') : ProperPlace place' := by
  obtain ⟨tree, names⟩ := place
  unfold FileTree.enter? at henter
  obtain ⟨names', hnames', henter⟩ := Option.bind_eq_some_iff.mp henter
  have hall := entryNames_follow? h.2 hslash hnames'
  split at henter
  · cases henter
    exact ⟨h.1, hall⟩
  · cases henter
  · cases henter
  · cases henter
    exact ⟨Proper.put proper_empty hall h.1, hall⟩

theorem Proper.createDirectories? {tree tree' : FileTree} (h : tree.Proper) {path : String}
    (hcreate : tree.createDirectories? path = some tree') : tree'.Proper := by
  unfold FileTree.createDirectories? at hcreate
  split_ifs at hcreate with hempty hroot
  · cases hcreate
    exact h
  · obtain ⟨place, hplace, rfl⟩ := Option.map_eq_some_iff.mp hcreate
    have hstart : ProperPlace (tree, []) := ⟨h, List.forall_mem_nil _⟩
    refine (foldlM_keeps (motive := ProperPlace) (fun segment hsegment _ _ hprev hnext => ?_)
      hstart hplace).1
    exact hprev.enter? (Path.slash_not_mem_segment hsegment) hnext

/-- **The tree that holds proper entries is proper.** -/
theorem proper_ofEntries {entries : List (String × FileTree)} (h : ∀ e ∈ entries, e.2.Proper) :
    (ofEntries entries).Proper := by
  unfold ofEntries
  refine List.foldlRecOn (motive := Proper) entries _ proper_empty fun tree htree e he => ?_
  obtain ⟨path, content⟩ := e
  cases hparent : tree.createDirectories? ((Path.parent? path).getD "") with
  | none => simpa only [hparent] using htree
  | some below =>
      have hbelow := htree.createDirectories? hparent
      simp only [hparent]
      cases content with
      | file | special =>
          dsimp only
          cases hnames : below.locate? path with
          | none => exact hbelow
          | some names => exact Proper.put (h _ he) (entryNames_locate? hnames) hbelow
      | directory entries =>
          dsimp only
          cases hcreate : below.createDirectories? path with
          | none => exact hbelow
          | some tree' => exact hbelow.createDirectories? hcreate

/-- **A run in memory sees proper trees only.**  What it looks at is proper, and the tree that it
leaves is, whatever it creates or writes. -/
theorem Proper.files {tree : FileTree} (h : tree.Proper) (path content : String) :
    (∀ found, ((FileTree.files.look path).run tree).1 = some found → found.Proper) ∧
    ((FileTree.files.look path).run tree).2.Proper ∧
    ((FileTree.files.createDirectories path).run tree).2.Proper ∧
    ((FileTree.files.write path content).run tree).2.Proper := by
  refine ⟨fun found hfound => h.resolve? hfound, h, ?_, ?_⟩
  · have hrun : ((FileTree.files.createDirectories path).run tree).2 =
        (tree.createDirectories? path).getD tree := by
      cases hcreate : tree.createDirectories? path <;> simp [FileTree.files, hcreate] <;> rfl
    rw [hrun]
    cases hcreate : tree.createDirectories? path with
    | none => exact h
    | some tree' => exact h.createDirectories? hcreate
  · have hrun : ((FileTree.files.write path content).run tree).2 =
        (tree.write? path content).getD tree := by
      cases hwrite : tree.write? path content <;> simp [FileTree.files, hwrite] <;> rfl
    rw [hrun]
    cases hwrite : tree.write? path content with
    | none => exact h
    | some tree' => exact h.write? hwrite

end ApiNotes.FileTree
