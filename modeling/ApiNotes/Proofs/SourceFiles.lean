/-
The walk of a directory finds exactly its source files.

A walk prunes: what it passes over is never looked into.  Which files it gets to is said
here without walking, by the names that lead to a file: none of them starts with a dot,
and none but the last, which is the file's own, is that of a directory that is passed
over.  The two agree because a walk takes these names one by one.  As the entries of a
directory have different names, the files have different paths, and so they stand in one
order only, each of them once.
-/
import ApiNotes.Proofs.FileOrder
import ApiNotes.Proofs.Letters
import ApiNotes.Proofs.ProperTrees
import ApiNotes.Sources

namespace ApiNotes

namespace FileTree

/-! ### What a walk gets to -/

/-- A walk follows these names to a file: none of them is hidden, and none in front of the last is
that of a directory that is passed over. -/
structure Walked (names : List String) : Prop where
  shown : ∀ n ∈ names, n.toList.head? ≠ some '.'
  entered : ∀ n ∈ names.dropLast, n ∉ skippedNames

theorem walked_nil : Walked [] := ⟨List.forall_mem_nil _, List.forall_mem_nil _⟩

/-- What leads to a file by names is a directory, unless it is the file itself. -/
theorem kind_of_get? {tree : FileTree} {names : List String} {content : Option String}
    (h : tree.get? names = some (.file content)) :
    (tree.isDirectory = true ↔ names ≠ []) ∧ (tree.isFile = true ↔ names = []) := by
  cases names with
  | nil =>
      cases h
      simp [isDirectory, isFile]
  | cons name names =>
      cases tree with
      | directory entries => simp [isDirectory, isFile]
      | file | special => cases h

/-- A walk goes on behind a name unless it passes over what stands there. -/
theorem walked_cons {tree : FileTree} {name : String} {names : List String}
    {content : Option String} (h : tree.get? names = some (.file content)) :
    Walked (name :: names) ↔ isSkipped name tree = false ∧ Walked names := by
  have hskipped : isSkipped name tree = false ↔
      name.toList.head? ≠ some '.' ∧ (names ≠ [] → name ∉ skippedNames) := by
    rw [← (kind_of_get? h).1]
    simp [isSkipped]
  rw [hskipped]
  have hentered : (∀ n ∈ (name :: names).dropLast, n ∉ skippedNames) ↔
      (names ≠ [] → name ∉ skippedNames) ∧ ∀ n ∈ names.dropLast, n ∉ skippedNames := by
    cases names with
    | nil => simp
    | cons => simp
  constructor
  · rintro ⟨hshown, hdirectories⟩
    rw [List.forall_mem_cons] at hshown
    rw [hentered] at hdirectories
    exact ⟨⟨hshown.1, hdirectories.1⟩, hshown.2, hdirectories.2⟩
  · rintro ⟨⟨hname, hdirectory⟩, hshown, hdirectories⟩
    exact ⟨List.forall_mem_cons.mpr ⟨hname, hshown⟩, hentered.mpr ⟨hdirectory, hdirectories⟩⟩

theorem filesBelow_eq (path : String) (entries : List (String × FileTree)) :
    filesBelow path entries = entries.flatMap fun e =>
      if isSkipped e.1 e.2 then [] else filesAt (Path.join path e.1) e.2 := by
  induction entries with
  | nil => rfl
  | cons e rest ih => rw [filesBelow, ih, List.flatMap_cons]

/-- **A walk gets to the files that its names lead to**, from whatever path it starts. -/
theorem mem_filesAt {p : String} {content : Option String} {tree : FileTree} (h : tree.Proper) :
    ∀ path, (p, content) ∈ filesAt path tree ↔
      ∃ names, p = Path.below path names ∧ tree.get? names = some (.file content) ∧
        Walked names := by
  induction tree using induct with
  | file own =>
      intro path
      rw [filesAt, List.mem_singleton]
      constructor
      · rintro ⟨rfl, rfl⟩
        exact ⟨[], rfl, rfl, walked_nil⟩
      · rintro ⟨names, rfl, hfound, -⟩
        cases names with
        | nil =>
            cases hfound
            rfl
        | cons => cases hfound
  | special =>
      intro path
      refine iff_of_false List.not_mem_nil ?_
      rintro ⟨names, -, hfound, -⟩
      cases names <;> cases hfound
  | directory entries ih =>
      intro path
      rw [proper_directory_iff] at h
      rw [filesAt, filesBelow_eq, List.mem_flatMap]
      constructor
      · rintro ⟨e, he, hmem⟩
        split at hmem
        · cases hmem
        · rename_i hskipped
          obtain ⟨names, hp, hfound, hwalked⟩ := (ih e he (h.2 e he).2 _).mp hmem
          refine ⟨e.1 :: names, hp, (get?_cons_eq_some_iff h.1).mpr ⟨e.2, he, hfound⟩, ?_⟩
          exact (walked_cons hfound).mpr ⟨by simpa using hskipped, hwalked⟩
      · rintro ⟨names, hp, hfound, hwalked⟩
        cases names with
        | nil => cases hfound
        | cons name names =>
            obtain ⟨tree, htree, hfound⟩ := (get?_cons_eq_some_iff h.1).mp hfound
            obtain ⟨hskipped, hwalked⟩ := (walked_cons hfound).mp hwalked
            refine ⟨(name, tree), htree, ?_⟩
            rw [if_neg (by simp [hskipped])]
            exact (ih _ htree (h.2 _ htree).2 _).mpr ⟨names, hp, hfound, hwalked⟩

/-- The files below a directory have paths that compare as different. -/
theorem apart_filesAt {tree : FileTree} (h : tree.Proper) :
    ∀ path, (filesAt path tree).Pairwise fun a b => Path.Apart a.1 b.1 := by
  induction tree using induct with
  | file own => exact fun path => List.pairwise_singleton _ _
  | special => exact fun path => List.Pairwise.nil
  | directory entries ih =>
      intro path
      rw [proper_directory_iff] at h
      rw [filesAt, filesBelow_eq, List.pairwise_flatMap]
      constructor
      · intro e he
        split
        · exact List.Pairwise.nil
        · exact ih e he (h.2 e he).2 _
      · -- files of different entries differ in the step behind that of the directory
        have hsteps : ∀ e ∈ entries, ∀ x ∈ (if isSkipped e.1 e.2 then []
            else filesAt (Path.join path e.1) e.2), ∃ rest, Path.components x.1 =
              Path.components path ++ .entry e.1 :: rest := by
          intro e he x hx
          split at hx
          · cases hx
          · have hproper := h.2 e he
            obtain ⟨names, hp, hfound, -⟩ := (mem_filesAt hproper.2 _).mp hx
            refine ⟨names.map .entry, ?_⟩
            rw [hp, Path.components_below _ (hproper.2.entryNames hfound),
              Path.components_join path hproper.1, List.append_assoc, List.singleton_append]
        refine (List.pairwise_map.mp h.1).imp_of_mem fun {a b} ha hb hne x hx y hy => ?_
        obtain ⟨xs, hxs⟩ := hsteps a ha x hx
        obtain ⟨ys, hys⟩ := hsteps b hb y hy
        rw [Path.apart_iff, hxs, hys]
        simp [hne]

theorem nodup_directFiles {entries : List (String × FileTree)}
    (h : (entries.map Prod.fst).Nodup) : ((directFiles entries).map Prod.fst).Nodup :=
  List.Nodup.sublist (List.filter_sublist.map Prod.fst) h

theorem proper_directFiles {entries : List (String × FileTree)}
    (h : (directory entries).Proper) : (directory (directFiles entries)).Proper := by
  rw [proper_directory_iff] at h ⊢
  exact ⟨nodup_directFiles h.1, fun e he => h.2 e (List.mem_filter.mp he).1⟩

/-- The files directly in a directory are those that one name leads to. -/
theorem get?_directFiles {entries : List (String × FileTree)} {names : List String}
    {content : Option String} (h : (entries.map Prod.fst).Nodup) :
    (directory (directFiles entries)).get? names = some (.file content) ↔
      (directory entries).get? names = some (.file content) ∧ names.length = 1 := by
  cases names with
  | nil =>
      have hdirectory : ∀ entries, (directory entries).get? [] ≠ some (.file content) := by
        rintro entries ⟨⟩
      exact iff_of_false (hdirectory _) fun hfound => hdirectory _ hfound.1
  | cons name names =>
      have hone : (name :: names).length = 1 ↔ names = [] := by simp
      rw [get?_cons_eq_some_iff (nodup_directFiles h), get?_cons_eq_some_iff h, hone]
      constructor
      · rintro ⟨tree, htree, hfound⟩
        obtain ⟨hmem, hfile⟩ := List.mem_filter.mp htree
        exact ⟨⟨tree, hmem, hfound⟩, (kind_of_get? hfound).2.mp hfile⟩
      · rintro ⟨⟨tree, htree, hfound⟩, hnil⟩
        exact ⟨tree, List.mem_filter.mpr ⟨htree, (kind_of_get? hfound).2.mpr hnil⟩, hfound⟩

end FileTree

/-! ### Languages by name -/

/-- A language takes a file by its name when the name has one of its extensions, whatever the case
of either. -/
def Language.Takes (language : Language) (name : String) : Prop :=
  ∃ known ∈ language.extensions, ∃ extension,
    Path.HasExtension name extension ∧ Text.SameLetters (bareExtension known) extension

theorem Language.claims_iff {language : Language} {path name : String}
    (h : Path.fileName? path = some name) :
    language.claims path = true ↔ language.Takes name := by
  have hclaims : language.claims path = true ↔ ∃ extension,
      Path.extension? path = some extension ∧
        ∃ known ∈ language.extensions, Text.SameLetters (bareExtension known) extension := by
    unfold claims
    cases Path.extension? path with
    | none => simp
    | some extension => simp [Text.eqIgnoreCase_iff_sameLetters]
  rw [hclaims]
  simp only [Path.extension?_eq_some_iff h, Takes]
  constructor
  · rintro ⟨extension, hextension, known, hknown, hsame⟩
    exact ⟨known, hknown, extension, hextension, hsame⟩
  · rintro ⟨known, hknown, extension, hextension, hsame⟩
    exact ⟨extension, hextension, known, hknown, hsame⟩

/-- Of the languages of a registry that take a file by its name, this one stands first. -/
def Registry.FirstTaking (registry : Registry) (name : String) (language : Language) : Prop :=
  language.Takes name ∧ ∃ before after, registry.languages = before ++ language :: after ∧
    ∀ earlier ∈ before, ¬earlier.Takes name

theorem Registry.detect?_eq_some_iff {registry : Registry} {path name : String}
    {language : Language} (h : Path.fileName? path = some name) :
    registry.detect? path = some language ↔ registry.FirstTaking name language := by
  rw [detect?, List.find?_eq_some_iff_append, FirstTaking, Language.claims_iff h]
  simp [← Language.claims_iff h]

/-! ### Source files -/

namespace FileTree

/-- A source file of a directory, by the names that lead to it. -/
structure SourceAt (registry : Registry) (recursive : Bool) (path : String)
    (entries : List (String × FileTree)) (names : List String) (f : SourceFile) : Prop where
  found : (directory entries).get? names = some (.file f.content)
  path : f.path = Path.below path names
  walked : Walked names
  direct : recursive = false → names.length = 1
  /-- Its language is the first one that takes it by its own name. -/
  language : ∃ name, names.getLast? = some name ∧ registry.FirstTaking name f.language

/-- The entries that a walk goes through. -/
def walkedEntries (recursive : Bool) (entries : List (String × FileTree)) :
    List (String × FileTree) :=
  if recursive then entries else directFiles entries

theorem proper_walkedEntries {recursive : Bool} {entries : List (String × FileTree)}
    (h : (directory entries).Proper) : (directory (walkedEntries recursive entries)).Proper := by
  cases recursive with
  | false => exact proper_directFiles h
  | true => exact h

theorem get?_walkedEntries {recursive : Bool} {entries : List (String × FileTree)}
    (h : (directory entries).Proper) {names : List String} {content : Option String} :
    (directory (walkedEntries recursive entries)).get? names = some (.file content) ↔
      (directory entries).get? names = some (.file content) ∧
        (recursive = false → names.length = 1) := by
  cases recursive with
  | false => simpa [walkedEntries] using get?_directFiles (proper_directory_iff.mp h).1
  | true => simp [walkedEntries]

/-- The source files, before they are put in order. -/
def unsortedSources (registry : Registry) (recursive : Bool) (path : String)
    (entries : List (String × FileTree)) : List SourceFile :=
  (filesAt path (directory (walkedEntries recursive entries))).filterMap fun (path, content) =>
    (registry.detect? path).map fun language => { path, language, content : SourceFile }

theorem sources_eq (registry : Registry) (recursive : Bool) (path : String)
    (entries : List (String × FileTree)) :
    sources registry recursive path entries =
      (unsortedSources registry recursive path entries).mergeSort fun a b =>
        Path.le a.path b.path := rfl

theorem mem_unsortedSources {registry : Registry} {recursive : Bool} {path : String}
    {entries : List (String × FileTree)} (h : (directory entries).Proper) {f : SourceFile} :
    f ∈ unsortedSources registry recursive path entries ↔
      ∃ names, SourceAt registry recursive path entries names f := by
  have hfound : f ∈ unsortedSources registry recursive path entries ↔
      (f.path, f.content) ∈ filesAt path (directory (walkedEntries recursive entries)) ∧
        registry.detect? f.path = some f.language := by
    obtain ⟨p, language, content⟩ := f
    simp [unsortedSources, List.mem_filterMap]
  rw [hfound, mem_filesAt (proper_walkedEntries h)]
  simp only [get?_walkedEntries h]
  constructor
  · rintro ⟨⟨names, hp, ⟨hget, hdirect⟩, hwalked⟩, hlanguage⟩
    have hne : names ≠ [] := by
      rintro rfl
      cases hget
    have hlast := List.getLast?_eq_some_getLast hne
    have hname := Path.fileName?_below path (h.entryNames hget) hlast
    rw [← hp] at hname
    exact ⟨names, hget, hp, hwalked, hdirect, _, hlast,
      (Registry.detect?_eq_some_iff hname).mp hlanguage⟩
  · rintro ⟨names, hget, hp, hwalked, hdirect, name, hlast, hlanguage⟩
    have hname := Path.fileName?_below path (h.entryNames hget) hlast
    rw [← hp] at hname
    exact ⟨⟨names, hp, ⟨hget, hdirect⟩, hwalked⟩,
      (Registry.detect?_eq_some_iff hname).mpr hlanguage⟩

theorem apart_unsortedSources {registry : Registry} {recursive : Bool} {path : String}
    {entries : List (String × FileTree)} (h : (directory entries).Proper) :
    (unsortedSources registry recursive path entries).Pairwise fun a b =>
      Path.Apart a.path b.path := by
  refine List.Pairwise.filterMap _ (fun a b hab f hf g hg => ?_)
    (apart_filesAt (proper_walkedEntries h) path)
  obtain ⟨-, -, rfl⟩ := Option.map_eq_some_iff.mp hf
  obtain ⟨-, -, rfl⟩ := Option.map_eq_some_iff.mp hg
  exact hab

/-- **A scan finds exactly the source files of a directory.**  They stand strictly in the order of
their paths, each of them once; and they are the files to which names lead that are not hidden,
through directories that are not passed over, in the first language of the registry that has the
extension of the file.  The path of the directory itself does not matter.  What is no directory
cannot be scanned. -/
theorem scan_exact (registry : Registry) (recursive : Bool) (path : String)
    {entries : List (String × FileTree)} (h : (directory entries).Proper) :
    (∃ files, scan registry recursive path (some (directory entries)) = .ok files ∧
      (files.Pairwise fun a b => Path.Before a.path b.path) ∧
      ∀ f, f ∈ files ↔ ∃ names, SourceAt registry recursive path entries names f) ∧
    ∀ found, (∀ entries, found ≠ some (directory entries)) →
      scan registry recursive path found = .error (.notDirectory path) := by
  refine ⟨⟨_, rfl, ?_, fun f => ?_⟩, fun found hfound => ?_⟩
  · exact Path.before_mergeSort (apart_unsortedSources h)
  · rw [sources_eq, List.mem_mergeSort, mem_unsortedSources h]
  · unfold scan
    split
    · rename_i entries
      exact absurd rfl (hfound entries)
    · rfl

/-- A directory with a source file that a walk gets to and one that it does not, and with an entry
that only has the name of a source file. -/
def mixedEntries : List (String × FileTree) :=
  [(".git", .directory [("hook.go", .file (some ""))]),
    ("api", .directory [("vendor", .file none), ("users.JS", .file (some ""))]),
    ("pipe.go", .special)]

theorem scan_mixedEntries : (directory mixedEntries).Proper ∧
    ∃ files, scan .standard true "target" (some (directory mixedEntries)) = .ok files ∧
      ⟨"target/api/users.JS", ⟨"js", [".js", ".mjs"], .slash⟩, some ""⟩ ∈ files ∧
      ∀ f ∈ files, f.path ≠ "target/.git/hook.go" := by
  have hproper : (directory mixedEntries).Proper := by
    simp only [mixedEntries, Proper, ProperEntries]
    decide +kernel
  obtain ⟨⟨files, hok, -, hmem⟩, -⟩ := scan_exact .standard true "target" hproper
  have hname : Path.fileName? "users.JS" = some "users.JS" := by decide +kernel
  refine ⟨hproper, files, hok, (hmem _).mpr ⟨["api", "users.JS"], ?_⟩, fun f hf hpath => ?_⟩
  · exact {
      found := rfl
      path := by decide +kernel
      walked := ⟨by decide +kernel, by decide +kernel⟩
      direct := by simp
      language := ⟨"users.JS", rfl,
        (Registry.detect?_eq_some_iff hname).mp (by decide +kernel)⟩ }
  · obtain ⟨names, hsource⟩ := (hmem f).mp hf
    have hsteps := Path.components_below "target" (hproper.entryNames hsource.found)
    have hgit : Path.components "target/.git/hook.go" =
        Path.components "target" ++ [".git", "hook.go"].map .entry := by decide +kernel
    rw [← hsource.path, hpath, hgit, List.append_right_inj] at hsteps
    have hnames : [".git", "hook.go"] = names :=
      List.map_injective_iff.mpr (fun _ _ h => Path.Component.entry.inj h) hsteps
    exact hsource.walked.shown ".git" (by simp [← hnames]) (by decide +kernel)

end FileTree

end ApiNotes
