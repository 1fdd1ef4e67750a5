/-
The paths of entries.

The path of an entry is that of its directory with the name behind it, with a slash in
between if there is none yet.  Whatever the path of the directory looks like, the path of
the entry means one step more, so paths that are built up name by name mean the steps of
the directory they started from and then one step for each name.  That is what tells the
files of a directory apart, and what their extensions are read from.
-/
import ApiNotes.Path
import ApiNotes.Proofs.Words

namespace ApiNotes.Path

/-! ### Names of entries -/

/-- A name that an entry of a directory can have. -/
structure IsEntryName (name : String) : Prop where
  ne_empty : name ≠ ""
  slashless : '/' ∉ name.toList
  ne_here : name ≠ "."
  ne_above : name ≠ ".."

instance (name : String) : Decidable (IsEntryName name) :=
  decidable_of_iff (name ≠ "" ∧ '/' ∉ name.toList ∧ name ≠ "." ∧ name ≠ "..")
    ⟨fun h => ⟨h.1, h.2.1, h.2.2.1, h.2.2.2⟩,
      fun h => ⟨h.ne_empty, h.slashless, h.ne_here, h.ne_above⟩⟩

theorem IsEntryName.ofSegment? {name : String} (h : IsEntryName name) :
    Component.ofSegment? name = some (.entry name) := by
  rw [Component.ofSegment?, if_neg (not_or.mpr ⟨h.ne_empty, h.ne_here⟩), if_neg h.ne_above]

/-- Each of these is a name that an entry can have. -/
def EntryNames (names : List String) : Prop := ∀ n ∈ names, IsEntryName n

/-! ### Steps -/

/-- The steps that segments stand for. -/
def stepsOf : List String → List Component
  | [] => []
  | first :: rest =>
    let tail := rest.filterMap Component.ofSegment?
    if first = "" then if rest.isEmpty then [] else .root :: tail
    else if first = "." then .here :: tail
    else (Component.ofSegment? first).toList ++ tail

theorem components_eq (path : String) : components path = stepsOf (segments path) := by
  unfold components stepsOf
  rfl

theorem segments_append (path : String) {name : String} (h : '/' ∉ name.toList) :
    segments (path ++ "/" ++ name) = segments path ++ [name] := by
  have htext : (path ++ "/" ++ name).toList = path.toList ++ '/' :: name.toList := by simp
  rw [segments, htext, List.splitOn_append_cons_self, List.splitOn_eq_singleton h]
  simp [segments]

theorem segments_ne_nil (path : String) : segments path ≠ [] := by
  simp [segments]

theorem slash_not_mem_segment {path segment : String} (h : segment ∈ segments path) :
    '/' ∉ segment.toList := by
  obtain ⟨piece, hpiece, rfl⟩ := List.mem_map.mp h
  rw [String.toList_ofList]
  exact Text.not_mem_of_mem_splitOn hpiece

/-- Behind other segments a name is one step more. -/
theorem stepsOf_concat {front : List String} (hfront : front ≠ []) {name : String}
    (h : IsEntryName name) :
    stepsOf (front ++ [name]) = stepsOf (front ++ [""]) ++ [.entry name] := by
  obtain ⟨first, rest, rfl⟩ := List.exists_cons_of_ne_nil hfront
  have hempty : Component.ofSegment? "" = none := by decide +kernel
  simp only [stepsOf, List.cons_append, List.filterMap_append, List.filterMap_cons,
    List.filterMap_nil, h.ofSegment?, hempty, List.append_nil]
  split_ifs <;> simp_all

/-- An empty segment at the end stands for nothing. -/
theorem stepsOf_concat_empty {front : List String} (hfront : front ≠ []) (hempty : front ≠ [""]) :
    stepsOf (front ++ [""]) = stepsOf front := by
  obtain ⟨first, rest, rfl⟩ := List.exists_cons_of_ne_nil hfront
  have hnone : Component.ofSegment? "" = none := by decide +kernel
  simp only [stepsOf, List.cons_append, List.filterMap_append, List.filterMap_cons,
    List.filterMap_nil, hnone, List.append_nil]
  split_ifs <;> simp_all

/-- Only the empty path is one empty segment. -/
theorem segments_eq_empty {path : String} (h : segments path = [""]) : path = "" := by
  have hjoin : ['/'].intercalate (path.toList.splitOn '/') = path.toList :=
    List.intercalate_splitOn '/'
  obtain ⟨piece, hsplit, hpiece⟩ := List.map_eq_singleton_iff.mp h
  rw [hsplit, List.intercalate_singleton] at hjoin
  rw [← String.ofList_toList (s := path), ← hjoin, hpiece]

/-- **The path of an entry means one step more than that of its directory.** -/
theorem components_join (directory : String) {name : String} (h : IsEntryName name) :
    components (join directory name) = components directory ++ [.entry name] := by
  by_cases hempty : directory = ""
  · subst hempty
    have hsegments : segments name = [name] := by
      rw [segments, List.splitOn_eq_singleton h.slashless]
      simp
    have hname : join "" name = name := by simp [join]
    rw [hname, components_eq, hsegments]
    simp [stepsOf, h.ne_empty, h.ne_here, h.ofSegment?, components, segments]
  · by_cases hslash : directory.toList.getLast? = some '/'
    · obtain ⟨front, hfront⟩ := List.getLast?_eq_some_iff.mp hslash
      have hdirectory : directory = String.ofList front ++ "/" := by
        rw [← String.toList_inj, hfront]
        simp
      have hjoin : join directory name = String.ofList front ++ "/" ++ name := by
        simp [join, hdirectory]
      have hopen : directory = String.ofList front ++ "/" ++ "" := by simp [hdirectory]
      rw [hjoin, hopen, components_eq, components_eq, segments_append _ h.slashless,
        segments_append _ (by simp), stepsOf_concat (segments_ne_nil _) h]
    · have hjoin : join directory name = directory ++ "/" ++ name := by
        simp [join, hslash, hempty]
      rw [hjoin, components_eq, components_eq, segments_append _ h.slashless,
        stepsOf_concat (segments_ne_nil _) h,
        stepsOf_concat_empty (segments_ne_nil _) fun hone => hempty (segments_eq_empty hone)]

/-- The path of what stands under names below a directory. -/
def below (directory : String) (names : List String) : String := names.foldl join directory

theorem below_cons (directory name : String) (names : List String) :
    below directory (name :: names) = below (join directory name) names := rfl

/-- The steps to what stands below a directory are those to the directory and the names. -/
theorem components_below (directory : String) {names : List String} (h : EntryNames names) :
    components (below directory names) = components directory ++ names.map .entry := by
  induction names generalizing directory with
  | nil => simp [below]
  | cons name names ih =>
      obtain ⟨hname, hnames⟩ := List.forall_mem_cons.mp h
      rw [below_cons, ih _ hnames, components_join directory hname, List.map_cons,
        List.append_assoc, List.singleton_append]

/-! ### Extensions -/

/-- A name has an extension behind its last dot, and something in front of that dot. -/
structure HasExtension (name extension : String) : Prop where
  dotless : '.' ∉ extension.toList
  behind : ∃ stem, stem ≠ "" ∧ name = stem ++ "." ++ extension

theorem extension?_eq {path name : String} (h : fileName? path = some name)
    {stem last : List Char} (hname : name.toList = stem ++ '.' :: last) (hlast : '.' ∉ last) :
    extension? path = if stem = [] then none else some (String.ofList last) := by
  have hpieces : name.toList.splitOn '.' = stem.splitOn '.' ++ [last] := by
    rw [hname, List.splitOn_append_cons_self, List.splitOn_eq_singleton hlast]
  have hstem : stem.splitOn '.' = [[]] ↔ stem = [] := by
    constructor
    · intro hone
      have hjoin : ['.'].intercalate (stem.splitOn '.') = stem := List.intercalate_splitOn '.'
      rw [← hjoin, hone, List.intercalate_singleton]
    · rintro rfl
      exact List.splitOn_nil '.'
  simp [extension?, h, hpieces, hstem]

/-- A path has the extension of the name that it ends in. -/
theorem extension?_eq_some_iff {path name extension : String} (h : fileName? path = some name) :
    extension? path = some extension ↔ HasExtension name extension := by
  constructor
  · intro hextension
    by_cases hdot : '.' ∈ name.toList
    · obtain ⟨stem, last, hname, hlast⟩ := Text.exists_last_separator hdot
      rw [extension?_eq h hname hlast] at hextension
      split at hextension
      · cases hextension
      · rename_i hstem
        cases hextension
        refine ⟨by simpa using hlast, String.ofList stem, ?_, ?_⟩
        · simpa using hstem
        · rw [← String.toList_inj, hname]
          simp
    · simp [extension?, h, List.splitOn_eq_singleton hdot] at hextension
  · rintro ⟨hdotless, stem, hstem, rfl⟩
    have htext : (stem ++ "." ++ extension).toList = stem.toList ++ '.' :: extension.toList := by
      simp
    rw [extension?_eq h htext hdotless, if_neg (by simpa using hstem), String.ofList_toList]

/-- What stands below a directory ends in the last of the names that lead there. -/
theorem fileName?_below (directory : String) {names : List String} {name : String}
    (h : EntryNames names) (hlast : names.getLast? = some name) :
    fileName? (below directory names) = some name := by
  obtain ⟨front, rfl⟩ := List.getLast?_eq_some_iff.mp hlast
  rw [fileName?, components_below directory h]
  simp

end ApiNotes.Path
