/-
The order in which files are read does not matter.

What several files declare is put together in path order.  Paths are compared step by step,
which is the lexicographic order of their steps, a step being told from the others by its
rank and, for an entry, by its name.  So files no two of which have the same steps stand in
one order only, however they came, and what is made of them is a matter of that order: the
header of the first file that has one, and the endpoints of all of them.
-/
import Mathlib
import ApiNotes.Model.ApiDoc

namespace ApiNotes

namespace Path

/-! ### The order of paths -/

/-- The name of the entry that a step leads into; the other steps have none. -/
def Component.entryName : Component → String
  | .entry name => name
  | .root | .here | .above => ""

theorem Component.compare_eq (a b : Component) :
    a.compare b = compareLex (compareOn rank) (compareOn entryName) a b := by
  cases a <;> cases b <;> rfl

instance transCmp_component : Std.TransCmp Component.compare := by
  rw [funext₂ Component.compare_eq]
  infer_instance

instance lawfulEqCmp_component : Std.LawfulEqCmp Component.compare where
  compare_self := Std.ReflCmp.compare_self
  eq_of_compare {a b} h := by
    rw [Component.compare_eq, compareLex_eq_eq] at h
    obtain ⟨hrank, hname⟩ := h
    have hrank : a.rank = b.rank := Std.LawfulEqCmp.eq_of_compare hrank
    have hname : a.entryName = b.entryName := Std.LawfulEqCmp.eq_of_compare hname
    cases a <;> cases b <;> simp_all [Component.rank, Component.entryName]

theorem compareComponents_eq (as bs : List Component) :
    compareComponents as bs = List.compareLex Component.compare as bs := by
  induction as generalizing bs with
  | nil => cases bs <;> rfl
  | cons a as ih =>
      cases bs with
      | nil => rfl
      | cons b bs => rw [compareComponents, ih, List.compareLex_cons_cons]

instance transCmp_components : Std.TransCmp compareComponents := by
  rw [funext₂ compareComponents_eq]
  infer_instance

instance lawfulEqCmp_components : Std.LawfulEqCmp compareComponents := by
  rw [funext₂ compareComponents_eq]
  infer_instance

/-- Two paths compare as different. -/
def Apart (a b : String) : Prop := compareComponents (components a) (components b) ≠ .eq

/-- One path comes before another. -/
def Before (a b : String) : Prop := compareComponents (components a) (components b) = .lt

instance (a b : String) : Decidable (Apart a b) := inferInstanceAs (Decidable (_ ≠ _))

instance (a b : String) : Decidable (Before a b) := inferInstanceAs (Decidable (_ = _))

/-- Paths compare as different when their steps are. -/
theorem apart_iff {a b : String} : Apart a b ↔ components a ≠ components b :=
  not_congr Std.LawfulEqCmp.compare_eq_iff_eq

theorem Apart.symm {a b : String} (h : Apart a b) : Apart b a := by
  rw [apart_iff] at h ⊢
  exact h.symm

theorem le_eq_isLE (a b : String) :
    le a b = (compareComponents (components a) (components b)).isLE := by
  unfold le
  cases compareComponents (components a) (components b) <;> rfl

theorem le_trans {a b c : String} (hab : le a b = true) (hbc : le b c = true) :
    le a c = true := by
  rw [le_eq_isLE] at hab hbc ⊢
  exact Std.TransCmp.isLE_trans hab hbc

theorem le_total (a b : String) : (le a b || le b a) = true := by
  have hswap : compareComponents (components b) (components a) =
      (compareComponents (components a) (components b)).swap := Std.OrientedCmp.eq_swap
  rw [le_eq_isLE, le_eq_isLE, hswap]
  cases compareComponents (components a) (components b) <;> rfl

/-- Of paths that are apart, one comes before the other. -/
theorem before_of_le {a b : String} (hle : le a b = true) (h : Apart a b) : Before a b := by
  rw [le_eq_isLE] at hle
  unfold Apart at h
  unfold Before
  cases hcompare : compareComponents (components a) (components b) with
  | lt => rfl
  | eq => exact absurd hcompare h
  | gt => rw [hcompare] at hle; cases hle

theorem Before.asymm {a b : String} (h : Before a b) : ¬Before b a := fun h' =>
  Std.OrientedCmp.not_isLE_of_lt h (by rw [h']; rfl)

/-- Things whose paths are apart stand strictly one before another when they are sorted by them. -/
theorem before_mergeSort {α : Type} {path : α → String} {xs : List α}
    (h : xs.Pairwise fun a b => Apart (path a) (path b)) :
    (xs.mergeSort fun a b => le (path a) (path b)).Pairwise fun a b =>
      Before (path a) (path b) := by
  have htrans : ∀ a b c : α, le (path a) (path b) = true → le (path b) (path c) = true →
      le (path a) (path c) = true := fun _ _ _ => le_trans
  have htotal : ∀ a b : α, (le (path a) (path b) || le (path b) (path a)) = true :=
    fun _ _ => le_total _ _
  have hle := List.pairwise_mergeSort htrans htotal xs
  have hapart := (List.mergeSort_perm xs fun a b => le (path a) (path b)).symm.pairwise h
    Apart.symm
  exact (hle.and hapart).imp fun hab => before_of_le hab.1 hab.2

end Path

/-! ### Files in path order -/

/-- The files in the order of their paths. -/
def inPathOrder (files : List FileFindings) : List FileFindings :=
  files.mergeSort fun a b => Path.le a.path b.path

/-- No two files have paths that compare as equal. -/
def FilesApart (files : List FileFindings) : Prop :=
  files.Pairwise fun a b => Path.Apart a.path b.path

theorem inPathOrder_perm (files : List FileFindings) : (inPathOrder files).Perm files :=
  List.mergeSort_perm files _

theorem inPathOrder_before {files : List FileFindings} (h : FilesApart files) :
    (inPathOrder files).Pairwise fun a b => Path.Before a.path b.path :=
  Path.before_mergeSort h

/-- Files in path order are in one order only. -/
theorem eq_of_before {files other : List FileFindings}
    (hother : other.Pairwise fun a b => Path.Before a.path b.path)
    (h : files.Pairwise fun a b => Path.Before a.path b.path) (hperm : other.Perm files) :
    other = files := by
  have hasymm : ∀ a b : FileFindings, a ∈ other → b ∈ files →
      Path.Before a.path b.path → Path.Before b.path a.path → a = b :=
    fun _ _ _ _ hab hba => absurd hba hab.asymm
  exact List.Perm.eq_of_pairwise hasymm hother h hperm

theorem inPathOrder_eq_of_perm {files other : List FileFindings} (h : FilesApart files)
    (hperm : other.Perm files) : inPathOrder other = inPathOrder files := by
  have hother : FilesApart other := hperm.symm.pairwise h Path.Apart.symm
  have hperm' : (inPathOrder other).Perm (inPathOrder files) :=
    (inPathOrder_perm other).trans (hperm.trans (inPathOrder_perm files).symm)
  exact eq_of_before (inPathOrder_before hother) (inPathOrder_before h) hperm'

/-! ### What is made of them -/

/-- The header that counts among those of some files. -/
inductive HeaderOf (files : List FileFindings) : ApiDoc → Prop
  /-- No file has a header. -/
  | absent (h : ∀ f ∈ files, f.doc = none) : HeaderOf files {}
  /-- A file has it, and no file before that one has any. -/
  | first {f : FileFindings} {header : ApiDoc} (hf : f ∈ files) (hdoc : f.doc = some header)
      (h : ∀ g ∈ files, Path.Before g.path f.path → g.doc = none) : HeaderOf files header

/-- In path order the header that counts is the first one found. -/
theorem headerOf_inPathOrder {files : List FileFindings} (h : FilesApart files) :
    HeaderOf files (((inPathOrder files).findSome? (·.doc)).getD {}) := by
  have hmem : ∀ f, f ∈ inPathOrder files ↔ f ∈ files := fun f => (inPathOrder_perm files).mem_iff
  cases hfound : (inPathOrder files).findSome? (·.doc) with
  | none =>
      rw [List.findSome?_eq_none_iff] at hfound
      exact .absent fun f hf => hfound f ((hmem f).mpr hf)
  | some header =>
      obtain ⟨earlier, f, later, hsplit, hdoc, hnone⟩ := List.findSome?_eq_some_iff.mp hfound
      have hbefore := inPathOrder_before h
      rw [hsplit, List.pairwise_append, List.pairwise_cons] at hbefore
      refine .first ((hmem f).mp (by simp [hsplit])) hdoc fun g hg hgf => ?_
      -- a file before this one stands in front of it
      have hg' := (hmem g).mpr hg
      rw [hsplit, List.mem_append, List.mem_cons] at hg'
      rcases hg' with hg' | rfl | hg'
      · exact hnone g hg'
      · exact absurd hgf hgf.asymm
      · exact absurd hgf (hbefore.2.1.1 g hg').asymm

/-- **The merge of files does not depend on their order.**  Files whose paths are apart are merged
alike in every order: into the header of the first of them that has one, or the empty one, with
its own endpoints, followed by the endpoints of all files in the order of their paths. -/
theorem ApiDoc.merge_order_free {files : List FileFindings} (h : FilesApart files) :
    (∀ other : List FileFindings, other.Perm files → merge other = merge files) ∧
      ∃ (header : ApiDoc) (ordered : List FileFindings), HeaderOf files header ∧
        ordered.Perm files ∧
        ordered.Pairwise (fun a b => Path.Before a.path b.path) ∧
        merge files =
          { header with endpoints := header.endpoints ++ ordered.flatMap (·.endpoints) } := by
  refine ⟨fun other hperm => ?_, _, inPathOrder files, headerOf_inPathOrder h,
    inPathOrder_perm files, inPathOrder_before h, rfl⟩
  have heq : other.mergeSort (fun a b => Path.le a.path b.path) =
      files.mergeSort fun a b => Path.le a.path b.path := inPathOrder_eq_of_perm h hperm
  rw [merge, merge, heq]

/-- A file without a header. -/
def oldPetsFile : FileFindings :=
  { path := "pets-old.go", endpoints := [{ method := .get, path := "/old" }] }

/-- A file before that one: its path goes on where that one has a longer name. -/
def petsFile : FileFindings :=
  { path := "pets/a.go"
    doc := some { title := "Pets", endpoints := [{ method := .get, path := "/" }] }
    endpoints := [{ method := .get, path := "/a" }, { method := .put, path := "/a" }] }

/-- A file behind both, with a header that does not count. -/
def zooFile : FileFindings :=
  { path := "zoo.go"
    doc := some { title := "Zoo" }
    endpoints := [{ method := .get, path := "/zoo" }] }

theorem merge_petsFile_first :
    FilesApart [zooFile, oldPetsFile, petsFile] ∧
      ApiDoc.merge [oldPetsFile, petsFile, zooFile] =
        ApiDoc.merge [zooFile, oldPetsFile, petsFile] ∧
      ApiDoc.merge [zooFile, oldPetsFile, petsFile] =
        { title := "Pets"
          endpoints := [{ method := .get, path := "/" }, { method := .get, path := "/a" },
            { method := .put, path := "/a" }, { method := .get, path := "/old" },
            { method := .get, path := "/zoo" }] } := by
  have hapart : FilesApart [zooFile, oldPetsFile, petsFile] := by
    unfold FilesApart
    decide +kernel
  obtain ⟨hfree, header, ordered, hheader, hperm, hbefore, hmerge⟩ :=
    ApiDoc.merge_order_free hapart
  have hturned : [oldPetsFile, petsFile, zooFile].Perm [zooFile, oldPetsFile, petsFile] :=
    (List.perm_append_comm : ([oldPetsFile, petsFile] ++ [zooFile]).Perm _)
  have hordered : ordered = [petsFile, oldPetsFile, zooFile] :=
    eq_of_before hbefore (by decide +kernel)
      (hperm.trans (hturned.symm.trans (List.Perm.swap petsFile oldPetsFile [zooFile])))
  have hfirst : header = { title := "Pets", endpoints := [{ method := .get, path := "/" }] } := by
    have hpets : Path.Before petsFile.path zooFile.path := by decide +kernel
    cases hheader with
    | absent h => cases h petsFile (by simp)
    | first hf hdoc h =>
        simp only [List.mem_cons, List.not_mem_nil, or_false] at hf
        rcases hf with rfl | rfl | rfl
        · cases h petsFile (by simp) hpets
        · cases hdoc
        · exact (Option.some.inj hdoc).symm
  refine ⟨hapart, hfree _ hturned, ?_⟩
  rw [hmerge, hordered, hfirst]
  rfl

end ApiNotes
