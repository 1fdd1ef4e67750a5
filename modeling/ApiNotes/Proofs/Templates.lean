/-
Which paths have one template.

The check for duplicates and the slots of a document both compare templates, so what they
take for one path is decided by `Route.template` alone.  No segment of a template starts
with a colon, and none has a slash in it that its path had not; so a template is cut into
the templates of the segments, and two paths share one exactly when their segments do, one
by one.
-/
import ApiNotes.Model.Route
import ApiNotes.Proofs.Words

namespace ApiNotes.Route

/-! ### Segments -/

/-- The segments of a path, between its slashes. -/
def segments (path : String) : List (List Char) := path.toList.splitOn '/'

/-- Two segments that stand for the same thing: they are equal, or they are the two ways of
writing one parameter, whatever its name. -/
inductive SegmentAlike : List Char → List Char → Prop
  | same (segment : List Char) : SegmentAlike segment segment
  | colon (name : List Char) : SegmentAlike (':' :: name) ('{' :: name ++ ['}'])
  | braces (name : List Char) : SegmentAlike ('{' :: name ++ ['}']) (':' :: name)

/-- Two paths with as many segments, each like the one in its place. -/
def PathsAlike (p q : String) : Prop := List.Forall₂ SegmentAlike (segments p) (segments q)

/-- A segment is a parameter or stays as it is. -/
theorem segmentTemplate_cases (segment : List Char) :
    (∃ name, segment = ':' :: name ∧ segmentTemplate segment = '{' :: name ++ ['}']) ∨
      segment.head? ≠ some ':' ∧ segmentTemplate segment = segment := by
  match segment with
  | [] => exact .inr ⟨by simp, rfl⟩
  | c :: name =>
      by_cases hc : c = ':'
      · subst hc
        exact .inl ⟨name, rfl, rfl⟩
      · refine .inr ⟨by simpa using hc, ?_⟩
        unfold segmentTemplate
        split
        · rename_i heq
          exact absurd (List.cons.inj heq).1 hc
        · rfl

/-- No template of a segment starts with a colon. -/
theorem head?_segmentTemplate (segment : List Char) :
    (segmentTemplate segment).head? ≠ some ':' := by
  rcases segmentTemplate_cases segment with ⟨name, -, htemplate⟩ | ⟨hhead, htemplate⟩
  · rw [htemplate]
    simp
  · rwa [htemplate]

theorem segmentTemplate_of_head {segment : List Char} (h : segment.head? ≠ some ':') :
    segmentTemplate segment = segment := by
  rcases segmentTemplate_cases segment with ⟨name, rfl, -⟩ | ⟨-, htemplate⟩
  · exact absurd rfl h
  · exact htemplate

theorem segmentTemplate_idem (segment : List Char) :
    segmentTemplate (segmentTemplate segment) = segmentTemplate segment :=
  segmentTemplate_of_head (head?_segmentTemplate segment)

theorem segmentTemplate_eq_nil {segment : List Char} :
    segmentTemplate segment = [] ↔ segment = [] := by
  rcases segmentTemplate_cases segment with ⟨name, rfl, htemplate⟩ | ⟨-, htemplate⟩
  · simp [htemplate]
  · rw [htemplate]

theorem slash_not_mem_segmentTemplate {segment : List Char} (h : '/' ∉ segment) :
    '/' ∉ segmentTemplate segment := by
  rcases segmentTemplate_cases segment with ⟨name, rfl, htemplate⟩ | ⟨-, htemplate⟩
  · rw [htemplate]
    simpa using h
  · rwa [htemplate]

/-- Two segments have one template when they are alike. -/
theorem segmentTemplate_eq_iff (a b : List Char) :
    segmentTemplate a = segmentTemplate b ↔ SegmentAlike a b := by
  constructor
  · intro h
    rcases segmentTemplate_cases a with ⟨x, rfl, ha⟩ | ⟨-, ha⟩ <;>
      rcases segmentTemplate_cases b with ⟨y, rfl, hb⟩ | ⟨-, hb⟩ <;> rw [ha, hb] at h
    · have hname : x = y := by simpa using h
      exact hname ▸ .same _
    · exact h ▸ .colon x
    · exact h ▸ .braces y
    · exact h ▸ .same a
  · rintro (_ | name | name) <;> rfl

/-! ### Paths -/

theorem segments_ne_nil (path : String) : segments path ≠ [] := List.splitOn_ne_nil '/' _

/-- A template is cut where its path is. -/
theorem segments_template (path : String) :
    segments (template path) = (segments path).map segmentTemplate := by
  unfold segments template
  rw [String.toList_ofList]
  refine List.splitOn_intercalate '/' ?_ (by simp)
  intro segment hsegment
  obtain ⟨s, hs, rfl⟩ := List.mem_map.mp hsegment
  exact slash_not_mem_segmentTemplate (Text.not_mem_of_mem_splitOn hs)

/-- A path is made of its segments. -/
theorem eq_of_segments {p q : String} (h : segments p = segments q) : p = q := by
  have hjoin : ∀ path : String, ['/'].intercalate (segments path) = path.toList :=
    fun _ => List.intercalate_splitOn '/'
  rw [String.ext_iff, ← hjoin p, ← hjoin q, h]

theorem template_eq_iff (p q : String) : template p = template q ↔ PathsAlike p q := by
  have hsegments : template p = template q ↔
      (segments p).map segmentTemplate = (segments q).map segmentTemplate := by
    rw [← segments_template, ← segments_template]
    exact ⟨congrArg segments, eq_of_segments⟩
  have halike : (fun a b => segmentTemplate a = segmentTemplate b) = SegmentAlike :=
    funext₂ fun a b => propext (segmentTemplate_eq_iff a b)
  rw [hsegments, ← List.forall₂_eq_eq_eq, List.forall₂_map_left_iff, List.forall₂_map_right_iff,
    halike, PathsAlike]

theorem template_template (path : String) : template (template path) = template path := by
  apply eq_of_segments
  rw [segments_template, segments_template, List.map_map]
  exact List.map_congr_left fun segment _ => segmentTemplate_idem segment

/-- A path starts with a slash when its first segment is empty and not its only one. -/
theorem head?_eq_slash {path : String} :
    path.toList.head? = some '/' ↔ ∃ rest, rest ≠ [] ∧ segments path = [] :: rest := by
  unfold segments
  cases path.toList with
  | nil => simp
  | cons c cs =>
      rw [List.splitOn_cons_eq_if_modifyHead]
      have hne := List.splitOn_ne_nil '/' cs
      by_cases hc : c = '/'
      · simp [hc, hne]
      · obtain ⟨first, rest, hsplit⟩ := List.exists_cons_of_ne_nil hne
        simp [hc, hsplit]

theorem head?_template_iff {path : String} :
    (template path).toList.head? = some '/' ↔ path.toList.head? = some '/' := by
  rw [head?_eq_slash, head?_eq_slash, segments_template]
  obtain ⟨first, rest, hsplit⟩ := List.exists_cons_of_ne_nil (segments_ne_nil path)
  rw [hsplit, List.map_cons]
  simp [segmentTemplate_eq_nil]

end ApiNotes.Route
