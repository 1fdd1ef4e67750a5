/-
Which columns of tags are those of the file.

The reader of tags knows where a region starts and nothing of the markers that were taken off
its other lines: on those it counts columns from where the text of the line starts.  So the
column of a tag is that of the file on the first line of its region, and on a later line
exactly when the line is there in the region as it is in the file, as in a block comment
without leading stars.  The same holds for a run that was meant for a tag.
-/
import ApiNotes.Proofs.Places

namespace ApiNotes

namespace Annotation

open Text

/-- Characters stand in a file at the line and the column of a position. -/
structure StandsAt (source : List (List Char)) (position : Position) (run : List Char) : Prop where
  column : 0 < position.column
  run : ∃ line, lineAt? source position.line = some line ∧ run <+: line.drop (position.column - 1)

/-- Nothing was taken off the start of line `n` of the file when it went into the region. -/
def Region.Verbatim (source : List (List Char)) (r : Region) (n : Nat) : Prop :=
  ∃ line text, lineAt? source n = some line ∧ r.lines[n - r.position.line]? = some text ∧
    text <+: line

/-- In a line, no `@` comes before the first one. -/
theorem eq_length_of_at {front run other line : List Char} (hat : '@' ∉ front)
    (hline : front ++ '@' :: run <+: line) {k : Nat} (hk : k ≤ front.length)
    (h : '@' :: other <+: line.drop k) : k = front.length := by
  by_contra hne
  have hlt : k < front.length := by omega
  obtain ⟨behind, rfl⟩ := hline
  obtain ⟨rest, hrest⟩ := h
  have hchar : (front ++ '@' :: run ++ behind)[k]? = some '@' := by
    have hzero := congrArg (·[0]?) hrest
    simpa [List.getElem?_drop] using hzero.symm
  rw [List.append_assoc, List.getElem?_append_left hlt] at hchar
  exact hat (List.mem_of_getElem? hchar)

section Marks

variable {source : List (List Char)} {r : Region} {position : Position} {name : List Char}
  (h : r.Marks source position ('@' :: name))

include h

/-- An `@` stands at the position of a run only when no marker was taken off its line, or the
column counts it. -/
theorem Region.Marks.of_standsAt {other : List Char}
    (hstands : StandsAt source position ('@' :: other)) :
    position.line = r.position.line ∨ r.Verbatim source position.line := by
  obtain ⟨marker, text, indent, hpiece, ⟨hclean, line, hline, hbehind⟩, hrun, hblank, hcolumn⟩ :=
    h.run
  by_cases hfirst : position.line = r.position.line
  · exact .inl hfirst
  · right
    obtain ⟨-, line', hline', hat'⟩ := hstands
    obtain rfl : line = line' := Option.some.inj (hline.symm.trans hline')
    rw [hcolumn, if_neg hfirst, Nat.zero_add, Nat.add_sub_cancel] at hat'
    -- neither the marker nor the blanks behind it have an `@`
    have hat : '@' ∉ marker ++ indent := by
      rw [List.mem_append, not_or]
      exact ⟨hclean, fun hmem => absurd (hblank _ hmem) (by decide)⟩
    have hwhole : (marker ++ indent) ++ '@' :: name <+: line := by
      rw [List.append_assoc]
      exact ((List.prefix_append_right_inj marker).mpr hrun).trans hbehind
    have hle : indent.length ≤ (marker ++ indent).length := by
      rw [List.length_append]
      omega
    have heq := eq_length_of_at hat hwhole hle hat'
    rw [List.length_append] at heq
    have hmarker : marker = [] := List.length_eq_zero_iff.mp (by omega)
    rw [hmarker] at hbehind
    exact ⟨line, text, hline, hpiece, hbehind⟩

/-- And then the run itself stands there. -/
theorem Region.Marks.standsAt
    (hplace : position.line = r.position.line ∨ r.Verbatim source position.line) :
    StandsAt source position ('@' :: name) := by
  obtain ⟨marker, text, indent, hpiece, ⟨-, line, hline, hbehind⟩, hrun, -, hcolumn⟩ := h.run
  refine ⟨by omega, line, hline, ?_⟩
  rw [hcolumn, Nat.add_sub_cancel]
  by_cases hfirst : position.line = r.position.line
  · rw [if_pos hfirst, ← List.length_append]
    obtain ⟨behind, hrun⟩ := ((List.prefix_append_right_inj marker).mpr hrun).trans hbehind
    rw [← hrun, ← List.append_assoc, List.append_assoc _ ('@' :: name), List.drop_left]
    exact List.prefix_append _ behind
  · obtain ⟨line', text', hline', hpiece', hverbatim⟩ := hplace.resolve_left hfirst
    obtain rfl : line = line' := Option.some.inj (hline.symm.trans hline')
    obtain rfl : text = text' := Option.some.inj (hpiece.symm.trans hpiece')
    rw [if_neg hfirst, Nat.zero_add]
    obtain ⟨behind, hrun⟩ := hrun.trans hverbatim
    rw [← hrun, List.append_assoc, List.drop_left]
    exact List.prefix_append _ behind

end Marks

/-- A run that was meant for a tag starts as one. -/
theorem Malformed.eq_cons {run : List Char} (h : Malformed run) : ∃ name, run = '@' :: name := by
  obtain ⟨rest, hrest⟩ := h.ours
  exact ⟨_, hrest.symm⟩

/-- **The column of a tag is that of the file** on the first line of its region, and on a later
line exactly when nothing was taken off the line; and so is that of a run meant for a tag. -/
theorem tag_column_exact_iff {style : CommentStyle} {content : String} {r : Region}
    (hr : r ∈ regionsOf style content) :
    (∀ tags, tagsOf r.text r.position = .ok tags → ∀ tag ∈ tags,
      (StandsAt (lines content.toList) tag.position ('@' :: tag.name.toList) ↔
        tag.position.line = r.position.line ∨
          r.Verbatim (lines content.toList) tag.position.line)) ∧
    (∀ fault, tagsOf r.text r.position = .error fault →
      ((∃ run, Malformed run ∧ StandsAt (lines content.toList) fault.position run) ↔
        fault.position.line = r.position.line ∨
          r.Verbatim (lines content.toList) fault.position.line)) := by
  constructor
  · intro tags htags tag htag
    have hmarks := tagsOf_marks (regionsOf_stand hr) htags tag htag
    exact ⟨hmarks.of_standsAt, hmarks.standsAt⟩
  · intro fault hfault
    obtain ⟨-, run, hrun, hmarks⟩ := tagsOf_fault_marks (regionsOf_stand hr) hfault
    obtain ⟨name, rfl⟩ := hrun.eq_cons
    constructor
    · rintro ⟨other, hother, hstands⟩
      obtain ⟨name', rfl⟩ := hother.eq_cons
      exact hmarks.of_standsAt hstands
    · intro hplace
      exact ⟨_, hrun, hmarks.standsAt hplace⟩

/-- The region of a block comment without leading stars. -/
def indentedRegion : Region := ⟨⟨1, 3⟩, "\n  @api GET /pets list pets\n"⟩

theorem indentedRegion_column :
    indentedRegion ∈ regionsOf .slash "/*\n  @api GET /pets list pets\n*/\n" ∧
    ∃ tag, tagsOf indentedRegion.text indentedRegion.position = .ok [tag] ∧
      tag.position = ⟨2, 3⟩ ∧
      StandsAt (lines "/*\n  @api GET /pets list pets\n*/\n".toList) tag.position
        ('@' :: tag.name.toList) := by
  have hregion : indentedRegion ∈ regionsOf .slash "/*\n  @api GET /pets list pets\n*/\n" := by
    decide +kernel
  have htags : tagsOf indentedRegion.text indentedRegion.position =
      .ok [⟨"api", "GET /pets list pets", ⟨2, 3⟩⟩] := by
    decide +kernel
  refine ⟨hregion, _, htags, rfl, ?_⟩
  refine ((tag_column_exact_iff hregion).1 _ htags _ (List.mem_singleton_self _)).mpr (.inr ?_)
  refine ⟨"  @api GET /pets list pets".toList, "  @api GET /pets list pets".toList, ?_, ?_, ?_⟩
  · decide +kernel
  · decide +kernel
  · exact List.prefix_refl _

/-- The region of two line comments, the second of which is a tag. -/
def markedRegion : Region := ⟨⟨1, 4⟩, "list pets\n@api GET /pets list pets"⟩

/-- The marker of the second line is not counted: the tag stands at column 4, and not at 1. -/
theorem markedRegion_column :
    markedRegion ∈ regionsOf .slash "// list pets\n// @api GET /pets list pets\n" ∧
    ∃ tag, tagsOf markedRegion.text markedRegion.position = .ok [tag] ∧
      tag.position = ⟨2, 1⟩ ∧
      ¬StandsAt (lines "// list pets\n// @api GET /pets list pets\n".toList) tag.position
        ('@' :: tag.name.toList) ∧
      StandsAt (lines "// list pets\n// @api GET /pets list pets\n".toList) ⟨2, 4⟩
        ('@' :: tag.name.toList) := by
  have hline : lineAt? (lines "// list pets\n// @api GET /pets list pets\n".toList) 2 =
      some "// @api GET /pets list pets".toList := by
    decide +kernel
  refine ⟨by decide +kernel, ⟨"api", "GET /pets list pets", ⟨2, 1⟩⟩, by decide +kernel, rfl, ?_, ?_⟩
  · rintro ⟨-, line, hat, hrun⟩
    obtain rfl := Option.some.inj (hline.symm.trans hat)
    exact absurd hrun (by decide)
  · exact ⟨by decide, _, hline, by decide⟩

end Annotation

end ApiNotes
