/-
An annotation says the same in every comment syntax.

The same lines are written as a run of slash comments, as a run of hash comments and as
one block comment.  Each of the three is found as one region of its file.  The regions of
the two runs hold just the lines; the block's region has an empty line before them, which
is the rest of its first line, and a blank one after them, which is what stands in front
of its end.  Neither of these two makes a tag, and neither shows in the body of one, since
bodies have no outer blanks.  So the three are cut into the same tags, at other places,
and what the tags declare moves along with them (`blockOf_moved`).
-/
import ApiNotes.Proofs.Relocation

namespace ApiNotes

namespace Text

/-! ### Occurrences -/

theorem cutAtFrom_eq_none {pattern : List Char} :
    ∀ {passed s : List Char}, cutAtFrom pattern passed s = none ↔ ¬pattern <:+: s := by
  intro passed s
  induction s generalizing passed with
  | nil => simp [cutAtFrom]
  | cons c rest ih =>
      rw [cutAtFrom, stripPrefix?, List.infix_cons_iff, not_or, ← @ih (c :: passed),
        ← List.isPrefixOf_iff_prefix, ← List.isSome_isPrefixOf?_eq_isPrefixOf]
      cases pattern.isPrefixOf? (c :: rest) with
      | some after => simp
      | none => simp

/-- A text is not cut exactly when the pattern does not occur in it. -/
theorem cutAt_eq_none {pattern s : List Char} : cutAt pattern s = none ↔ ¬pattern <:+: s :=
  cutAtFrom_eq_none

theorem occursIn_iff {pattern s : List Char} : occursIn pattern s = true ↔ pattern <:+: s := by
  rw [occursIn, Option.isSome_iff_ne_none, Ne, cutAt_eq_none, not_not]

/-! ### Joined lines -/

/-- A text is its lines with a line feed before each but the first. -/
theorem joinLines_cons (first : List Char) (below : List (List Char)) :
    joinLines (first :: below) = first ++ below.flatMap ('\n' :: ·) := by
  induction below generalizing first with
  | nil => simp [joinLines]
  | cons line below ih =>
      have hstep : joinLines (first :: line :: below) =
          first ++ '\n' :: joinLines (line :: below) := by
        simp [joinLines, List.intercalate]
      rw [hstep, ih, List.flatMap_cons, List.cons_append]

theorem joinLines_concat {ls : List (List Char)} (hne : ls ≠ []) (last : List Char) :
    joinLines (ls ++ [last]) = joinLines ls ++ '\n' :: last := by
  induction ls with
  | nil => exact absurd rfl hne
  | cons line rest ih =>
      rw [List.cons_append, joinLines, joinLines, List.intercalate_cons_of_ne_nil (by simp)]
      by_cases hrest : rest = []
      · subst hrest
        simp
      · rw [List.intercalate_cons_of_ne_nil hrest, ← joinLines, ih hrest]
        simp [joinLines]

/-- A line stands in the text of its lines. -/
theorem infix_joinLines {ls : List (List Char)} {line : List Char} (h : line ∈ ls) :
    line <:+: joinLines ls := by
  induction ls with
  | nil => cases h
  | cons first rest ih =>
      by_cases hrest : rest = []
      · subst hrest
        rw [List.mem_singleton.mp h, joinLines, List.intercalate_singleton]
      · rw [joinLines, List.intercalate_cons_of_ne_nil hrest, ← joinLines]
        rcases List.mem_cons.mp h with rfl | h
        · rw [List.append_assoc]
          exact (List.prefix_append line _).isInfix
        · exact (ih h).trans (List.suffix_append _ _).isInfix

/-- A line without line breaks in it. -/
structure Unbroken (line : List Char) : Prop where
  newline : '\n' ∉ line
  returns : '\r' ∉ line

/-- Unbroken lines are read as they were written, but for an empty one at the end. -/
theorem lines_joinLines {ls : List (List Char)} (h : ∀ line ∈ ls, Unbroken line) {last : List Char}
    (hlast : '\n' ∉ last) :
    lines (joinLines (ls ++ [last])) = ls ++ if last.isEmpty then [] else [last] := by
  have hpieces : (joinLines (ls ++ [last])).splitOn '\n' = ls ++ [last] := by
    rw [splitOn_joinLines (by simp), List.flatMap_append, List.flatMap_singleton,
      List.splitOn_eq_singleton hlast,
      List.flatMap_congr fun line hline => List.splitOn_eq_singleton (h line hline).newline,
      List.flatMap_singleton']
  have hreturns : ls.map dropReturn = ls := by
    rw [List.map_congr_left fun line hline => dropReturn_of_getLast? fun hreturn =>
      (h line hline).returns (List.mem_of_getLast? hreturn)]
    exact List.map_id ls
  rw [lines_of_splitOn hpieces, hreturns]

end Text

namespace Annotation

open Text

/-! ### Blank lines around an annotation -/

theorem lineKind_blank {line : List Char} (h : line.all isBlank = true) :
    lineKind line = .prose := by
  have htrim : trimStart line = [] := List.dropWhile_eq_nil_iff.mpr (List.all_eq_true.mp h)
  unfold lineKind
  rw [htrim]
  rfl

/-- A blank line at the end of a body is trimmed off. -/
theorem trimEnd_joinLines_concat {ls : List (List Char)} (hne : ls ≠ []) {blank : List Char}
    (h : blank.all isBlank = true) :
    trimEnd (joinLines (ls ++ [blank])) = trimEnd (joinLines ls) := by
  have hdrop : (blank.reverse ++ ['\n']).dropWhile isBlank = [] := by
    refine List.dropWhile_eq_nil_iff.mpr fun c hc => ?_
    rcases List.mem_append.mp hc with hc | hc
    · exact List.all_eq_true.mp h c (List.mem_reverse.mp hc)
    · rw [List.mem_singleton.mp hc]
      decide
  unfold trimEnd
  rw [joinLines_concat hne, List.reverse_append, List.reverse_cons, List.dropWhile_append, hdrop]
  rfl

/-- A blank line below an annotation belongs to no tag, or makes no difference to the last one. -/
theorem cutLines_concat_blank {origin : Position} {blank : List Char}
    (h : blank.all isBlank = true) {ls : List (List Char)} :
    ∀ index, cutLines origin index (ls ++ [blank]) = (cutLines origin index ls).map fun cut =>
      if cut.2.isEmpty then (cut.1 ++ [blank], []) else cut := by
  induction ls with
  | nil =>
      intro index
      simp only [List.nil_append, cutLines, lineKind_blank h]
      rfl
  | cons line rest ih =>
      intro index
      rw [List.cons_append, cutLines, cutLines, ih]
      cases lineKind line with
      | malformed => rfl
      | prose =>
          cases cutLines origin (index + 1) rest with
          | error fault => rfl
          | ok cut => obtain ⟨prose, _ | _⟩ := cut <;> rfl
      | opener name first =>
          cases cutLines origin (index + 1) rest with
          | error fault => rfl
          | ok cut =>
              obtain ⟨prose, _ | _⟩ := cut
              · have hbody : trimEnd (joinLines (first :: (prose ++ [blank]))) =
                    trimEnd (joinLines (first :: prose)) :=
                  trimEnd_joinLines_concat (List.cons_ne_nil first prose) h
                simp only [Except.map, bind, Except.bind, List.isEmpty_nil, if_true, hbody]
                rfl
              · rfl

/-- So the tags are the same without it. -/
theorem tags_concat_blank {origin : Position} {blank : List Char} (h : blank.all isBlank = true)
    {ls : List (List Char)} {index : Nat} :
    (cutLines origin index (ls ++ [blank])).map Prod.snd =
      (cutLines origin index ls).map Prod.snd := by
  rw [cutLines_concat_blank h]
  cases cutLines origin index ls with
  | error fault => rfl
  | ok cut => obtain ⟨prose, _ | _⟩ := cut <;> rfl

theorem tagsOf_eq_map (text : String) (origin : Position) :
    tagsOf text origin = (cutLines origin 0 (lines text.toList)).map Prod.snd := by
  unfold tagsOf
  cases cutLines origin 0 (lines text.toList) <;> rfl

/-- The tags of an annotation are cut from its lines. -/
theorem tagsOf_joinLines {ls : List (List Char)} (h : ∀ line ∈ ls, Unbroken line) (hne : ls ≠ [])
    (origin : Position) : tagsOf (String.ofList (joinLines ls)) origin =
      (cutLines origin 0 ls).map Prod.snd := by
  obtain ⟨front, last, rfl⟩ : ∃ front last, ls = front ++ [last] :=
    ⟨_, _, (List.dropLast_concat_getLast hne).symm⟩
  rw [List.forall_mem_append, List.forall_mem_singleton] at h
  rw [tagsOf_eq_map, String.toList_ofList, lines_joinLines h.1 h.2.newline]
  cases last with
  | cons c rest => rfl
  | nil => rw [List.isEmpty_nil, if_pos rfl, List.append_nil, tags_concat_blank rfl]

/-! ### The three comments -/

/-- The lines as a run of slash comments. -/
def slashComment (lines : List (List Char)) : List (List Char) := lines.map ("// ".toList ++ ·)

/-- The lines as a run of hash comments. -/
def hashComment (lines : List (List Char)) : List (List Char) := lines.map ("# ".toList ++ ·)

/-- The lines as one block comment. -/
def blockComment (lines : List (List Char)) : List (List Char) :=
  "/**".toList :: (lines.map (" * ".toList ++ ·) ++ [" */".toList])

/-- A file of these lines, the last of them ended by a line feed or not. -/
def fileOf (lines : List (List Char)) (ended : Bool) : String :=
  String.ofList (joinLines (if ended then lines ++ [[]] else lines))

/-- Lines of an annotation that any comment can hold. -/
structure Annotated (lines : List (List Char)) : Prop where
  unbroken : ∀ line ∈ lines, Unbroken line
  /-- No line ends a block comment. -/
  inside : ∀ line ∈ lines, ¬"*/".toList <:+: line
  /-- Some line may hold a tag of ours. -/
  annotated : ∃ line ∈ lines, "@api".toList <:+: line

instance (line : List Char) : Decidable (Unbroken line) :=
  decidable_of_iff ('\n' ∉ line ∧ '\r' ∉ line)
    ⟨fun h => ⟨h.1, h.2⟩, fun h => ⟨h.newline, h.returns⟩⟩

instance (lines : List (List Char)) : Decidable (Annotated lines) :=
  decidable_of_iff ((∀ line ∈ lines, Unbroken line) ∧ (∀ line ∈ lines, ¬"*/".toList <:+: line) ∧
      ∃ line ∈ lines, "@api".toList <:+: line)
    ⟨fun h => ⟨h.1, h.2.1, h.2.2⟩, fun h => ⟨h.unbroken, h.inside, h.annotated⟩⟩

theorem Annotated.ne_nil {lines : List (List Char)} (h : Annotated lines) : lines ≠ [] := by
  obtain ⟨line, hline, -⟩ := h.annotated
  exact List.ne_nil_of_mem hline

/-! ### Their regions -/

/-- The lines of a file are those that it was made of. -/
theorem lines_fileOf {lines : List (List Char)} (h : ∀ line ∈ lines, Unbroken line ∧ line ≠ [])
    (hne : lines ≠ []) (ended : Bool) : Text.lines (fileOf lines ended).toList = lines := by
  rw [fileOf, String.toList_ofList]
  cases ended with
  | true =>
      rw [if_pos rfl, lines_joinLines (fun line hline => (h line hline).1) List.not_mem_nil]
      exact List.append_nil lines
  | false =>
      obtain ⟨front, last, rfl⟩ : ∃ front last, lines = front ++ [last] :=
        ⟨_, _, (List.dropLast_concat_getLast hne).symm⟩
      rw [List.forall_mem_append, List.forall_mem_singleton] at h
      have hlast : last.isEmpty = false := by simpa using h.2.2
      rw [if_neg Bool.false_ne_true, lines_joinLines (fun line hline => (h.1 line hline).1)
        h.2.1.newline, hlast]
      rfl

/-- A line behind a comment marker. -/
theorem unbroken_marked {marker line : List Char} (hmarker : Unbroken marker) (hne : marker ≠ [])
    (h : Unbroken line) : Unbroken (marker ++ line) ∧ marker ++ line ≠ [] := by
  refine ⟨⟨?_, ?_⟩, by simp [hne]⟩
  · rw [List.mem_append, not_or]
    exact ⟨hmarker.newline, h.newline⟩
  · rw [List.mem_append, not_or]
    exact ⟨hmarker.returns, h.returns⟩

theorem unbroken_map_marked {marker : List Char} (hmarker : Unbroken marker) (hne : marker ≠ [])
    {lines : List (List Char)} (h : ∀ line ∈ lines, Unbroken line) :
    ∀ line ∈ lines.map (marker ++ ·), Unbroken line ∧ line ≠ [] := by
  rw [List.forall_mem_map]
  exact fun line hline => unbroken_marked hmarker hne (h line hline)

/-- A region that holds an annotation counts. -/
theorem close_of_occurs {position : Position} {reversed : List (List Char)} {line : List Char}
    (hline : line ∈ reversed) (hapi : "@api".toList <:+: line) :
    OpenRegion.close ⟨position, reversed⟩ =
      [⟨position, String.ofList (joinLines reversed.reverse)⟩] := by
  have hoccurs : occursIn "@api".toList (joinLines reversed.reverse) = true :=
    occursIn_iff.mpr (hapi.trans (infix_joinLines (List.mem_reverse.mpr hline)))
  simp only [OpenRegion.close, hoccurs, if_true]

theorem columnOf_marked (marker text : List Char) :
    columnOf (marker ++ text) text = marker.length + 1 := by
  rw [columnOf, List.length_append, Nat.add_sub_cancel]

/-- A reader of lines takes those behind a marker for line comments, outside block comments. -/
structure ReadsRuns (regions : Nat → Scope → List (List Char) → List Region)
    (marker : List Char) : Prop where
  done : ∀ n scope, regions n scope [] = scope.close
  line : ∀ n scope line rest, (∀ region, scope ≠ .block region) →
    regions n scope ((marker ++ line) :: rest) =
      regions (n + 1) (scope.extend ⟨n, marker.length + 1⟩ line) rest

theorem readsRuns_slash : ReadsRuns slashRegions "// ".toList where
  done := by
    intro n scope
    cases scope <;> rfl
  line := by
    intro n scope line rest hscope
    have hline : slashLine? ("// ".toList ++ line) = some line := rfl
    rw [slashRegions, hline]
    · simp only [columnOf_marked]
    · exact hscope

theorem readsRuns_hash : ReadsRuns hashRegions "# ".toList where
  done := fun _ _ => rfl
  line := by
    intro n scope line rest _
    have hline : hashLine? ("# ".toList ++ line) = some line := rfl
    rw [hashRegions, hline]
    simp only [columnOf_marked]

namespace ReadsRuns

variable {regions : Nat → Scope → List (List Char) → List Region} {marker : List Char}
  (h : ReadsRuns regions marker)

include h

/-- A run of line comments goes on to the last of them. -/
theorem run {lines : List (List Char)} :
    ∀ n (r : OpenRegion), regions n (.run r) (lines.map (marker ++ ·)) =
      OpenRegion.close { r with lines := lines.reverse ++ r.lines } := by
  induction lines with
  | nil => exact fun n r => h.done n (.run r)
  | cons line rest ih =>
      intro n r
      rw [List.map_cons, h.line n (.run r) line _ (by simp)]
      refine (ih (n + 1) (r.push line)).trans ?_
      rw [List.reverse_cons, List.append_assoc]
      rfl

/-- Line comments around an annotation are one region, which starts behind the first marker. -/
theorem region {lines : List (List Char)} (hlines : Annotated lines) :
    regions 1 .code (lines.map (marker ++ ·)) =
      [⟨⟨1, marker.length + 1⟩, String.ofList (joinLines lines)⟩] := by
  obtain ⟨first, rest, rfl⟩ := List.exists_cons_of_ne_nil hlines.ne_nil
  obtain ⟨line, hline, hapi⟩ := hlines.annotated
  rw [List.map_cons, h.line 1 .code first _ (by simp), Scope.extend, h.run, ← List.reverse_cons,
    close_of_occurs (List.mem_reverse.mpr hline) hapi, List.reverse_reverse]
  simp

end ReadsRuns

/-- A block comment goes on to its end, where one blank is left in front of the end. -/
theorem slashRegions_block {lines : List (List Char)}
    (h : ∀ line ∈ lines, ¬"*/".toList <:+: line) :
    ∀ n (r : OpenRegion),
      slashRegions n (.block r) (lines.map (" * ".toList ++ ·) ++ [" */".toList]) =
        OpenRegion.close { r with lines := [' '] :: (lines.reverse ++ r.lines) } := by
  induction lines with
  | nil => intro n r; exact List.append_nil _
  | cons line rest ih =>
      intro n r
      rw [List.forall_mem_cons] at h
      have hinside : cutAt ['*', '/'] (" * ".toList ++ line) = none := by
        refine cutAt_eq_none.mpr fun hend => h.1 ?_
        -- the marker ends with a blank, so the end of the comment would stand in the line
        simpa [List.infix_cons_iff] using hend
      rw [List.map_cons, List.cons_append, slashRegions, hinside]
      refine (ih h.2 (n + 1) (r.push line)).trans ?_
      rw [List.reverse_cons, List.append_assoc]
      rfl

section Regions

variable {lines : List (List Char)} (h : Annotated lines)

include h

theorem regionsOf_slash (ended : Bool) : regionsOf .slash (fileOf (slashComment lines) ended) =
    [⟨⟨1, 4⟩, String.ofList (joinLines lines)⟩] := by
  have hread : Text.lines (fileOf (slashComment lines) ended).toList = slashComment lines :=
    lines_fileOf (unbroken_map_marked (by decide) (by decide) h.unbroken)
      (by simpa [slashComment] using h.ne_nil) ended
  rw [regionsOf, hread]
  exact readsRuns_slash.region h

theorem regionsOf_hash (ended : Bool) : regionsOf .hash (fileOf (hashComment lines) ended) =
    [⟨⟨1, 3⟩, String.ofList (joinLines lines)⟩] := by
  have hread : Text.lines (fileOf (hashComment lines) ended).toList = hashComment lines :=
    lines_fileOf (unbroken_map_marked (by decide) (by decide) h.unbroken)
      (by simpa [hashComment] using h.ne_nil) ended
  have hshebang : blankShebang (hashComment lines) = hashComment lines := by
    -- the blank of the marker keeps the first line from being an interpreter line
    cases lines <;> rfl
  rw [regionsOf, hread, hshebang]
  exact readsRuns_hash.region h

/-- An annotation in a block comment is one region, which starts behind the opening stars. -/
theorem regionsOf_block (ended : Bool) : regionsOf .slash (fileOf (blockComment lines) ended) =
    [⟨⟨1, 4⟩, String.ofList (joinLines ([] :: lines ++ [[' ']]))⟩] := by
  have hunbroken : ∀ line ∈ blockComment lines, Unbroken line ∧ line ≠ [] := by
    rw [blockComment, List.forall_mem_cons, List.forall_mem_append, List.forall_mem_singleton]
    exact ⟨by decide, unbroken_map_marked (by decide) (by decide) h.unbroken, by decide⟩
  obtain ⟨line, hline, hapi⟩ := h.annotated
  rw [regionsOf, lines_fileOf hunbroken (List.cons_ne_nil _ _)]
  show slashRegions 2 (.block ⟨⟨1, 4⟩, [[]]⟩) (lines.map (" * ".toList ++ ·) ++ [" */".toList]) = _
  rw [slashRegions_block h.inside,
    close_of_occurs (List.mem_cons_of_mem _ (List.mem_append_left _ (List.mem_reverse.mpr hline)))
      hapi, List.reverse_cons, List.reverse_append, List.reverse_reverse]
  rfl

/-! ### What they declare -/

/-- Places some lines further down, and some columns further left on the first line. -/
def shifted (down left : Nat) (p : Position) : Position :=
  { line := p.line + down, column := if p.line = 1 then p.column - left else p.column }

/-- The tags of the hash comments are those of the slash comments, one column to the left where
the first line has any. -/
theorem tagsOf_hash : tagsOf (String.ofList (joinLines lines)) ⟨1, 3⟩ =
    relocated (shifted 0 1) (List.map (Tag.moved (shifted 0 1)))
      (tagsOf (String.ofList (joinLines lines)) ⟨1, 4⟩) := by
  have hmove : ∀ j line, shifted 0 1 (linePosition ⟨1, 4⟩ (0 + j) line) =
      linePosition ⟨1, 3⟩ (0 + j) line := by
    rintro (- | j) line
    · simp only [shifted, linePosition, Nat.add_zero, if_true, Position.mk.injEq, true_and]
      omega
    · simp [shifted, linePosition]
  rw [tagsOf_joinLines h.unbroken h.ne_nil, tagsOf_joinLines h.unbroken h.ne_nil,
    cutLines_moved 0 0 hmove]
  cases cutLines ⟨1, 4⟩ 0 lines <;> rfl

/-- The tags of the block comment are those of the slash comments, one line further down. -/
theorem tagsOf_block : tagsOf (String.ofList (joinLines ([] :: lines ++ [[' ']]))) ⟨1, 4⟩ =
    relocated (shifted 1 3) (List.map (Tag.moved (shifted 1 3)))
      (tagsOf (String.ofList (joinLines lines)) ⟨1, 4⟩) := by
  have hunbroken : ∀ line ∈ [] :: lines ++ [[' ']], Unbroken line := by
    rw [List.forall_mem_append, List.forall_mem_cons, List.forall_mem_singleton]
    exact ⟨⟨by decide, h.unbroken⟩, by decide⟩
  have hmove : ∀ j line, shifted 1 3 (linePosition ⟨1, 4⟩ (0 + j) line) =
      linePosition ⟨1, 4⟩ (1 + j) line := by
    rintro (- | j) line
    · simp only [shifted, linePosition, Nat.add_zero, if_true, Position.mk.injEq]
      exact ⟨trivial, by simp; omega⟩
    · simp only [shifted, linePosition, Position.mk.injEq]
      exact ⟨by omega, by simp⟩
  have hblank : (cutLines ⟨1, 4⟩ 0 ([] :: lines)).map Prod.snd =
      (cutLines ⟨1, 4⟩ 1 lines).map Prod.snd := by
    show (cutLines ⟨1, 4⟩ 1 lines >>= fun cut => Except.ok ([] :: cut.1, cut.2)).map Prod.snd = _
    cases cutLines ⟨1, 4⟩ 1 lines <;> rfl
  rw [tagsOf_joinLines hunbroken (by simp), tags_concat_blank (by decide), hblank,
    tagsOf_joinLines h.unbroken h.ne_nil, cutLines_moved 0 1 hmove]
  cases cutLines ⟨1, 4⟩ 0 lines <;> rfl

end Regions

/-- A region declares the same elsewhere when its tags are the same there. -/
theorem blockOfRegion_moved {move : Position → Position} {region region' : Region}
    (h : tagsOf region'.text region'.position =
      relocated move (List.map (Tag.moved move)) (tagsOf region.text region.position)) :
    blockOfRegion region' = relocated move (Block.moved move) (blockOfRegion region) := by
  unfold blockOfRegion
  rw [h]
  exact relocated_bind blockOf_moved

/-- A file of one region declares what the region does. -/
theorem findingsOf_moved {move : Position → Position} {region region' : Region}
    (h : tagsOf region'.text region'.position =
      relocated move (List.map (Tag.moved move)) (tagsOf region.text region.position))
    (path : String) : findingsOf path [region'] =
      relocated move (FileFindings.moved move) (findingsOf path [region]) := by
  unfold findingsOf
  rw [List.foldlM_cons, List.foldlM_cons, blockOfRegion_moved h]
  cases blockOfRegion region with
  | error fault => rfl
  | ok block => cases block <;> rfl

/-- **An annotation says the same in slash comments, in hash comments and in a block comment.**
Each of the three is one region, and their tags have the same names and bodies, in the same order:
those of the hash comments stand one column to the left on the first line, and those of the block
comment one line further down.  So the three files declare the same, in other places, or are
refused for the same fault, in another place. -/
theorem readSource_comment_styles {lines : List (List Char)} (h : Annotated lines)
    (path : String) (ended : Bool) :
    ∃ slash hash block : Region,
      regionsOf .slash (fileOf (slashComment lines) ended) = [slash] ∧
      regionsOf .hash (fileOf (hashComment lines) ended) = [hash] ∧
      regionsOf .slash (fileOf (blockComment lines) ended) = [block] ∧
      tagsOf hash.text hash.position =
        relocated (shifted 0 1) (List.map (Tag.moved (shifted 0 1)))
          (tagsOf slash.text slash.position) ∧
      tagsOf block.text block.position =
        relocated (shifted 1 3) (List.map (Tag.moved (shifted 1 3)))
          (tagsOf slash.text slash.position) ∧
      readSource path .hash (fileOf (hashComment lines) ended) =
        relocated (shifted 0 1) (FileFindings.moved (shifted 0 1))
          (readSource path .slash (fileOf (slashComment lines) ended)) ∧
      readSource path .slash (fileOf (blockComment lines) ended) =
        relocated (shifted 1 3) (FileFindings.moved (shifted 1 3))
          (readSource path .slash (fileOf (slashComment lines) ended)) := by
  have hslash := regionsOf_slash h ended
  have hhash := regionsOf_hash h ended
  have hblock := regionsOf_block h ended
  refine ⟨_, _, _, hslash, hhash, hblock, tagsOf_hash h, tagsOf_block h, ?_, ?_⟩
  · rw [readSource, readSource, hslash, hhash]
    refine findingsOf_moved ?_ path
    exact tagsOf_hash h
  · rw [readSource, readSource, hslash, hblock]
    refine findingsOf_moved ?_ path
    exact tagsOf_block h

/-- Lines that start like comment markers, and blank ones. -/
def listPets : List (List Char) :=
  ["* pets", "@api get /p", "", "/ a", "! b", "# c", " * d", ""].map String.toList

theorem readSource_listPets : ∃ found,
    readSource "pets" .slash (fileOf (slashComment listPets) true) = .ok found ∧
    found.endpoints.map (fun e => (e.path, e.description, e.position)) =
      [("/p", "/ a\n! b\n# c\n * d", ⟨2, 1⟩)] ∧
    readSource "pets" .hash (fileOf (hashComment listPets) true) =
      .ok (found.moved (shifted 0 1)) ∧
    readSource "pets" .slash (fileOf (blockComment listPets) true) =
      .ok (found.moved (shifted 1 3)) := by
  obtain ⟨-, -, -, -, -, -, -, -, hhash, hblock⟩ :=
    readSource_comment_styles (show Annotated listPets by decide +kernel) "pets" true
  have hread : ((readSource "pets" .slash (fileOf (slashComment listPets) true)).map fun found =>
      found.endpoints.map fun e => (e.path, e.description, e.position)) =
        .ok [("/p", "/ a\n! b\n# c\n * d", ⟨2, 1⟩)] := by
    decide +kernel
  obtain ⟨found, hfound, hendpoints⟩ := map_eq_ok.mp hread
  rw [hfound] at hhash hblock
  exact ⟨found, hfound, hendpoints, hhash, hblock⟩

end Annotation

end ApiNotes
