/-
Tags, endpoints and faults stand where they say.

A tag is cut from a line of a region behind blanks, and that line stands in the file behind a
comment marker, so the tag stands in the file on the line that it carries, behind the marker
and the blanks (`Region.Stands.marks`).  Endpoints and faults take their places from tags, so
every place that comes out of a file is the place of a tag in it, or of a run that was meant
to be one.
-/
import ApiNotes.Proofs.Blame
import ApiNotes.Proofs.Regions
import ApiNotes.Proofs.TagLines

namespace ApiNotes

namespace Annotation

open Text

/-! ### Runs of characters in a region -/

/-- A run of characters stands in a line of the region, behind nothing but blanks and the comment
marker.  The column counts the marker on the region's first line only. -/
structure Region.Marks (source : List (List Char)) (r : Region) (position : Position)
    (run : List Char) : Prop where
  low : r.position.line ≤ position.line
  high : position.line < r.stop
  run : ∃ marker text indent, r.lines[position.line - r.position.line]? = some text ∧
    Behind source position.line marker text ∧ indent ++ run <+: text ∧
    (∀ c ∈ indent, isBlank c = true) ∧
    position.column =
      (if position.line = r.position.line then marker.length else 0) + indent.length + 1

theorem indent_append_trimStart (line : List Char) :
    line.takeWhile isBlank ++ trimStart line = line := List.takeWhile_append_dropWhile

/-- What starts a line of the region, but for blanks, stands at the place of the line. -/
theorem Region.Stands.marks {source : List (List Char)} {r : Region} (h : r.Stands source) {i : Nat}
    {line run : List Char} (hline : (Text.lines r.text.toList)[i]? = some line)
    (hrun : run <+: trimStart line) : r.Marks source (linePosition r.position i line) run := by
  obtain ⟨piece, hpiece, hprefix⟩ := getElem?_lines hline
  have hpiece : r.lines[i]? = some piece := hpiece
  obtain ⟨marker, hbehind, hcolumn⟩ := h i piece hpiece
  have hi : i < r.lines.length := (List.getElem?_eq_some_iff.mp hpiece).1
  have hindented : line.takeWhile isBlank ++ run <+: piece := by
    refine List.IsPrefix.trans ?_ hprefix
    conv => rhs; rw [← indent_append_trimStart line]
    exact (List.prefix_append_right_inj _).mpr hrun
  refine ⟨Nat.le_add_right _ _, Nat.add_lt_add_left hi _, marker, piece,
    line.takeWhile isBlank, ?_, hbehind, hindented, fun c hc => List.mem_takeWhile_imp hc, ?_⟩
  · show r.lines[r.position.line + i - r.position.line]? = some piece
    rw [Nat.add_sub_cancel_left, hpiece]
  · show (if i = 0 then r.position.column else 1) + (line.takeWhile isBlank).length =
      (if r.position.line + i = r.position.line then marker.length else 0) +
        (line.takeWhile isBlank).length + 1
    by_cases hzero : i = 0
    · have hfirst : r.position.line + i = r.position.line := by omega
      rw [if_pos hzero, if_pos hfirst, hcolumn hzero]
      omega
    · have hlater : ¬r.position.line + i = r.position.line := by omega
      rw [if_neg hzero, if_neg hlater]
      omega

/-! ### Tags -/

/-- A run that starts like one of our tags without naming one. -/
structure Malformed (run : List Char) : Prop where
  ours : "@api".toList <+: run
  unnamed : tagName? run = none

theorem firstRun_leads (s : List Char) : firstRun s <+: s := List.takeWhile_prefix _

theorem Misnamed.malformed {line : List Char} (h : Misnamed line) : Malformed (lineRun line) where
  ours := h.ours
  unnamed := not_isOpener_iff.mp h.unnamed

/-- **Each tag of a region stands where it says.** -/
theorem tagsOf_marks {source : List (List Char)} {r : Region} (h : r.Stands source)
    {tags : List Tag} (htags : tagsOf r.text r.position = .ok tags) :
    ∀ tag ∈ tags, r.Marks source tag.position ('@' :: tag.name.toList) := by
  intro tag htag
  obtain ⟨i, line, below, hcut⟩ := (cutInto_of_tagsOf htags).2.tagAt htag
  rw [hcut.starts.unique (startsAt_linePosition r.position i line), ← hcut.opens.run]
  exact h.marks hcut.stands (firstRun_leads _)

/-- So does the run that ends the cutting of a region. -/
theorem tagsOf_fault_marks {source : List (List Char)} {r : Region} (h : r.Stands source)
    {fault : Fault} (hfault : tagsOf r.text r.position = .error fault) :
    fault = (Fault.of .malformedTag "").located fault.position ∧
      ∃ run, Malformed run ∧ r.Marks source fault.position run := by
  obtain ⟨i, line, position, hline, hmisnamed, -, hstarts, rfl⟩ := failsAt_of_tagsOf hfault
  refine ⟨rfl, _, hmisnamed.malformed, ?_⟩
  show r.Marks source position (lineRun line)
  rw [hstarts.unique (startsAt_linePosition r.position i line)]
  exact h.marks hline (firstRun_leads _)

/-! ### Files -/

theorem findingsOf_fault {path : String} {regions : List Region} {fault : Fault}
    (h : findingsOf path regions = .error fault) :
    ∃ region ∈ regions, ∃ inner, blockOfRegion region = .error inner ∧
      fault = inner.inFile path := by
  obtain ⟨region, hregion, found, h⟩ := foldlM_eq_error _ _ h
  split at h
  next => cases h
  next inner hinner => exact ⟨region, hregion, inner, hinner, (Except.error.inj h).symm⟩

/-- Every endpoint found in a file is declared in one of its regions. -/
theorem findingsOf_endpoints {path : String} {regions : List Region} {found : FileFindings}
    (h : findingsOf path regions = .ok found) :
    found.path = path ∧ ∀ e ∈ found.endpoints, ∃ region ∈ regions, ∃ declared,
      blockOfRegion region = .ok (.endpoint declared) ∧
        e = { declared with file := some path } := by
  refine foldlM_invariant
    (motive := fun (before : List Region) (found : FileFindings) => found.path = path ∧
      ∀ e ∈ found.endpoints, ∃ region ∈ before, ∃ declared,
        blockOfRegion region = .ok (.endpoint declared) ∧ e = { declared with file := some path })
    ?_ regions [] { path } found (fun _ _ => trivial) ⟨rfl, by simp⟩ h
  intro before found region found' (_ : True) hfound hstep
  split at hstep
  next block hblock =>
    obtain rfl := Except.ok.inj hstep
    obtain ⟨hpath, hendpoints⟩ := hfound
    have hbefore : ∀ e ∈ found.endpoints, ∃ r ∈ before ++ [region], ∃ declared,
        blockOfRegion r = .ok (.endpoint declared) ∧ e = { declared with file := some path } := by
      intro e he
      obtain ⟨r, hr, hdeclared⟩ := hendpoints e he
      exact ⟨r, List.mem_append_left _ hr, hdeclared⟩
    cases block with
    | doc doc => exact ⟨hpath, hbefore⟩
    | empty => exact ⟨hpath, hbefore⟩
    | endpoint declared =>
        refine ⟨hpath, fun e he => ?_⟩
        rcases List.mem_append.mp he with he | he
        · exact hbefore e he
        · have hregion : region ∈ before ++ [region] := by simp
          refine ⟨region, hregion, declared, hblock, ?_⟩
          rw [List.mem_singleton.mp he, hpath]
  next => cases hstep

/-- Lines of a file that a region goes over. -/
structure Region.Spans (r : Region) (n : Nat) : Prop where
  low : r.position.line ≤ n
  high : n < r.stop

/-- Characters that stand in a line of a file. -/
def Shows (source : List (List Char)) (n : Nat) (run : List Char) : Prop :=
  ∃ line, lineAt? source n = some line ∧ run <:+: line

theorem Behind.shows {source : List (List Char)} {n : Nat} {marker text run : List Char}
    (h : Behind source n marker text) (hrun : run <:+: text) : Shows source n run := by
  obtain ⟨-, line, hline, hbehind⟩ := h
  refine ⟨line, hline, hrun.trans ?_⟩
  exact (List.suffix_append marker text).isInfix.trans hbehind.isInfix

theorem Region.Marks.shows {source : List (List Char)} {r : Region} {position : Position}
    {run : List Char} (h : r.Marks source position run) : Shows source position.line run := by
  obtain ⟨marker, text, indent, -, hbehind, htext, -, -⟩ := h.run
  exact hbehind.shows ((List.suffix_append indent run).isInfix.trans htext.isInfix)

theorem Region.start_lt_stop (r : Region) : r.position.line < r.stop := by
  have hlines : r.lines ≠ [] := List.splitOn_ne_nil '\n' r.text.toList
  have hpos := List.length_pos_iff.mpr hlines
  rw [Region.stop]
  omega

/-- Regions that stand apart and go over the same line are the same. -/
theorem eq_of_spans {regions : List Region}
    (hapart : regions.Pairwise fun a b => a.stop ≤ b.position.line) {a b : Region}
    (ha : a ∈ regions) (hb : b ∈ regions) {n : Nat} (han : a.Spans n) (hbn : b.Spans n) :
    a = b := by
  obtain ⟨i, hi, rfl⟩ := List.mem_iff_getElem.mp ha
  obtain ⟨j, hj, rfl⟩ := List.mem_iff_getElem.mp hb
  rw [List.pairwise_iff_getElem] at hapart
  have hlow := han.low
  have hlow' := hbn.low
  have hhigh := han.high
  have hhigh' := hbn.high
  rcases Nat.lt_trichotomy i j with hij | rfl | hij
  · have := hapart i j hi hj hij
    omega
  · rfl
  · have := hapart j i hj hi hij
    omega

/-- A fault that a region of the file is to blame for: a run in it that was meant for a tag, or
one of its tags. -/
inductive Region.Accused (source : List (List Char)) (r : Region) (fault : Fault) : Prop
  | run (run : List Char) (hlex : tagsOf r.text r.position = .error { fault with file := none })
      (hrun : Malformed run) (hshows : Shows source fault.position.line run)
  | tag (tags : List Tag) (tag : Tag) (hlex : tagsOf r.text r.position = .ok tags)
      (htag : tag ∈ tags) (hblamed : tag.Blamed { fault with file := none })
      (hposition : fault.position = tag.position)
      (hshows : Shows source fault.position.line ('@' :: tag.name.toList))

/-- The lines that the readers of a file give are those of the file. -/
structure LinesExact (path : String) (style : CommentStyle) (content : String)
    (source : List (List Char)) (regions : List Region) : Prop where
  /-- Regions go down the file, and no two go over one line. -/
  apart : regions.Pairwise fun a b => a.position.line < b.position.line ∧
    ∀ n, a.Spans n → ¬b.Spans n
  /-- Each line of a region is a part of its own line of the file. -/
  lines : ∀ r ∈ regions, ∀ i text, r.lines[i]? = some text → Shows source (r.position.line + i) text
  /-- The first one starts at the column of the region. -/
  column : ∀ r ∈ regions, ∃ line text, lineAt? source r.position.line = some line ∧
    r.lines[0]? = some text ∧ 0 < r.position.column ∧ text <+: line.drop (r.position.column - 1)
  /-- An annotated line comment is a line of one region, and of no other. -/
  cover : ∀ n line, LineComment style source n line → ∃ r ∈ regions, r.Spans n ∧
    r.lines[n - r.position.line]? = lineComment? style line ∧
      ∀ other ∈ regions, other.Spans n → other = r
  /-- A tag stands in the line that it gives. -/
  tags : ∀ r ∈ regions, ∀ tags, tagsOf r.text r.position = .ok tags →
    ∀ tag ∈ tags, Shows source tag.position.line ('@' :: tag.name.toList)
  /-- So does a run that was meant for a tag. -/
  runs : ∀ r ∈ regions, ∀ fault, tagsOf r.text r.position = .error fault →
    ∃ run, Malformed run ∧ Shows source fault.position.line run
  /-- An endpoint stands where the tag does that declares it. -/
  endpoints : ∀ found, readSource path style content = .ok found → ∀ e ∈ found.endpoints,
    e.file = some path ∧ ∃ r ∈ regions, ∃ tags, tagsOf r.text r.position = .ok tags ∧
      ∃ tag ∈ tags, tag.name = "api" ∧ e.position = tag.position ∧
        Shows source e.position.line ('@' :: tag.name.toList)
  /-- A fault names the file, and stands where the tag or the run does that is to blame. -/
  faults : ∀ fault, readSource path style content = .error fault →
    fault.file = some path ∧ ∃ r ∈ regions, r.Accused source fault

/-- A fault of a region is one of its runs or tags. -/
theorem accused_of_blockOfRegion {source : List (List Char)} {r : Region} (h : r.Stands source)
    {fault : Fault} (hfault : blockOfRegion r = .error fault) (path : String) :
    fault.file = none ∧ r.Accused source (fault.inFile path) := by
  rw [blockOfRegion, bind_eq_error] at hfault
  rcases hfault with hlex | ⟨tags, hlex, hblock⟩
  · obtain ⟨hkind, run, hrun, hmarks⟩ := tagsOf_fault_marks h hlex
    have hfile : fault.file = none := by
      rw [hkind]
      rfl
    refine ⟨hfile, .run run ?_ hrun hmarks.shows⟩
    rw [hlex, ← hfile]
    rfl
  · obtain ⟨tag, htag, hblamed⟩ := blockOf_blamed hblock
    have hshows := (tagsOf_marks h hlex tag htag).shows
    rw [← hblamed.position] at hshows
    refine ⟨hblamed.file, .tag tags tag hlex htag ?_ hblamed.position hshows⟩
    rw [← hblamed.file]
    exact hblamed

/-- A region starts in its first line at its column. -/
theorem Region.Stands.column {source : List (List Char)} {r : Region} (h : r.Stands source) :
    ∃ line text, lineAt? source r.position.line = some line ∧ r.lines[0]? = some text ∧
      0 < r.position.column ∧ text <+: line.drop (r.position.column - 1) := by
  have hpos : 0 < r.lines.length := by
    have hlt := r.start_lt_stop
    rw [Region.stop] at hlt
    omega
  have hpiece : r.lines[0]? = some r.lines[0] := List.getElem?_eq_getElem hpos
  obtain ⟨marker, ⟨-, line, hline, hbehind⟩, hcolumn⟩ := h 0 _ hpiece
  refine ⟨line, r.lines[0], hline, hpiece, ?_, ?_⟩
  · rw [hcolumn rfl]
    exact Nat.succ_pos _
  · obtain ⟨behind, rfl⟩ := hbehind
    rw [hcolumn rfl, Nat.add_sub_cancel, List.append_assoc, List.drop_left]
    exact List.prefix_append r.lines[0] behind

section File

variable {path : String} {style : CommentStyle} {content : String}

/-- An annotated line comment is a line of one region, and of no other. -/
theorem regionsOf_cover_once {n : Nat} {line : List Char}
    (h : LineComment style (lines content.toList) n line) :
    ∃ r ∈ regionsOf style content, r.Spans n ∧
      r.lines[n - r.position.line]? = lineComment? style line ∧
        ∀ other ∈ regionsOf style content, other.Spans n → other = r := by
  obtain ⟨r, hr, hlow, hpiece⟩ := regionsOf_cover h
  have hspans : r.Spans n := by
    refine ⟨hlow, ?_⟩
    obtain ⟨text, htext⟩ := exists_lineComment? h.marker
    have hlt := (List.getElem?_eq_some_iff.mp (hpiece.trans htext)).1
    rw [Region.stop]
    omega
  refine ⟨r, hr, hspans, hpiece, fun other hother hspans' => ?_⟩
  exact eq_of_spans (regionsOf_apart style content) hother hr hspans' hspans

/-- An endpoint of a file stands where the tag does that declares it. -/
theorem readSource_endpoint {found : FileFindings}
    (hfound : readSource path style content = .ok found) {e : Endpoint}
    (he : e ∈ found.endpoints) : e.file = some path ∧ ∃ r ∈ regionsOf style content, ∃ tags,
      tagsOf r.text r.position = .ok tags ∧ ∃ tag ∈ tags, tag.name = "api" ∧
        e.position = tag.position ∧
          Shows (lines content.toList) e.position.line ('@' :: tag.name.toList) := by
  obtain ⟨r, hr, declared, hblock, rfl⟩ := (findingsOf_endpoints hfound).2 e he
  rw [blockOfRegion, bind_eq_ok] at hblock
  obtain ⟨tags, htags, hblock⟩ := hblock
  obtain ⟨tag, htag, hkind, hposition⟩ := blockOf_position hblock
  refine ⟨rfl, r, hr, tags, htags, tag, htag, name_of_endpoint hkind, hposition, ?_⟩
  show Shows _ declared.position.line _
  rw [hposition]
  exact (tagsOf_marks (regionsOf_stand hr) htags tag htag).shows

/-- A fault of a file names it, and a region of the file is to blame. -/
theorem readSource_fault {fault : Fault} (h : readSource path style content = .error fault) :
    fault.file = some path ∧
      ∃ r ∈ regionsOf style content, r.Accused (lines content.toList) fault := by
  obtain ⟨r, hr, inner, hinner, rfl⟩ := findingsOf_fault h
  obtain ⟨hfile, haccused⟩ := accused_of_blockOfRegion (regionsOf_stand hr) hinner path
  refine ⟨?_, r, hr, haccused⟩
  show inner.file.or (some path) = some path
  rw [hfile]
  rfl

end File

/-- **The lines of a file are exact, and no annotated comment of it is lost.** -/
theorem readSource_linesExact (path : String) (style : CommentStyle) (content : String) :
    LinesExact path style content (lines content.toList) (regionsOf style content) where
  apart := by
    refine (regionsOf_apart style content).imp fun {a b} hab => ⟨?_, fun n ha hb => ?_⟩
    · exact Nat.lt_of_lt_of_le a.start_lt_stop hab
    · have hlow := hb.low
      have hhigh := ha.high
      omega
  lines := by
    intro r hr i text htext
    obtain ⟨marker, hbehind, -⟩ := regionsOf_stand hr i text htext
    exact hbehind.shows (List.infix_refl text)
  column := fun r hr => (regionsOf_stand hr).column
  cover := fun n line hline => regionsOf_cover_once hline
  tags := fun r hr tags htags tag htag => (tagsOf_marks (regionsOf_stand hr) htags tag htag).shows
  runs := by
    intro r hr fault hfault
    obtain ⟨-, run, hrun, hmarks⟩ := tagsOf_fault_marks (regionsOf_stand hr) hfault
    exact ⟨run, hrun, hmarks.shows⟩
  endpoints := fun found hfound e he => readSource_endpoint hfound he
  faults := fun fault hfault => readSource_fault hfault

end Annotation

end ApiNotes
