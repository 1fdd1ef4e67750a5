/-
Comments without `@api` say nothing.

The comments of a file that have no `@api` in them are left out of its regions, on the text
alone and before anything is read.  That is safe for two reasons.  A line can only be malformed
when its first run starts with `@api`; and every tag name that is known starts with `api`, so the
run that opens such a tag starts with `@api` too.  A text without it is therefore cut into tags
without a fault, all of them unknown, and no unknown tag opens a block.
-/
import ApiNotes.Proofs.Composition
import ApiNotes.Proofs.UnknownTags

namespace ApiNotes

namespace Text

/-- A line of a text occurs in it. -/
theorem infix_of_mem_lines {s line : List Char} (h : line ∈ lines s) : line <:+: s := by
  obtain ⟨i, hi⟩ := List.mem_iff_getElem?.mp h
  obtain ⟨piece, hpiece, hleads⟩ := getElem?_lines hi
  have hwhole : joinLines (s.splitOn '\n') = s := List.intercalate_splitOn '\n'
  have hinside : piece <:+: joinLines (s.splitOn '\n') :=
    infix_joinLines (List.mem_of_getElem? hpiece)
  rw [hwhole] at hinside
  exact hleads.isInfix.trans hinside

end Text

namespace Annotation

open Text

/-! ### Texts without the mark -/

/-- A text in which `@api` does not occur. -/
def Unmarked (text : List Char) : Prop := ¬"@api".toList <:+: text

instance (text : List Char) : Decidable (Unmarked text) :=
  inferInstanceAs (Decidable ¬"@api".toList <:+: text)

theorem Unmarked.shorter {text part : List Char} (h : Unmarked text) (hpart : part <:+: text) :
    Unmarked part := fun hmark => h (hmark.trans hpart)

/-- The first run of a line occurs in it. -/
theorem infix_lineRun (line : List Char) : lineRun line <:+: line := by
  have hrun : lineRun line <+: trimStart line := firstRun_leads (trimStart line)
  exact hrun.isInfix.trans (List.dropWhile_suffix isBlank).isInfix

/-- Every name that is known starts with `api`. -/
theorem TagKind.ours_of_ofName {name : String} (h : TagKind.ofName name ≠ .unknown) :
    "api".toList <+: name.toList := by
  unfold TagKind.ofName at h
  split at h <;> first | decide | exact absurd rfl h

section Unmarked

variable {text : String} {origin : Position}

/-- A line that is malformed has the mark in it. -/
theorem Misnamed.marked {line : List Char} (h : Misnamed line) : ¬Unmarked line :=
  fun hunmarked => hunmarked (h.ours.isInfix.trans (infix_lineRun line))

/-- And so has a line that opens a known tag. -/
theorem Opens.marked {line : List Char} {name : String} (h : Opens line name.toList)
    (hknown : TagKind.ofName name ≠ .unknown) : ¬Unmarked line := by
  have hmark : "@api".toList <+: lineRun line := by
    rw [h.run]
    exact (List.prefix_append_right_inj ['@']).mpr (TagKind.ours_of_ofName hknown)
  exact fun hunmarked => hunmarked (hmark.isInfix.trans (infix_lineRun line))

theorem exists_tags_of_unmarked (h : Unmarked text.toList) (origin : Position) :
    ∃ tags, tagsOf text origin = .ok tags := by
  cases hcut : tagsOf text origin with
  | ok tags => exact ⟨tags, rfl⟩
  | error fault =>
      obtain ⟨i, line, -, hline, hmisnamed, -⟩ := failsAt_of_tagsOf hcut
      have hinside := infix_of_mem_lines (List.mem_of_getElem? hline)
      exact absurd (h.shorter hinside) hmisnamed.marked

/-- The tags of a text without the mark are unknown. -/
theorem kind_of_unmarked (h : Unmarked text.toList) {tags : List Tag}
    (htags : tagsOf text origin = .ok tags) {tag : Tag} (htag : tag ∈ tags) :
    tag.kind = .unknown := by
  obtain ⟨-, hcut⟩ := cutInto_of_tagsOf htags
  obtain ⟨i, line, below, hfrom⟩ := hcut.tagAt htag
  have hinside := infix_of_mem_lines (List.mem_of_getElem? hfrom.stands)
  by_contra hknown
  exact hfrom.opens.marked hknown (h.shorter hinside)

/-- Tags that are unknown declare nothing. -/
theorem blockOf_of_unknown {tags : List Tag} (h : ∀ tag ∈ tags, tag.kind = .unknown) :
    blockOf tags = .ok .empty := by
  have hnone : tags.dropWhile (fun tag => !tag.kind.opensBlock) = [] := by
    refine List.dropWhile_eq_nil_iff.mpr fun tag htag => ?_
    rw [h tag htag]
    rfl
  rw [blockOf, hnone]

end Unmarked

/-! ### All comments of a file -/

/-- The text of a comment and its place, whether it can hold an annotation or not. -/
def OpenRegion.region (r : OpenRegion) : Region :=
  ⟨r.position, String.ofList (joinLines r.lines.reverse)⟩

/-- Whether the mark occurs in a region. -/
def Region.marked (region : Region) : Bool := occursIn "@api".toList region.text.toList

/-- All comments of a file, those too that cannot hold an annotation. -/
def allRegionsOf (style : CommentStyle) (content : String) : List Region :=
  (commentsOf style content).map OpenRegion.region

theorem Region.unmarked {region : Region} (h : region.marked = false) :
    Unmarked region.text.toList := fun hmark => by
  have hoccurs : region.marked = true := occursIn_iff.mpr hmark
  exact Bool.false_ne_true (h.symm.trans hoccurs)

theorem OpenRegion.marked_region (r : OpenRegion) :
    r.region.marked = occursIn "@api".toList (joinLines r.lines.reverse) :=
  congrArg (occursIn "@api".toList) String.toList_ofList

/-- A comment is a region when the mark occurs in it. -/
theorem OpenRegion.close_eq (r : OpenRegion) : r.close = [r.region].filter Region.marked := by
  rw [OpenRegion.close, ← r.marked_region]
  by_cases hmarked : r.region.marked = true
  · rw [if_pos hmarked, List.filter_cons_of_pos hmarked]
    rfl
  · rw [if_neg hmarked, List.filter_cons_of_neg hmarked]
    rfl

/-- The regions of a file are those of its comments in which the mark occurs. -/
theorem regionsOf_eq_filter (style : CommentStyle) (content : String) :
    regionsOf style content = (allRegionsOf style content).filter Region.marked := by
  have hcomments : regionsOf style content = (commentsOf style content).flatMap OpenRegion.close :=
    regionsOf_eq style content
  rw [hcomments, allRegionsOf]
  induction commentsOf style content with
  | nil => rfl
  | cons r rest ih =>
      rw [List.flatMap_cons, ih, OpenRegion.close_eq, List.map_cons, ← List.filter_append,
        List.singleton_append]

/-- A comment without the mark adds nothing to the findings of its file. -/
theorem addRegion_of_unmarked (path : String) (found : FileFindings) {region : Region}
    (h : region.marked = false) : addRegion path found region = .ok found := by
  have hunmarked := Region.unmarked h
  obtain ⟨tags, htags⟩ := exists_tags_of_unmarked hunmarked region.position
  have hempty : blockOfRegion region = .ok .empty := by
    rw [blockOfRegion, htags]
    exact blockOf_of_unknown fun tag htag => kind_of_unmarked hunmarked htags htag
  rw [addRegion, hempty]
  rfl

/-- **Comments without `@api` say nothing.**  A text in which it does not occur is cut into tags
without a fault, wherever it stands, and these declare nothing.  So a file declares, or fails with,
what all of its comments do, although those without `@api` are left out of its regions. -/
theorem readSource_allRegions :
    (∀ text : String, Unmarked text.toList → ∀ origin,
      ∃ tags, tagsOf text origin = .ok tags ∧ blockOf tags = .ok .empty) ∧
    ∀ path style content,
      regionsOf style content = (allRegionsOf style content).filter Region.marked ∧
      readSource path style content = findingsOf path (allRegionsOf style content) := by
  refine ⟨?_, fun path style content => ⟨regionsOf_eq_filter style content, ?_⟩⟩
  · intro text h origin
    obtain ⟨tags, htags⟩ := exists_tags_of_unmarked h origin
    exact ⟨tags, htags, blockOf_of_unknown fun tag htag => kind_of_unmarked h htags htag⟩
  · rw [readSource, regionsOf_eq_filter, findingsOf_eq, findingsOf_eq]
    refine foldlM_filter_idle (fun found region hregion => ?_) _ _
    exact addRegion_of_unmarked path found hregion

/-- A file with a comment that has an endpoint, and comments with words that come close to one. -/
def notedFile : String :=
  "/* @Api GET /pets */\n// @ap\n// i @note pets\npets();\n// @api GET /pets all"

theorem readSource_notedFile :
    Unmarked "@ap\n@note pets".toList ∧
    (∃ tags, tagsOf "@ap\n@note pets" ⟨2, 4⟩ = .ok tags ∧ blockOf tags = .ok .empty) ∧
    (allRegionsOf .slash notedFile).map (·.position) = [⟨1, 4⟩, ⟨2, 4⟩, ⟨5, 4⟩] ∧
    (regionsOf .slash notedFile).map (·.position) = [⟨5, 4⟩] ∧
    readSource "pets" .slash notedFile = findingsOf "pets" (allRegionsOf .slash notedFile) := by
  obtain ⟨htexts, hfiles⟩ := readSource_allRegions
  have hunmarked : Unmarked "@ap\n@note pets".toList := by decide +kernel
  refine ⟨hunmarked, htexts _ hunmarked _, ?_, ?_, (hfiles "pets" .slash notedFile).2⟩
  · decide +kernel
  · decide +kernel

end Annotation

end ApiNotes
