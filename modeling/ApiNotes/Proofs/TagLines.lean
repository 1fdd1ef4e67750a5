/-
An annotation is cut at the lines that open tags.

What a line is to the annotation depends on its first run of characters alone, so the cut can be
said without the loop that makes it: which lines open tags, what each tag takes along, and at
which line the cutting fails.  `CutInto` and `FailsAt` say it of all lines of a text, and each
has one outcome at most.  The loop keeps both for the lines that it has left, and these stay a
tail of the whole text, so that places need no shifting.
-/
import ApiNotes.Proofs.CommentStyles

namespace ApiNotes.Annotation

open Text

/-! ### Single lines -/

/-- The first run of characters of a line. -/
def lineRun (line : List Char) : List Char := firstRun (trimStart line)

/-- The line behind its first run and the blanks there. -/
def behindRun (line : List Char) : List Char :=
  trimStart ((trimStart line).drop (lineRun line).length)

/-- A line opens a tag: its first run is `@` and the name, which has ASCII letters only. -/
structure Opens (line name : List Char) : Prop where
  run : lineRun line = '@' :: name
  ne_nil : name ≠ []
  letters : ∀ c ∈ name, c.isAlpha = true

/-- A line opens some tag. -/
def IsOpener (line : List Char) : Prop := ∃ name, Opens line name

/-- A line starts like one of our tags and opens none. -/
structure Misnamed (line : List Char) : Prop where
  ours : "@api".toList <+: lineRun line
  unnamed : ¬IsOpener line

/-- The first run of the line with the given index stands at a position.  Only the first line
starts at the column of the text. -/
structure StartsAt (origin : Position) (i : Nat) (line : List Char) (position : Position) :
    Prop where
  row : position.line = origin.line + i
  first : i = 0 → position.column = origin.column + (line.takeWhile isBlank).length
  later : i ≠ 0 → position.column = 1 + (line.takeWhile isBlank).length

theorem eq_of_tagName? {run name : List Char} (h : tagName? run = some name) :
    run = '@' :: name := by
  unfold tagName? at h
  split at h
  next found =>
    split at h
    · rw [Option.some.inj h]
    · cases h
  next => cases h

theorem opens_iff {line name : List Char} :
    Opens line name ↔ tagName? (lineRun line) = some name := by
  constructor
  · rintro ⟨hrun, hne, hletters⟩
    have hall : name.all Char.isAlpha = true := List.all_eq_true.mpr hletters
    rw [hrun, tagName?, if_pos]
    simp [hne, hall]
  · intro h
    have hrun := eq_of_tagName? h
    rw [hrun, tagName?, Option.ite_none_right_eq_some] at h
    obtain ⟨hname, -⟩ := h
    rw [Bool.and_eq_true, Bool.not_eq_true', List.isEmpty_eq_false_iff] at hname
    exact ⟨hrun, hname.1, List.all_eq_true.mp hname.2⟩

theorem not_isOpener_iff {line : List Char} : ¬IsOpener line ↔ tagName? (lineRun line) = none := by
  simp only [IsOpener, opens_iff, not_exists]
  exact Option.eq_none_iff_forall_ne_some.symm

theorem Opens.unique {line name name' : List Char} (h : Opens line name) (h' : Opens line name') :
    name = name' := by
  have hrun := h.run.symm.trans h'.run
  exact (List.cons.inj hrun).2

theorem opens_of_lineKind {line name first : List Char} (h : lineKind line = .opener name first) :
    Opens line name ∧ first = behindRun line := by
  simp only [lineKind] at h
  split at h
  next found hname =>
    rw [LineKind.opener.injEq] at h
    obtain ⟨rfl, rfl⟩ := h
    exact ⟨opens_iff.mpr hname, rfl⟩
  next =>
    split at h
    · cases h
    · cases h

theorem misnamed_of_lineKind {line : List Char} (h : lineKind line = .malformed) :
    Misnamed line := by
  simp only [lineKind] at h
  split at h
  next => cases h
  next hname =>
    split at h
    next hours => exact ⟨List.isPrefixOf_iff_prefix.mp hours, not_isOpener_iff.mpr hname⟩
    next => cases h

theorem prose_of_lineKind {line : List Char} (h : lineKind line = .prose) :
    ¬IsOpener line ∧ ¬Misnamed line := by
  simp only [lineKind] at h
  split at h
  next => cases h
  next hname =>
    split at h
    next => cases h
    next hours =>
      refine ⟨not_isOpener_iff.mpr hname, ?_⟩
      intro hmisnamed
      exact hours (List.isPrefixOf_iff_prefix.mpr hmisnamed.ours)

theorem startsAt_linePosition (origin : Position) (i : Nat) (line : List Char) :
    StartsAt origin i line (linePosition origin i line) where
  row := rfl
  first := by
    intro hi
    simp only [linePosition, if_pos hi]
  later := by
    intro hi
    simp only [linePosition, if_neg hi]

theorem StartsAt.unique {origin : Position} {i : Nat} {line : List Char} {p p' : Position}
    (h : StartsAt origin i line p) (h' : StartsAt origin i line p') : p = p' := by
  have hline : p.line = p'.line := h.row.trans h'.row.symm
  have hcolumn : p.column = p'.column := by
    by_cases hi : i = 0
    · exact (h.first hi).trans (h'.first hi).symm
    · exact (h.later hi).trans (h'.later hi).symm
  cases p
  cases p'
  rw [Position.mk.injEq]
  exact ⟨hline, hcolumn⟩

/-! ### Lines that belong together -/

/-- The lines up to the next opener, or all of them. -/
structure UpToOpener (below rest : List (List Char)) : Prop where
  leads : below <+: rest
  prose : ∀ line ∈ below, ¬IsOpener line
  stops : ∀ next, rest[below.length]? = some next → IsOpener next

/-- A tag is the one that the line with the given index opens: it has the name and the place of
the line's first run, and its body is all behind that, up to the next opener. -/
structure CutFrom (origin : Position) (lines : List (List Char)) (i : Nat) (tag : Tag)
    (line : List Char) (below : List (List Char)) : Prop where
  stands : lines[i]? = some line
  opens : Opens line tag.name.toList
  starts : StartsAt origin i line tag.position
  takes : UpToOpener below (lines.drop (i + 1))
  body : tag.body = String.ofList (trimEnd (behindRun line ++ below.flatMap ('\n' :: ·)))

/-- The tag that the line with the given index opens. -/
def TagAt (origin : Position) (lines : List (List Char)) (i : Nat) (tag : Tag) : Prop :=
  ∃ line below, CutFrom origin lines i tag line below

/-- The indices, from the given one on, of the lines that open tags, in order. -/
structure Openers (start : Nat) (lines : List (List Char)) (opened : List Nat) : Prop where
  sorted : opened.Pairwise (· < ·)
  mem_iff : ∀ i, i ∈ opened ↔ start ≤ i ∧ ∃ line, lines[i]? = some line ∧ IsOpener line

/-- The tags are those of the lines that open tags, one by one and in order. -/
def CutInto (origin : Position) (lines : List (List Char)) (tags : List Tag) : Prop :=
  ∃ opened, Openers 0 lines opened ∧ List.Forall₂ (TagAt origin lines) opened tags

/-- The fault is that of the first misnamed line. -/
def FailsAt (origin : Position) (lines : List (List Char)) (fault : Fault) : Prop :=
  ∃ i line position, lines[i]? = some line ∧ Misnamed line ∧
    (∀ j < i, ∀ above, lines[j]? = some above → ¬Misnamed above) ∧
    StartsAt origin i line position ∧ fault = (Fault.of .malformedTag "").located position

variable {origin : Position} {lines : List (List Char)}

theorem UpToOpener.unique {below below' rest : List (List Char)} (h : UpToOpener below rest)
    (h' : UpToOpener below' rest) : below = below' := by
  -- a shorter list would stop at a line that the longer one passes as prose
  have hle : ∀ {a b : List (List Char)}, UpToOpener a rest → UpToOpener b rest →
      b.length ≤ a.length := by
    intro a b ha hb
    by_contra hlt
    have hlt : a.length < b.length := by omega
    have hnext : rest[a.length]? = some b[a.length] :=
      List.prefix_iff_getElem?.mp hb.leads a.length hlt
    exact hb.prose _ (List.getElem_mem hlt) (ha.stops _ hnext)
  have hlength : below.length = below'.length := Nat.le_antisymm (hle h' h) (hle h h')
  exact (List.prefix_of_prefix_length_le h.leads h'.leads hlength.le).eq_of_length hlength

theorem TagAt.unique {i : Nat} {tag tag' : Tag} (h : TagAt origin lines i tag)
    (h' : TagAt origin lines i tag') : tag = tag' := by
  obtain ⟨line, below, h⟩ := h
  obtain ⟨line', below', h'⟩ := h'
  obtain rfl := Option.some.inj (h.stands.symm.trans h'.stands)
  obtain rfl := h.takes.unique h'.takes
  have hname : tag.name = tag'.name := String.toList_injective (h.opens.unique h'.opens)
  have hbody : tag.body = tag'.body := h.body.trans h'.body.symm
  have hposition : tag.position = tag'.position := h.starts.unique h'.starts
  cases tag
  cases tag'
  rw [Tag.mk.injEq]
  exact ⟨hname, hbody, hposition⟩

theorem Openers.unique {start : Nat} {opened opened' : List Nat} (h : Openers start lines opened)
    (h' : Openers start lines opened') : opened = opened' := by
  apply List.Perm.eq_of_pairwise _ h.sorted h'.sorted
  · rw [List.perm_ext_iff_of_nodup (h.sorted.imp Nat.ne_of_lt) (h'.sorted.imp Nat.ne_of_lt)]
    intro i
    rw [h.mem_iff, h'.mem_iff]
  · intro i j _ _ hij hji
    omega

theorem CutInto.unique {tags tags' : List Tag} (h : CutInto origin lines tags)
    (h' : CutInto origin lines tags') : tags = tags' := by
  obtain ⟨opened, hopened, htags⟩ := h
  obtain ⟨opened', hopened', htags'⟩ := h'
  obtain rfl := hopened.unique hopened'
  have hunique : Relator.RightUnique (TagAt origin lines) := by
    intro i tag tag' htag htag'
    exact htag.unique htag'
  exact List.right_unique_forall₂' hunique htags htags'

/-- Each of the tags is that of some line. -/
theorem CutInto.tagAt {tags : List Tag} (h : CutInto origin lines tags) {tag : Tag}
    (htag : tag ∈ tags) : ∃ i, TagAt origin lines i tag := by
  obtain ⟨opened, -, htags⟩ := h
  induction htags with
  | nil => cases htag
  | cons hfirst _ ih =>
      rcases List.mem_cons.mp htag with rfl | htag
      · exact ⟨_, hfirst⟩
      · exact ih htag

theorem FailsAt.unique {fault fault' : Fault} (h : FailsAt origin lines fault)
    (h' : FailsAt origin lines fault') : fault = fault' := by
  obtain ⟨i, line, position, hline, hmisnamed, hfirst, hstarts, rfl⟩ := h
  obtain ⟨i', line', position', hline', hmisnamed', hfirst', hstarts', rfl⟩ := h'
  have hle : ¬i' < i := fun hlt => hfirst i' hlt line' hline' hmisnamed'
  have hge : ¬i < i' := fun hlt => hfirst' i hlt line hline hmisnamed
  obtain rfl : i = i' := by omega
  obtain rfl := Option.some.inj (hline.symm.trans hline')
  rw [hstarts.unique hstarts']

/-! ### The cut -/

theorem upToOpener_nil : UpToOpener [] [] := ⟨List.prefix_rfl, by simp, by simp⟩

theorem upToOpener_opener {line : List Char} (h : IsOpener line) (rest : List (List Char)) :
    UpToOpener [] (line :: rest) := by
  refine ⟨List.nil_prefix, by simp, ?_⟩
  intro next hnext
  obtain rfl : line = next := by simpa using hnext
  exact h

theorem UpToOpener.cons {line : List Char} (hline : ¬IsOpener line)
    {below rest : List (List Char)} (h : UpToOpener below rest) :
    UpToOpener (line :: below) (line :: rest) := by
  refine ⟨List.cons_prefix_cons.mpr ⟨rfl, h.leads⟩, ?_, ?_⟩
  · rw [List.forall_mem_cons]
    exact ⟨hline, h.prose⟩
  · intro next hnext
    exact h.stops next (by simpa using hnext)

theorem openers_nil {start : Nat} (h : lines.length ≤ start) : Openers start lines [] := by
  refine ⟨List.Pairwise.nil, ?_⟩
  intro i
  constructor
  · intro hi
    cases hi
  · rintro ⟨hstart, line, hline, -⟩
    obtain ⟨hi, -⟩ := List.getElem?_eq_some_iff.mp hline
    omega

theorem Openers.skip {start : Nat} {line : List Char} (hline : lines[start]? = some line)
    (hprose : ¬IsOpener line) {opened : List Nat} (h : Openers (start + 1) lines opened) :
    Openers start lines opened := by
  refine ⟨h.sorted, ?_⟩
  intro i
  rw [h.mem_iff]
  constructor
  · rintro ⟨hstart, hopener⟩
    exact ⟨by omega, hopener⟩
  · rintro ⟨hstart, found, hfound, hopener⟩
    have hne : i ≠ start := by
      rintro rfl
      obtain rfl := Option.some.inj (hline.symm.trans hfound)
      exact hprose hopener
    exact ⟨by omega, found, hfound, hopener⟩

theorem Openers.cons {start : Nat} {line : List Char} (hline : lines[start]? = some line)
    (hopener : IsOpener line) {opened : List Nat} (h : Openers (start + 1) lines opened) :
    Openers start lines (start :: opened) := by
  refine ⟨List.pairwise_cons.mpr ⟨?_, h.sorted⟩, ?_⟩
  · intro i hi
    have hstart := ((h.mem_iff i).mp hi).1
    omega
  · intro i
    rw [List.mem_cons, h.mem_iff]
    constructor
    · rintro (rfl | ⟨hstart, hfound⟩)
      · exact ⟨le_rfl, line, hline, hopener⟩
      · exact ⟨by omega, hfound⟩
    · rintro ⟨hstart, hfound⟩
      by_cases hi : i = start
      · exact .inl hi
      · exact .inr ⟨by omega, hfound⟩

/-- The lines that are left, once cut: none is misnamed, those before the first opener are handed
up, and each opener has its tag. -/
theorem cutLines_cutInto {rest prose : List (List Char)} {tags : List Tag} :
    ∀ {passed}, lines = passed ++ rest → cutLines origin passed.length rest = .ok (prose, tags) →
      (∀ line ∈ rest, ¬Misnamed line) ∧ UpToOpener prose rest ∧
        ∃ opened, Openers passed.length lines opened ∧
          List.Forall₂ (TagAt origin lines) opened tags := by
  induction rest generalizing prose tags with
  | nil =>
      intro passed hlines h
      rw [cutLines, Except.ok.injEq, Prod.mk.injEq] at h
      obtain ⟨rfl, rfl⟩ := h
      have hlength : lines.length ≤ passed.length := by simp [hlines]
      exact ⟨by simp, upToOpener_nil, [], openers_nil hlength, .nil⟩
  | cons line rest ih =>
      intro passed hlines h
      have hline : lines[passed.length]? = some line := by simp [hlines]
      have hpassed : lines = (passed ++ [line]) ++ rest := by simp [hlines]
      have hlength : (passed ++ [line]).length = passed.length + 1 := by simp
      rw [cutLines] at h
      cases hkind : lineKind line with
      | malformed =>
          rw [hkind] at h
          cases h
      | prose =>
          obtain ⟨hprose, hnamed⟩ := prose_of_lineKind hkind
          rw [hkind] at h
          obtain ⟨⟨prose', tags'⟩, hcut, h⟩ := bind_eq_ok.mp h
          simp only [Except.ok.injEq, Prod.mk.injEq] at h
          obtain ⟨rfl, rfl⟩ := h
          rw [← hlength] at hcut
          obtain ⟨hrest, hbelow, opened, hopened, htags⟩ := ih hpassed hcut
          rw [hlength] at hopened
          refine ⟨List.forall_mem_cons.mpr ⟨hnamed, hrest⟩, hbelow.cons hprose, opened, ?_, htags⟩
          exact hopened.skip hline hprose
      | opener name first =>
          obtain ⟨hopens, rfl⟩ := opens_of_lineKind hkind
          have hopener : IsOpener line := ⟨name, hopens⟩
          rw [hkind] at h
          obtain ⟨⟨prose', tags'⟩, hcut, h⟩ := bind_eq_ok.mp h
          simp only [Except.ok.injEq, Prod.mk.injEq] at h
          obtain ⟨rfl, rfl⟩ := h
          rw [← hlength] at hcut
          obtain ⟨hrest, hbelow, opened, hopened, htags⟩ := ih hpassed hcut
          rw [hlength] at hopened
          have hnamed : ¬Misnamed line := fun hmisnamed => hmisnamed.unnamed hopener
          refine ⟨List.forall_mem_cons.mpr ⟨hnamed, hrest⟩, upToOpener_opener hopener rest,
            passed.length :: opened, hopened.cons hline hopener, .cons ?_ htags⟩
          refine ⟨line, prose', hline, ?_, startsAt_linePosition _ _ _, ?_, ?_⟩
          · rw [String.toList_ofList]
            exact hopens
          · have hdrop : lines.drop (passed.length + 1) = rest := by
              rw [hpassed, ← hlength, List.drop_left]
            rw [hdrop]
            exact hbelow
          · rw [joinLines_cons]

/-- What fails is the first misnamed line among those that are left. -/
theorem cutLines_failsAt {rest : List (List Char)} {fault : Fault} :
    ∀ {passed}, lines = passed ++ rest → (∀ line ∈ passed, ¬Misnamed line) →
      cutLines origin passed.length rest = .error fault → FailsAt origin lines fault := by
  induction rest with
  | nil =>
      intro passed hlines hnamed h
      cases h
  | cons line rest ih =>
      intro passed hlines hnamed h
      -- behind a line that is not misnamed, the fault comes from the lines below
      have hbelow : ¬Misnamed line → cutLines origin (passed.length + 1) rest = .error fault →
          FailsAt origin lines fault := by
        intro hline hcut
        have hlength : (passed ++ [line]).length = passed.length + 1 := by simp
        rw [← hlength] at hcut
        refine ih (by simp [hlines]) ?_ hcut
        rw [List.forall_mem_append, List.forall_mem_singleton]
        exact ⟨hnamed, hline⟩
      rw [cutLines] at h
      cases hkind : lineKind line with
      | malformed =>
          rw [hkind] at h
          have hfirst : ∀ j < passed.length, ∀ above, lines[j]? = some above → ¬Misnamed above := by
            intro j hj above habove
            rw [hlines, List.getElem?_append_left hj] at habove
            exact hnamed above (List.mem_of_getElem? habove)
          exact ⟨passed.length, line, _, by simp [hlines], misnamed_of_lineKind hkind, hfirst,
            startsAt_linePosition _ _ _, (Except.error.inj h).symm⟩
      | prose =>
          rw [hkind] at h
          rcases bind_eq_error.mp h with h | ⟨_, _, h⟩
          · exact hbelow (prose_of_lineKind hkind).2 h
          · cases h
      | opener name first =>
          rw [hkind] at h
          rcases bind_eq_error.mp h with h | ⟨_, _, h⟩
          · have hopens := (opens_of_lineKind hkind).1
            exact hbelow (fun hmisnamed => hmisnamed.unnamed ⟨name, hopens⟩) h
          · cases h

theorem cutInto_of_tagsOf {text : String} {tags : List Tag} (h : tagsOf text origin = .ok tags) :
    (∀ line ∈ Text.lines text.toList, ¬Misnamed line) ∧
      CutInto origin (Text.lines text.toList) tags := by
  rw [tagsOf_eq_map, map_eq_ok] at h
  obtain ⟨⟨prose, _⟩, hcut, rfl⟩ := h
  obtain ⟨hnamed, -, hopened⟩ := cutLines_cutInto (List.nil_append _).symm hcut
  exact ⟨hnamed, hopened⟩

theorem failsAt_of_tagsOf {text : String} {fault : Fault} (h : tagsOf text origin = .error fault) :
    FailsAt origin (Text.lines text.toList) fault := by
  rw [tagsOf_eq_map, map_eq_error] at h
  exact cutLines_failsAt (List.nil_append _).symm (by simp) h

/-- **A text is cut exactly at the lines that open tags.**  It fails exactly when a line is
misnamed, at the first such line; otherwise its tags are those of its openers, one by one and in
order, and each takes along all lines up to the next opener. -/
theorem tagsOf_cut (text : String) (origin : Position) :
    (∀ fault, tagsOf text origin = .error fault ↔ FailsAt origin (Text.lines text.toList) fault) ∧
    ∀ tags, tagsOf text origin = .ok tags ↔
      (∀ line ∈ Text.lines text.toList, ¬Misnamed line) ∧
        CutInto origin (Text.lines text.toList) tags := by
  refine ⟨fun fault => ⟨failsAt_of_tagsOf, ?_⟩, fun tags => ⟨cutInto_of_tagsOf, ?_⟩⟩
  · intro h
    cases hcut : tagsOf text origin with
    | error found => rw [(failsAt_of_tagsOf hcut).unique h]
    | ok tags =>
        obtain ⟨i, line, -, hline, hmisnamed, -⟩ := h
        have hnamed := (cutInto_of_tagsOf hcut).1
        exact absurd hmisnamed (hnamed line (List.mem_of_getElem? hline))
  · rintro ⟨hnamed, h⟩
    cases hcut : tagsOf text origin with
    | error fault =>
        obtain ⟨i, line, -, hline, hmisnamed, -⟩ := failsAt_of_tagsOf hcut
        exact absurd hmisnamed (hnamed line (List.mem_of_getElem? hline))
    | ok found => rw [(cutInto_of_tagsOf hcut).2.unique h]

example : tagsOf "pets\n\t@api  GET /pets\n@ api me@api.org\n  @v2\n\n@see it" ⟨7, 4⟩ =
    .ok [⟨"api", "GET /pets\n@ api me@api.org\n  @v2", ⟨8, 2⟩⟩, ⟨"see", "it", ⟨12, 1⟩⟩] := by
  decide +kernel

end ApiNotes.Annotation
