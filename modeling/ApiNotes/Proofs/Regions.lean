/-
Comments stand in the lines of their file.

The comments of a file are laid in it one below the other, each line of them in its own line
of the file, behind a marker that was taken off: `step_laid` for one line, `comments_laid`
for a run.  A comment that a line has gone into is not lost, whatever lines come after it,
and this is `comments_hold`.  The regions of a file are those of its comments that can hold
an annotation, which takes nothing from either.
-/
import ApiNotes.Proofs.CommentSteps

namespace ApiNotes

namespace Annotation

open Text

/-! ### Where comments stand -/

/-- The line of a file with a number; lines are counted from one. -/
def lineAt? (source : List (List Char)) : Nat → Option (List Char)
  | 0 => none
  | n + 1 => source[n]?

/-- A text stands in a line of the file, behind a comment marker. -/
structure Behind (source : List (List Char)) (n : Nat) (marker text : List Char) : Prop where
  /-- No marker has an `@` in it. -/
  clean : '@' ∉ marker
  line : ∃ line, lineAt? source n = some line ∧ marker ++ text <+: line

/-- A line of the file, up to a point. -/
def Leads (source : List (List Char)) (n : Nat) (line : List Char) : Prop :=
  ∃ whole, lineAt? source n = some whole ∧ line <+: whole

theorem Leads.shorter {source : List (List Char)} {n : Nat} {line before : List Char}
    (h : Leads source n line) (hbefore : before <+: line) : Leads source n before := by
  obtain ⟨whole, hwhole, hline⟩ := h
  exact ⟨whole, hwhole, hbefore.trans hline⟩

theorem Leads.behind {source : List (List Char)} {n : Nat} {line text before : List Char}
    (h : Leads source n line) (hstrips : Strips line text) (hbefore : before <+: text) :
    ∃ marker, Behind source n marker before ∧ columnOf line text = marker.length + 1 := by
  obtain ⟨whole, hwhole, hline⟩ := h
  obtain ⟨marker, hclean, rfl⟩ := hstrips
  refine ⟨marker, ⟨hclean, whole, hwhole, ?_⟩, columnOf_marked marker text⟩
  exact ((List.prefix_append_right_inj marker).mpr hbefore).trans hline

/-- The number of the first line behind a comment. -/
def OpenRegion.stop (r : OpenRegion) : Nat := r.position.line + r.lines.length

/-- Each line of a comment stands in its own line of the file, the first one at the column that
the comment remembers. -/
structure OpenRegion.Stands (source : List (List Char)) (r : OpenRegion) : Prop where
  ne_nil : r.lines ≠ []
  behind : ∀ i text, r.lines.reverse[i]? = some text →
    ∃ marker, Behind source (r.position.line + i) marker text ∧
      (i = 0 → r.position.column = marker.length + 1)

namespace OpenRegion

variable {source : List (List Char)}

/-- A comment keeps its lines from the last one up. -/
theorem reverse_push (r : OpenRegion) (text : List Char) :
    (r.push text).lines.reverse = r.lines.reverse ++ [text] := List.reverse_cons

theorem stands_single {n column : Nat} {marker text : List Char}
    (h : Behind source n marker text) (hcolumn : column = marker.length + 1) :
    Stands source ⟨⟨n, column⟩, [text]⟩ where
  ne_nil := List.cons_ne_nil text []
  behind := by
    intro i piece hpiece
    rw [List.reverse_singleton, List.getElem?_singleton] at hpiece
    by_cases hi : i = 0
    · rw [if_pos hi, Option.some.injEq] at hpiece
      subst hi hpiece
      exact ⟨marker, h, fun _ => hcolumn⟩
    · rw [if_neg hi] at hpiece
      exact absurd hpiece (by simp)

/-- A comment that a line follows on goes on to that line. -/
theorem Stands.push {r : OpenRegion} (h : r.Stands source) {n : Nat} (hstop : r.stop = n)
    {marker text : List Char} (htext : Behind source n marker text) :
    (r.push text).Stands source where
  ne_nil := List.cons_ne_nil text r.lines
  behind := by
    intro i piece hpiece
    rw [reverse_push, List.getElem?_append, List.length_reverse] at hpiece
    by_cases hi : i < r.lines.length
    · rw [if_pos hi] at hpiece
      exact h.behind i piece hpiece
    · rw [if_neg hi, List.getElem?_singleton] at hpiece
      by_cases hlast : i - r.lines.length = 0
      · rw [if_pos hlast, Option.some.injEq] at hpiece
        subst hpiece
        have hn : (r.push text).position.line + i = n := by
          rw [← hstop]
          show r.position.line + i = r.position.line + r.lines.length
          omega
        rw [hn]
        refine ⟨marker, htext, fun hzero => ?_⟩
        exact absurd (List.length_eq_zero_iff.mp (by omega)) h.ne_nil
      · rw [if_neg hlast] at hpiece
        exact absurd hpiece (by simp)

theorem stop_push (r : OpenRegion) (text : List Char) : (r.push text).stop = r.stop + 1 := by
  show r.position.line + (text :: r.lines).length = r.position.line + r.lines.length + 1
  rw [List.length_cons, Nat.add_assoc]

end OpenRegion

/-- The comment that is open stands in the file, down to the line before line `n`. -/
structure Scope.Stands (source : List (List Char)) (n : Nat) (scope : Scope) : Prop where
  stands : ∀ r ∈ scope.comments, r.Stands source
  stop : ∀ r ∈ scope.comments, r.stop = n

/-- The first line of the open comment, or line `n` when none is open. -/
def Scope.start (n : Nat) : Scope → Nat
  | .code => n
  | .run region | .block region => region.position.line

/-- Comments that stand in a file one below the other, from one line to another. -/
structure Laid (source : List (List Char)) (low high : Nat) (rs : List OpenRegion) : Prop where
  stands : ∀ r ∈ rs, r.Stands source
  low : ∀ r ∈ rs, low ≤ r.position.line
  high : ∀ r ∈ rs, r.stop ≤ high
  apart : rs.Pairwise fun a b => a.stop ≤ b.position.line

namespace Laid

variable {source : List (List Char)} {low mid high : Nat}

theorem nil : Laid source low high [] where
  stands := by simp
  low := by simp
  high := by simp
  apart := List.Pairwise.nil

theorem single {r : OpenRegion} (h : r.Stands source) (hlow : low ≤ r.position.line)
    (hhigh : r.stop ≤ high) : Laid source low high [r] where
  stands := by simpa using h
  low := by simpa using hlow
  high := by simpa using hhigh
  apart := List.pairwise_singleton ..

theorem append {xs ys : List OpenRegion} (hxs : Laid source low mid xs)
    (hys : Laid source mid high ys) (hlow : low ≤ mid) (hhigh : mid ≤ high) :
    Laid source low high (xs ++ ys) where
  stands := List.forall_mem_append.mpr ⟨hxs.stands, hys.stands⟩
  low := List.forall_mem_append.mpr ⟨hxs.low, fun r hr => hlow.trans (hys.low r hr)⟩
  high := List.forall_mem_append.mpr ⟨fun r hr => (hxs.high r hr).trans hhigh, hys.high⟩
  apart := by
    rw [List.pairwise_append]
    exact ⟨hxs.apart, hys.apart, fun a ha b hb => (hxs.high a ha).trans (hys.low b hb)⟩

end Laid

theorem Scope.start_le {source : List (List Char)} {n : Nat} {scope : Scope}
    (h : scope.Stands source n) : scope.start n ≤ n := by
  cases scope with
  | code => exact Nat.le_refl n
  | run region | block region =>
      have hstop := h.stop region (List.mem_singleton_self region)
      rw [OpenRegion.stop] at hstop
      show region.position.line ≤ n
      omega

theorem Scope.laid {source : List (List Char)} {n : Nat} {scope : Scope}
    (h : scope.Stands source n) : Laid source (scope.start n) n scope.comments := by
  cases scope with
  | code => exact Laid.nil
  | run region | block region =>
      have hmem : region ∈ [region] := List.mem_singleton_self region
      exact Laid.single (h.stands region hmem) (Nat.le_refl _) (h.stop region hmem).le

theorem strips_lineComment? {style : CommentStyle} {line text : List Char}
    (h : lineComment? style line = some text) : Strips line text := by
  cases style with
  | slash => exact strips_slashLine? h
  | hash => exact strips_hashLine? h

theorem strips_blockComment? {style : CommentStyle} {line text : List Char}
    (h : blockComment? style line = some text) : Strips line text := by
  cases style with
  | slash => exact strips_blockStart? h
  | hash => cases h

/-! ### One line, and a run of them -/

/-- What a line of the file does to the comments before it. -/
structure Advances (source : List (List Char)) (n : Nat) (scope : Scope)
    (out : List OpenRegion × Scope) : Prop where
  laid : Laid source (scope.start n) (out.2.start (n + 1)) out.1
  stands : out.2.Stands source (n + 1)
  start : scope.start n ≤ out.2.start (n + 1)

theorem Scope.stands_code (source : List (List Char)) (n : Nat) :
    Scope.code.Stands source n where
  stands := by simp [Scope.comments]
  stop := by simp [Scope.comments]

theorem Scope.stands_of_comments {source : List (List Char)} {n : Nat} {scope : Scope}
    {r : OpenRegion} (hcomments : scope.comments = [r]) (h : r.Stands source) (hstop : r.stop = n) :
    scope.Stands source n where
  stands := by simpa [hcomments] using h
  stop := by simpa [hcomments] using hstop

section Line

variable {source : List (List Char)} {n : Nat} {line text before : List Char}

/-- A comment that the line goes into, behind its marker. -/
theorem Leads.push (hline : Leads source n line) {scope : Scope} (h : scope.Stands source n)
    {region : OpenRegion} (hregion : scope.comments = [region]) (hstrips : Strips text before)
    (htext : text <+: line) :
    (region.push before).Stands source ∧ (region.push before).stop = n + 1 := by
  have hmem : region ∈ scope.comments := by simp [hregion]
  obtain ⟨marker, hbehind, -⟩ := (hline.shorter htext).behind hstrips (List.prefix_refl before)
  refine ⟨(h.stands region hmem).push (h.stop region hmem) hbehind, ?_⟩
  rw [OpenRegion.stop_push, h.stop region hmem]

/-- A comment that the line starts. -/
theorem Leads.single (hline : Leads source n line) (hstrips : Strips line text)
    (hbefore : before <+: text) :
    OpenRegion.Stands source ⟨⟨n, columnOf line text⟩, [before]⟩ := by
  obtain ⟨marker, hbehind, hcolumn⟩ := hline.behind hstrips hbefore
  exact OpenRegion.stands_single hbehind hcolumn

end Line

/-- A line takes the comments on to the next line. -/
theorem step_laid {source : List (List Char)} {style : CommentStyle} {n : Nat} {line : List Char}
    {scope : Scope} (hline : Leads source n line) (h : scope.Stands source n) :
    Advances source n scope (step style n line scope) := by
  have hstep := stepped style n line scope
  generalize step style n line scope = out at hstep ⊢
  have hstart : scope.start n ≤ n := Scope.start_le h
  cases hstep with
  | closes region before after hcut =>
      obtain ⟨hstands, hstop⟩ := hline.push h rfl (strips_stripStar before)
        (before_prefix_of_cutAt hcut)
      refine ⟨Laid.single hstands (Nat.le_refl _) hstop.le, Scope.stands_code source _, ?_⟩
      exact Nat.le_succ_of_le hstart
  | continues region hcut =>
      obtain ⟨hstands, hstop⟩ := hline.push h rfl (strips_stripStar line) (List.prefix_refl line)
      exact ⟨Laid.nil, Scope.stands_of_comments rfl hstands hstop, Nat.le_refl _⟩
  | starts text htext =>
      have hstands := hline.single (strips_lineComment? htext) (List.prefix_refl text)
      exact ⟨Laid.nil, Scope.stands_of_comments rfl hstands rfl, Nat.le_refl _⟩
  | follows region text htext =>
      obtain ⟨hstands, hstop⟩ := hline.push h rfl (strips_lineComment? htext)
        (List.prefix_refl line)
      exact ⟨Laid.nil, Scope.stands_of_comments rfl hstands hstop, Nat.le_refl _⟩
  | leaves _ _ _ _ =>
      refine ⟨?_, Scope.stands_code source _, Nat.le_succ_of_le hstart⟩
      have hlaid := Scope.laid h
      exact { hlaid with high := fun r hr => Nat.le_succ_of_le (hlaid.high r hr) }
  | encloses _ _ _ text htext before after hcut =>
      have hstands := hline.single (strips_blockComment? htext) (before_prefix_of_cutAt hcut)
      refine ⟨?_, Scope.stands_code source _, Nat.le_succ_of_le hstart⟩
      exact (Scope.laid h).append (Laid.single hstands (Nat.le_refl n) (Nat.le_refl _)) hstart
        (Nat.le_succ n)
  | opens _ _ _ text htext hcut =>
      have hstands := hline.single (strips_blockComment? htext) (List.prefix_refl text)
      exact ⟨Scope.laid h, Scope.stands_of_comments rfl hstands rfl, hstart⟩

/-- The lines of a list are, up to a point, those of the file from line `n` on. -/
def LeadFrom (source : List (List Char)) (n : Nat) (lines : List (List Char)) : Prop :=
  ∀ i line, lines[i]? = some line → Leads source (n + i) line

theorem LeadFrom.tail {source : List (List Char)} {n : Nat} {line : List Char}
    {rest : List (List Char)} (h : LeadFrom source n (line :: rest)) :
    LeadFrom source (n + 1) rest := by
  intro i l hl
  rw [Nat.add_right_comm, Nat.add_assoc]
  exact h (i + 1) l hl

/-- **The comments of a file are laid in it one below the other.** -/
theorem comments_laid {source : List (List Char)} {style : CommentStyle}
    {lines : List (List Char)} :
    ∀ {n scope}, LeadFrom source n lines → scope.Stands source n →
      Laid source (scope.start n) (n + lines.length) (commentsFrom style n scope lines) := by
  induction lines with
  | nil =>
      intro n scope _ h
      exact Scope.laid h
  | cons line rest ih =>
      intro n scope hlines h
      have hstep : Advances source n scope (step style n line scope) :=
        step_laid (hlines 0 line rfl) h
      have hrest := ih hlines.tail hstep.stands
      rw [show n + (line :: rest).length = n + 1 + rest.length by rw [List.length_cons]; omega]
      refine hstep.laid.append hrest hstep.start ?_
      exact (Scope.start_le hstep.stands).trans (Nat.le_add_right _ _)

/-! ### No line is lost -/

/-- Line `n` of the file went into the comment, as `text`. -/
structure OpenRegion.Holds (r : OpenRegion) (n : Nat) (text : List Char) : Prop where
  low : r.position.line ≤ n
  piece : r.lines.reverse[n - r.position.line]? = some text

theorem OpenRegion.Holds.push {r : OpenRegion} {n : Nat} {text : List Char} (h : r.Holds n text)
    (more : List Char) : (r.push more).Holds n text where
  low := h.low
  piece := by
    have hlt : n - r.position.line < r.lines.reverse.length :=
      (List.getElem?_eq_some_iff.mp h.piece).1
    rw [reverse_push]
    show (r.lines.reverse ++ [more])[n - r.position.line]? = some text
    rw [List.getElem?_append_left hlt]
    exact h.piece

theorem OpenRegion.holds_single (n column : Nat) (text : List Char) :
    Holds ⟨⟨n, column⟩, [text]⟩ n text where
  low := Nat.le_refl n
  piece := by simp

/-- The line that a comment goes on to is held by it. -/
theorem OpenRegion.holds_push {r : OpenRegion} {n : Nat} (hstop : r.stop = n) (text : List Char) :
    (r.push text).Holds n text where
  low := by
    rw [← hstop]
    exact Nat.le_add_right _ _
  piece := by
    have hindex : n - r.position.line = r.lines.reverse.length := by
      rw [← hstop, List.length_reverse]
      exact Nat.add_sub_cancel_left ..
    rw [reverse_push]
    show (r.lines.reverse ++ [text])[n - r.position.line]? = some text
    rw [hindex, List.getElem?_concat_length]

/-- A line that the open comment holds is still held behind the next line. -/
theorem step_hold {style : CommentStyle} {n m : Nat} {line text : List Char} {scope : Scope}
    (h : ∃ r ∈ scope.comments, r.Holds m text) :
    ∃ r ∈ (step style n line scope).1 ++ (step style n line scope).2.comments, r.Holds m text := by
  have hstep := stepped style n line scope
  generalize step style n line scope = out at hstep ⊢
  obtain ⟨r, hr, hholds⟩ := h
  cases hstep with
  | closes region before after hcut =>
      rw [Scope.comments, List.mem_singleton] at hr
      subst hr
      exact ⟨_, List.mem_append_left _ (List.mem_singleton_self _), hholds.push _⟩
  | continues region hcut =>
      rw [Scope.comments, List.mem_singleton] at hr
      subst hr
      exact ⟨_, List.mem_append_right _ (List.mem_singleton_self _), hholds.push _⟩
  | starts text htext => cases hr
  | follows region text htext =>
      rw [Scope.comments, List.mem_singleton] at hr
      subst hr
      exact ⟨_, List.mem_append_right _ (List.mem_singleton_self _), hholds.push _⟩
  | leaves _ _ _ _ => exact ⟨r, List.mem_append_left _ hr, hholds⟩
  | encloses _ _ _ text htext before after hcut =>
      exact ⟨r, List.mem_append_left _ (List.mem_append_left _ hr), hholds⟩
  | opens _ _ _ text htext hcut => exact ⟨r, List.mem_append_left _ hr, hholds⟩

/-- Nor does any later line lose it. -/
theorem comments_hold {style : CommentStyle} {m : Nat} {text : List Char}
    {lines : List (List Char)} :
    ∀ {n scope}, (∃ r ∈ scope.comments, r.Holds m text) →
      ∃ r ∈ commentsFrom style n scope lines, r.Holds m text := by
  induction lines with
  | nil => exact fun h => h
  | cons line rest ih =>
      intro n scope h
      have hstep : ∃ r ∈ (step style n line scope).1 ++ (step style n line scope).2.comments,
          r.Holds m text := step_hold h
      obtain ⟨r, hr, hholds⟩ := hstep
      rcases List.mem_append.mp hr with hr | hr
      · exact ⟨r, List.mem_append_left _ hr, hholds⟩
      · obtain ⟨r', hr', hholds'⟩ := ih ⟨r, hr, hholds⟩
        exact ⟨r', List.mem_append_right _ hr', hholds'⟩

/-- Whether a block comment is open behind a line, when one was open before it or none was. -/
def blockOpen (style : CommentStyle) (before : Bool) (line : List Char) : Bool :=
  if before then !occursIn ['*', '/'] line
  else (lineComment? style line).isNone &&
    (blockComment? style line).any fun text => !occursIn ['*', '/'] text

/-- Whether a block comment is open behind these lines at the start of a file. -/
def insideBlock (style : CommentStyle) (lines : List (List Char)) : Bool :=
  lines.foldl (blockOpen style) false

theorem step_isBlock (style : CommentStyle) (n : Nat) (line : List Char) (scope : Scope) :
    (step style n line scope).2.isBlock = blockOpen style scope.isBlock line := by
  have hstep := stepped style n line scope
  generalize step style n line scope = out at hstep ⊢
  cases hstep with
  | closes region before after hcut => simp [blockOpen, Scope.isBlock, occursIn, hcut]
  | continues region hcut => simp [blockOpen, Scope.isBlock, occursIn, hcut]
  | starts text htext => simp [blockOpen, Scope.isBlock, htext]
  | follows region text htext => simp [blockOpen, Scope.isBlock, htext]
  | leaves _ hscope hline hblock =>
      rw [hscope]
      simp [blockOpen, hline, hblock, Scope.isBlock]
  | encloses _ hscope hline text htext before after hcut =>
      rw [hscope]
      simp [blockOpen, hline, htext, occursIn, hcut, Scope.isBlock]
  | opens _ hscope hline text htext hcut =>
      rw [hscope]
      simp [blockOpen, hline, htext, occursIn, hcut, Scope.isBlock]

/-- A line comment goes into the comment that is open behind it. -/
theorem step_comment {source : List (List Char)} {style : CommentStyle} {n : Nat}
    {line text : List Char} {scope : Scope} (h : scope.Stands source n)
    (hscope : scope.isBlock = false) (htext : lineComment? style line = some text) :
    ∃ r ∈ (step style n line scope).2.comments, r.Holds n text := by
  cases scope with
  | code =>
      have hstep : step style n line .code = ([], .run ⟨⟨n, columnOf line text⟩, [text]⟩) := by
        rw [step, htext]
        · rfl
        · exact Scope.ne_block_of_isBlock hscope
      rw [hstep]
      exact ⟨_, List.mem_singleton_self _, OpenRegion.holds_single n _ text⟩
  | run region =>
      have hstep : step style n line (.run region) = ([], .run (region.push text)) := by
        rw [step, htext]
        · rfl
        · exact Scope.ne_block_of_isBlock hscope
      rw [hstep]
      have hstop : region.stop = n := h.stop region (List.mem_singleton_self region)
      exact ⟨_, List.mem_singleton_self _, OpenRegion.holds_push hstop text⟩
  | block region => exact absurd hscope Bool.true_eq_false.mp

/-- **Every line comment goes into a comment of the file.** -/
theorem comments_cover {source : List (List Char)} {style : CommentStyle} {text : List Char}
    {lines : List (List Char)} :
    ∀ {n scope i line}, LeadFrom source n lines → scope.Stands source n →
      lines[i]? = some line → lineComment? style line = some text →
      (lines.take i).foldl (blockOpen style) scope.isBlock = false →
      ∃ r ∈ commentsFrom style n scope lines, r.Holds (n + i) text := by
  induction lines with
  | nil => intro n scope i line _ _ hline; cases hline
  | cons first rest ih =>
      intro n scope i line hlines h hline htext houtside
      have hstep : Advances source n scope (step style n first scope) :=
        step_laid (hlines 0 first rfl) h
      have hfound : ∃ r ∈ commentsFrom style (n + 1) (step style n first scope).2 rest,
          r.Holds (n + i) text := by
        cases i with
        | zero =>
            obtain rfl : first = line := Option.some.inj hline
            exact comments_hold (step_comment h houtside htext)
        | succ i =>
            rw [List.take_succ_cons, List.foldl_cons, ← step_isBlock style n] at houtside
            rw [show n + (i + 1) = n + 1 + i by omega]
            exact ih hlines.tail hstep.stands hline htext houtside
      obtain ⟨r, hr, hholds⟩ := hfound
      exact ⟨r, List.mem_append_right _ hr, hholds⟩

/-! ### The regions of a file -/

/-- The lines of a region. -/
def Region.lines (r : Region) : List (List Char) := r.text.toList.splitOn '\n'

/-- The number of the first line behind a region. -/
def Region.stop (r : Region) : Nat := r.position.line + r.lines.length

/-- Each line of a region stands in its own line of the file, the first one at the column of the
region. -/
def Region.Stands (source : List (List Char)) (r : Region) : Prop :=
  ∀ i text, r.lines[i]? = some text →
    ∃ marker, Behind source (r.position.line + i) marker text ∧
      (i = 0 → r.position.column = marker.length + 1)

/-- A region of a file is a comment of it. -/
structure OpenRegion.Closed (r : OpenRegion) (region : Region) : Prop where
  annotated : "@api".toList <:+: joinLines r.lines.reverse
  position : region.position = r.position
  lines : region.lines = r.lines.reverse

theorem lineAt?_succ (source : List (List Char)) (i : Nat) :
    lineAt? source (1 + i) = source[i]? := by
  rw [Nat.add_comm]
  rfl

theorem mem_of_lineAt? {source : List (List Char)} {n : Nat} {line : List Char}
    (h : lineAt? source n = some line) : line ∈ source := by
  cases n with
  | zero => cases h
  | succ n => exact List.mem_of_getElem? h

theorem leadFrom_commentLines (style : CommentStyle) (source : List (List Char)) :
    LeadFrom source 1 (commentLines style source) := by
  intro i line hline
  unfold Leads
  rw [lineAt?_succ]
  cases style with
  | slash => exact ⟨line, hline, List.prefix_refl line⟩
  | hash =>
      cases source with
      | nil => cases hline
      | cons first rest =>
          cases i with
          | zero =>
              obtain rfl := Option.some.inj hline
              refine ⟨first, rfl, ?_⟩
              split
              · exact List.nil_prefix
              · exact List.prefix_refl first
          | succ i => exact ⟨line, hline, List.prefix_refl line⟩

section Regions

variable {style : CommentStyle} {content : String}

/-- The comments of a file, those without an annotation too. -/
def commentsOf (style : CommentStyle) (content : String) : List OpenRegion :=
  commentsFrom style 1 .code (commentLines style (lines content.toList))

theorem commentsOf_laid (style : CommentStyle) (content : String) :
    Laid (lines content.toList) 1 (1 + (commentLines style (lines content.toList)).length)
      (commentsOf style content) :=
  comments_laid (leadFrom_commentLines style _) (Scope.stands_code _ 1)

/-- A comment that stands in a file is closed to a region with the same lines. -/
theorem closed_of_mem_close {r : OpenRegion} (h : r.Stands (lines content.toList))
    {region : Region} (hregion : region ∈ r.close) : r.Closed region := by
  rw [OpenRegion.close] at hregion
  split at hregion
  next hoccurs =>
    rw [List.mem_singleton] at hregion
    subst hregion
    refine ⟨occursIn_iff.mp hoccurs, rfl, ?_⟩
    have hpieces : ∀ piece ∈ r.lines.reverse, piece.splitOn '\n' = [piece] := by
      intro piece hpiece
      obtain ⟨i, hi⟩ := List.mem_iff_getElem?.mp hpiece
      obtain ⟨marker, ⟨-, line, hline, hbehind⟩, -⟩ := h.behind i piece hi
      refine List.splitOn_eq_singleton fun hnewline => ?_
      refine newline_not_mem_lines (mem_of_lineAt? hline) (hbehind.subset ?_)
      exact List.mem_append_right _ hnewline
    show (String.ofList (joinLines r.lines.reverse)).toList.splitOn '\n' = r.lines.reverse
    rw [String.toList_ofList, splitOn_joinLines (by simpa using h.ne_nil),
      List.flatMap_congr hpieces, List.flatMap_singleton']
  next => cases hregion

/-- Each region is a comment of the file. -/
theorem exists_comment_of_region {region : Region} (h : region ∈ regionsOf style content) :
    ∃ r ∈ commentsOf style content, r.Stands (lines content.toList) ∧ r.Closed region := by
  rw [regionsOf_eq, List.mem_flatMap] at h
  obtain ⟨r, hr, hregion⟩ := h
  have hstands := (commentsOf_laid style content).stands r hr
  exact ⟨r, hr, hstands, closed_of_mem_close hstands hregion⟩

/-- **The lines of a region stand in the file**, each in its own line. -/
theorem regionsOf_stand {region : Region} (h : region ∈ regionsOf style content) :
    region.Stands (lines content.toList) := by
  obtain ⟨r, -, hstands, hclosed⟩ := exists_comment_of_region h
  intro i text htext
  rw [hclosed.lines] at htext
  rw [hclosed.position]
  exact hstands.behind i text htext

/-- **The regions of a file stand one below the other**, and no two share a line. -/
theorem regionsOf_apart (style : CommentStyle) (content : String) :
    (regionsOf style content).Pairwise fun a b => a.stop ≤ b.position.line := by
  have hlaid := commentsOf_laid style content
  rw [regionsOf_eq, List.pairwise_flatMap]
  constructor
  · intro r _
    rw [OpenRegion.close]
    split
    · exact List.pairwise_singleton ..
    · exact List.Pairwise.nil
  · refine hlaid.apart.imp_of_mem ?_
    intro a b ha hb hab x hx y hy
    have hclosedx := closed_of_mem_close (hlaid.stands a ha) hx
    have hclosedy := closed_of_mem_close (hlaid.stands b hb) hy
    rw [Region.stop, hclosedx.position, hclosedx.lines, List.length_reverse, hclosedy.position]
    exact hab

/-- A file may start with an interpreter line, which is no comment. -/
def IsShebang (style : CommentStyle) (n : Nat) (line : List Char) : Prop :=
  style = .hash ∧ n = 1 ∧ "#!".toList <+: line

/-- A line is looked at for comments, unless it is the interpreter line. -/
theorem getElem?_commentLines {source : List (List Char)} {i : Nat} {line : List Char}
    (hline : source[i]? = some line) (hshebang : ¬IsShebang style (i + 1) line) :
    (commentLines style source)[i]? = some line := by
  cases style with
  | slash => exact hline
  | hash =>
      cases source with
      | nil => cases hline
      | cons first rest =>
          cases i with
          | zero =>
              obtain rfl : first = line := Option.some.inj hline
              have hnot : ¬['#', '!'].isPrefixOf first = true := by
                intro hprefix
                exact hshebang ⟨rfl, rfl, List.isPrefixOf_iff_prefix.mp hprefix⟩
              show some (if ['#', '!'].isPrefixOf first then [] else first) = some first
              rw [if_neg hnot]
          | succ i => exact hline

/-- Nor does the interpreter line open or close a block comment: its style has none. -/
theorem insideBlock_commentLines (source : List (List Char)) (i : Nat) :
    insideBlock style ((commentLines style source).take i) = insideBlock style (source.take i) := by
  cases style with
  | slash => rfl
  | hash =>
      have hnever : ∀ lines : List (List Char), insideBlock .hash lines = false := by
        intro lines
        unfold insideBlock
        induction lines with
        | nil => rfl
        | cons line rest ih =>
            rw [List.foldl_cons, show blockOpen .hash false line = false by
              simp [blockOpen, blockComment?]]
            exact ih
      rw [hnever, hnever]

/-- The marker of a line comment. -/
def CommentStyle.lineMarker : CommentStyle → List Char
  | .slash => ['/', '/']
  | .hash => ['#']

/-- The text of a line comment is there for every line that starts with the marker. -/
theorem exists_lineComment? {line : List Char} (h : style.lineMarker <+: trimStart line) :
    ∃ text, lineComment? style line = some text := by
  obtain ⟨behind, hbehind⟩ := h
  have hstrip : stripPrefix? style.lineMarker (trimStart line) = some behind :=
    List.isPrefixOf?_eq_some_iff_append_eq.mpr hbehind
  cases style with
  | slash =>
      have hslash : stripPrefix? ['/', '/'] (trimStart line) = some behind := hstrip
      rw [lineComment?, slashLine?, hslash]
      exact ⟨_, rfl⟩
  | hash =>
      have hhash : stripPrefix? ['#'] (trimStart line) = some behind := hstrip
      rw [lineComment?, hashLine?, hhash]
      exact ⟨_, rfl⟩

/-- Line `n` of a file is a line comment that may hold a tag of ours. -/
structure LineComment (style : CommentStyle) (source : List (List Char)) (n : Nat)
    (line : List Char) : Prop where
  stands : lineAt? source n = some line
  marker : style.lineMarker <+: trimStart line
  shebang : ¬IsShebang style n line
  /-- The line does not stand inside a block comment. -/
  outside : insideBlock style (source.take (n - 1)) = false
  annotated : "@api".toList <:+: (lineComment? style line).getD []

/-- **No annotated line comment is lost**: its text is a line of one region. -/
theorem regionsOf_cover {n : Nat} {line : List Char}
    (h : LineComment style (lines content.toList) n line) :
    ∃ region ∈ regionsOf style content, region.position.line ≤ n ∧
      region.lines[n - region.position.line]? = lineComment? style line := by
  obtain ⟨text, htext⟩ := exists_lineComment? h.marker
  have hapi : "@api".toList <:+: text := by
    have happears := h.annotated
    rwa [htext] at happears
  obtain ⟨hline, -, hshebang, houtside, -⟩ := h
  rw [htext]
  cases n with
  | zero => cases hline
  | succ i =>
      have hfound : ∃ r ∈ commentsOf style content, r.Holds (1 + i) text := by
        refine comments_cover (leadFrom_commentLines style _) (Scope.stands_code _ 1)
          (getElem?_commentLines hline hshebang) htext ?_
        exact (insideBlock_commentLines _ i).trans houtside
      obtain ⟨r, hr, hholds⟩ := hfound
      rw [Nat.add_comm] at hholds
      have hmem : text ∈ r.lines := List.mem_reverse.mp (List.mem_of_getElem? hholds.piece)
      have hclose : r.close = [⟨r.position, String.ofList (joinLines r.lines.reverse)⟩] :=
        close_of_occurs hmem hapi
      have hregion := List.mem_singleton_self
        (⟨r.position, String.ofList (joinLines r.lines.reverse)⟩ : Region)
      rw [← hclose] at hregion
      have hclosed := closed_of_mem_close ((commentsOf_laid style content).stands r hr) hregion
      refine ⟨_, ?_, hholds.low, by rw [hclosed.lines]; exact hholds.piece⟩
      rw [regionsOf_eq, List.mem_flatMap]
      exact ⟨r, hr, hregion⟩

end Regions

end Annotation

end ApiNotes
