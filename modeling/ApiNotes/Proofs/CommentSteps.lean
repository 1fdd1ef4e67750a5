/-
The readers of comments, one line at a time.

The two readers differ in what they take for a comment and agree in all else, so both are
read here as runs of one step: a line ends some comments, and leaves a scope behind it.
`Stepped` lists all that a line can do, and the proofs about comments go by its cases.  What
a comment takes from a line is the rest of the line behind a marker, and `Strips` says so
without the marker: only that no `@` goes missing matters to what comes after.
-/
import ApiNotes.Proofs.CommentStyles

namespace ApiNotes

namespace Text

/-- A line of a text is a piece between line feeds, or all of it but a carriage return. -/
theorem getElem?_lines {s line : List Char} {i : Nat} (h : (lines s)[i]? = some line) :
    ∃ piece, (s.splitOn '\n')[i]? = some piece ∧ line <+: piece := by
  obtain ⟨front, last, hsplit⟩ := exists_splitOn '\n' s
  rw [lines_of_splitOn hsplit, List.getElem?_append] at h
  rw [hsplit, List.getElem?_append]
  by_cases hi : i < front.length
  · rw [if_pos (by simpa using hi), List.getElem?_map, Option.map_eq_some_iff] at h
    obtain ⟨piece, hpiece, rfl⟩ := h
    exact ⟨piece, by rw [if_pos hi, hpiece], dropReturn_leads piece⟩
  · rw [if_neg (by simpa using hi), List.length_map] at h
    rw [if_neg hi]
    refine ⟨line, ?_, List.prefix_refl line⟩
    by_cases hlast : last.isEmpty = true
    · simp [hlast] at h
    · rwa [if_neg hlast] at h

theorem cutAtFrom_eq_some {pattern before after : List Char} :
    ∀ {passed s : List Char}, cutAtFrom pattern passed s = some (before, after) →
      ∃ front, before = passed.reverse ++ front ∧ s = front ++ pattern ++ after := by
  intro passed s h
  induction s generalizing passed with
  | nil =>
      rw [cutAtFrom] at h
      split at h
      next hempty =>
        rw [Option.some.injEq, Prod.mk.injEq] at h
        obtain ⟨rfl, rfl⟩ := h
        exact ⟨[], by simp, by simpa using hempty⟩
      next => cases h
  | cons c rest ih =>
      rw [cutAtFrom] at h
      cases hstrip : stripPrefix? pattern (c :: rest) with
      | some behind =>
          simp only [hstrip, Option.some.injEq, Prod.mk.injEq] at h
          obtain ⟨rfl, rfl⟩ := h
          exact ⟨[], by simp, (List.isPrefixOf?_eq_some_iff_append_eq.mp hstrip).symm⟩
      | none =>
          simp only [hstrip] at h
          obtain ⟨front, rfl, rfl⟩ := ih h
          exact ⟨c :: front, by simp, by simp⟩

/-- A text that is cut is put together again around the pattern. -/
theorem cutAt_eq_some {pattern s before after : List Char}
    (h : cutAt pattern s = some (before, after)) : s = before ++ pattern ++ after := by
  obtain ⟨front, rfl, hs⟩ := cutAtFrom_eq_some h
  exact hs

theorem before_prefix_of_cutAt {pattern s before after : List Char}
    (h : cutAt pattern s = some (before, after)) : before <+: s := by
  rw [cutAt_eq_some h, List.append_assoc]
  exact List.prefix_append before _

theorem newline_not_mem_lines {s line : List Char} (h : line ∈ lines s) : '\n' ∉ line := by
  obtain ⟨i, hi⟩ := List.mem_iff_getElem?.mp h
  obtain ⟨piece, hpiece, hline⟩ := getElem?_lines hi
  intro hnewline
  exact not_mem_of_mem_splitOn (List.mem_of_getElem? hpiece) (hline.subset hnewline)

end Text

namespace Annotation

open Text

/-! ### Markers -/

/-- A text is the rest of a line behind a comment marker, which has no `@` in it. -/
def Strips (line text : List Char) : Prop := ∃ marker, '@' ∉ marker ∧ line = marker ++ text

namespace Strips

theorem refl (line : List Char) : Strips line line := ⟨[], List.not_mem_nil, rfl⟩

theorem trans {a b c : List Char} (hab : Strips a b) (hbc : Strips b c) : Strips a c := by
  obtain ⟨m, hm, rfl⟩ := hab
  obtain ⟨m', hm', rfl⟩ := hbc
  refine ⟨m ++ m', ?_, (List.append_assoc m m' c).symm⟩
  rw [List.mem_append, not_or]
  exact ⟨hm, hm'⟩

theorem cons {c : Char} (hc : c ≠ '@') (rest : List Char) : Strips (c :: rest) rest :=
  ⟨[c], by simpa using hc.symm, rfl⟩

theorem trimStart (line : List Char) : Strips line (trimStart line) := by
  refine ⟨line.takeWhile isBlank, ?_, List.takeWhile_append_dropWhile.symm⟩
  intro hat
  exact absurd (List.mem_takeWhile_imp hat) (by decide)

theorem dropChar {c : Char} (hc : c ≠ '@') (line : List Char) : Strips line (dropChar c line) := by
  cases line with
  | nil => exact refl []
  | cons d rest =>
      show Strips (d :: rest) (if d = c then rest else d :: rest)
      by_cases hd : d = c
      · rw [if_pos hd]
        exact cons (by rwa [hd]) rest
      · rw [if_neg hd]
        exact refl _

theorem stripPrefix? {pattern line text : List Char} (hat : '@' ∉ pattern)
    (h : stripPrefix? pattern line = some text) : Strips line text :=
  ⟨pattern, hat, (List.isPrefixOf?_eq_some_iff_append_eq.mp h).symm⟩

end Strips

theorem strips_slashLine? {line text : List Char} (h : slashLine? line = some text) :
    Strips line text := by
  unfold slashLine? at h
  obtain ⟨behind, hbehind, h⟩ := Option.bind_eq_some_iff.mp h
  rw [Option.some.injEq] at h
  subst h
  have hstart : Strips line behind :=
    (Strips.trimStart line).trans (Strips.stripPrefix? (by decide) hbehind)
  refine hstart.trans (Strips.trans ?_ (Strips.dropChar (by decide) _))
  split
  · exact Strips.cons (by decide) _
  · exact Strips.cons (by decide) _
  · exact Strips.refl _

theorem strips_blockStart? {line text : List Char} (h : blockStart? line = some text) :
    Strips line text := by
  unfold blockStart? at h
  obtain ⟨behind, hbehind, h⟩ := Option.bind_eq_some_iff.mp h
  rw [Option.some.injEq] at h
  subst h
  have hstart : Strips line behind :=
    (Strips.trimStart line).trans (Strips.stripPrefix? (by decide) hbehind)
  refine hstart.trans (Strips.trans ?_ (Strips.dropChar (by decide) _))
  split
  · exact Strips.refl _
  · exact Strips.cons (by decide) _
  · exact Strips.refl _

theorem strips_hashLine? {line text : List Char} (h : hashLine? line = some text) :
    Strips line text := by
  unfold hashLine? at h
  obtain ⟨behind, hbehind, rfl⟩ := Option.map_eq_some_iff.mp h
  exact ((Strips.trimStart line).trans (Strips.stripPrefix? (by decide) hbehind)).trans
    (Strips.dropChar (by decide) behind)

theorem strips_stripStar (line : List Char) : Strips line (stripStar line) := by
  unfold stripStar
  split
  next rest hstar =>
    have hrest : Strips (trimStart line) rest := by
      rw [hstar]
      exact Strips.cons (by decide) rest
    exact ((Strips.trimStart line).trans hrest).trans (Strips.dropChar (by decide) rest)
  next => exact Strips.refl line

/-! ### One step for both styles -/

/-- The text of a line comment of the style. -/
def lineComment? : CommentStyle → List Char → Option (List Char)
  | .slash => slashLine?
  | .hash => hashLine?

/-- The text behind the start of a block comment, in a style that has them. -/
def blockComment? : CommentStyle → List Char → Option (List Char)
  | .slash, line => blockStart? line
  | .hash, _ => none

/-- The comment that is open, if there is one. -/
def Scope.comments : Scope → List OpenRegion
  | .code => []
  | .run region | .block region => [region]

/-- Whether a block comment is open. -/
def Scope.isBlock : Scope → Bool
  | .block _ => true
  | _ => false

/-- What line `n` does: the comments that it ends, and the scope behind it. -/
def step (style : CommentStyle) (n : Nat) (line : List Char) : Scope → List OpenRegion × Scope
  | .block region =>
    match cutAt ['*', '/'] line with
    | some (before, _) => ([region.push (stripStar before)], .code)
    | none => ([], .block (region.push (stripStar line)))
  | scope =>
    match lineComment? style line with
    | some text => ([], scope.extend ⟨n, columnOf line text⟩ text)
    | none =>
      match blockComment? style line with
      | none => (scope.comments, .code)
      | some text =>
        match cutAt ['*', '/'] text with
        | some (before, _) => (scope.comments ++ [⟨⟨n, columnOf line text⟩, [before]⟩], .code)
        | none => (scope.comments, .block ⟨⟨n, columnOf line text⟩, [text]⟩)

/-- All comments of the lines from line `n` on, also those without an annotation. -/
def commentsFrom (style : CommentStyle) : Nat → Scope → List (List Char) → List OpenRegion
  | _, scope, [] => scope.comments
  | n, scope, line :: rest =>
    (step style n line scope).1 ++ commentsFrom style (n + 1) (step style n line scope).2 rest

theorem flatMap_close_comments (scope : Scope) :
    scope.comments.flatMap OpenRegion.close = scope.close := by
  cases scope with
  | code => rfl
  | run region => exact List.append_nil _
  | block region => exact List.append_nil _

theorem Scope.ne_block_of_isBlock {scope : Scope} (h : scope.isBlock = false) :
    ∀ region, scope ≠ .block region := by
  rintro region rfl
  exact absurd h Bool.true_eq_false.mp

theorem Scope.eq_block_of_isBlock {scope : Scope} (h : ¬scope.isBlock = false) :
    ∃ region, scope = .block region := by
  cases scope with
  | block region => exact ⟨region, rfl⟩
  | _ => exact absurd rfl h

theorem slashRegions_eq (lines : List (List Char)) :
    ∀ n scope, slashRegions n scope lines =
      (commentsFrom .slash n scope lines).flatMap OpenRegion.close := by
  induction lines with
  | nil =>
      intro n scope
      rw [commentsFrom, flatMap_close_comments]
      cases scope <;> rfl
  | cons line rest ih =>
      intro n scope
      rw [commentsFrom, List.flatMap_append, ← ih]
      by_cases hscope : scope.isBlock = false
      · have hne := Scope.ne_block_of_isBlock hscope
        rw [slashRegions, step, lineComment?, blockComment?]
        · cases slashLine? line with
          | some text => rfl
          | none =>
              cases blockStart? line with
              | none => rw [← flatMap_close_comments]
              | some text =>
                  rw [← flatMap_close_comments]
                  dsimp only
                  cases cutAt ['*', '/'] text with
                  | some cut => simp [OpenRegion.push]
                  | none => simp [OpenRegion.push]
        · exact hne
        · exact hne
      · obtain ⟨region, rfl⟩ := Scope.eq_block_of_isBlock hscope
        rw [slashRegions, step]
        cases cutAt ['*', '/'] line with
        | some cut => simp
        | none => rfl

theorem hashRegions_eq (lines : List (List Char)) :
    ∀ n scope, scope.isBlock = false → hashRegions n scope lines =
      (commentsFrom .hash n scope lines).flatMap OpenRegion.close := by
  induction lines with
  | nil =>
      intro n scope _
      rw [commentsFrom, flatMap_close_comments, hashRegions]
  | cons line rest ih =>
      intro n scope hscope
      have hne := Scope.ne_block_of_isBlock hscope
      rw [commentsFrom, hashRegions, step, lineComment?, blockComment?]
      · cases hashLine? line with
        | some text =>
            have hextend : (scope.extend ⟨n, columnOf line text⟩ text).isBlock = false := by
              cases scope <;> rfl
            exact ih (n + 1) _ hextend
        | none =>
            rw [← flatMap_close_comments, ih (n + 1) .code rfl, ← List.flatMap_append]
      · exact hne

/-- The lines in which comments are looked for. -/
def commentLines : CommentStyle → List (List Char) → List (List Char)
  | .slash, lines => lines
  | .hash, lines => blankShebang lines

/-- The regions of a file are its comments that can hold an annotation. -/
theorem regionsOf_eq (style : CommentStyle) (content : String) :
    regionsOf style content =
      (commentsFrom style 1 .code (commentLines style (lines content.toList))).flatMap
        OpenRegion.close := by
  cases style with
  | slash => exact slashRegions_eq _ 1 .code
  | hash => exact hashRegions_eq _ 1 .code rfl

/-- All that a line can do. -/
inductive Stepped (style : CommentStyle) (n : Nat) (line : List Char) :
    Scope → List OpenRegion × Scope → Prop
  /-- The line ends the block comment. -/
  | closes (region : OpenRegion) (before after : List Char)
      (hcut : cutAt ['*', '/'] line = some (before, after)) :
      Stepped style n line (.block region) ([region.push (stripStar before)], .code)
  /-- The line stands in the block comment. -/
  | continues (region : OpenRegion) (hcut : cutAt ['*', '/'] line = none) :
      Stepped style n line (.block region) ([], .block (region.push (stripStar line)))
  /-- The line is the first line comment of a run. -/
  | starts (text : List Char) (hline : lineComment? style line = some text) :
      Stepped style n line .code ([], .run ⟨⟨n, columnOf line text⟩, [text]⟩)
  /-- The line is one line comment more of a run. -/
  | follows (region : OpenRegion) (text : List Char)
      (hline : lineComment? style line = some text) :
      Stepped style n line (.run region) ([], .run (region.push text))
  /-- The line is no comment. -/
  | leaves (scope : Scope) (hscope : scope.isBlock = false)
      (hline : lineComment? style line = none) (hblock : blockComment? style line = none) :
      Stepped style n line scope (scope.comments, .code)
  /-- The line is a block comment of its own. -/
  | encloses (scope : Scope) (hscope : scope.isBlock = false)
      (hline : lineComment? style line = none) (text : List Char)
      (hblock : blockComment? style line = some text) (before after : List Char)
      (hcut : cutAt ['*', '/'] text = some (before, after)) :
      Stepped style n line scope
        (scope.comments ++ [⟨⟨n, columnOf line text⟩, [before]⟩], .code)
  /-- The line opens a block comment. -/
  | opens (scope : Scope) (hscope : scope.isBlock = false)
      (hline : lineComment? style line = none) (text : List Char)
      (hblock : blockComment? style line = some text) (hcut : cutAt ['*', '/'] text = none) :
      Stepped style n line scope (scope.comments, .block ⟨⟨n, columnOf line text⟩, [text]⟩)

theorem stepped (style : CommentStyle) (n : Nat) (line : List Char) (scope : Scope) :
    Stepped style n line scope (step style n line scope) := by
  by_cases hscope : scope.isBlock = false
  · have hne := Scope.ne_block_of_isBlock hscope
    rw [step]
    · cases hline : lineComment? style line with
      | some text =>
          cases scope with
          | code => exact .starts text hline
          | run region => exact .follows region text hline
          | block region => exact absurd rfl (hne region)
      | none =>
          cases hblock : blockComment? style line with
          | none => exact .leaves scope hscope hline hblock
          | some text =>
              dsimp only
              cases hcut : cutAt ['*', '/'] text with
              | some cut => exact .encloses scope hscope hline text hblock cut.1 cut.2 hcut
              | none => exact .opens scope hscope hline text hblock hcut
    · exact hne
  · obtain ⟨region, rfl⟩ := Scope.eq_block_of_isBlock hscope
    rw [step]
    cases hcut : cutAt ['*', '/'] line with
    | some cut => exact .closes region cut.1 cut.2 hcut
    | none => exact .continues region hcut

end Annotation

end ApiNotes
