/-
A file is read in parts.

Where a line of code stands between two texts, no comment goes from one into the other: the
line ends a run of line comments, and leaves nothing open.  So the comments of the whole are
those of the first text and then those of the second, further down (`commentsFrom_cut`), as
long as the first text does not end inside a block comment, where the line would be no code.
What the comments declare follows: a file declares what its parts do, one after the other,
and its first fault is that of the first part that has one.
-/
import ApiNotes.Proofs.Places

namespace ApiNotes

/-- The place some lines further down. -/
def lowered (down : Nat) (p : Position) : Position := { p with line := p.line + down }

namespace Text

/-! ### The lines of texts in a row -/

/-- In front of a line feed all pieces of a text are lines, also a last one without characters. -/
theorem lines_append_newline (s rest : List Char) :
    lines (s ++ '\n' :: rest) = (s.splitOn '\n').map dropReturn ++ lines rest := by
  obtain ⟨front, last, hsplit⟩ := exists_splitOn '\n' rest
  have hwhole : (s ++ '\n' :: rest).splitOn '\n' = (s.splitOn '\n' ++ front) ++ [last] := by
    rw [List.splitOn_append_cons_self, hsplit, List.append_assoc]
  rw [lines_of_splitOn hwhole, lines_of_splitOn hsplit, List.map_append, List.append_assoc]

theorem length_splitOn (s : List Char) : (s.splitOn '\n').length = s.count '\n' + 1 := by
  induction s with
  | nil => rfl
  | cons c rest ih =>
      rw [List.splitOn_cons_eq_if_modifyHead, List.count_cons]
      by_cases hc : (c == '\n') = true
      · rw [if_pos hc, if_pos hc, List.length_cons, ih]
      · rw [if_neg hc, if_neg hc, List.length_modifyHead, ih, Nat.add_zero]

/-- These pieces are the lines of the text, but for a last one without characters. -/
theorem map_dropReturn_splitOn {s : List Char} (h : s.getLast? ≠ some '\r') :
    (s.splitOn '\n').map dropReturn = lines s ∨
      (s.splitOn '\n').map dropReturn = lines s ++ [[]] := by
  obtain ⟨front, last, hsplit⟩ := exists_splitOn '\n' s
  have hsuffix : last <:+ s := by
    have hjoin : joinLines (front ++ [last]) = s := by
      rw [joinLines, ← hsplit]
      exact List.intercalate_splitOn '\n'
    by_cases hfront : front = []
    · rw [← hjoin, hfront]
      simp [joinLines]
    · rw [← hjoin, joinLines_concat hfront]
      exact (List.suffix_cons '\n' last).trans (List.suffix_append _ _)
  have hlast : dropReturn last = last := by
    obtain ⟨before, rfl⟩ := hsuffix
    unfold dropReturn
    rw [if_neg]
    intro hreturn
    rw [List.getLast?_append, hreturn] at h
    exact h rfl
  rw [lines_of_splitOn hsplit, hsplit, List.map_append, List.map_singleton, hlast]
  by_cases hempty : last = []
  · exact .inr (by simp [hempty])
  · exact .inl (by simp [hempty])

/-- The first line of a text starts it. -/
theorem prefix_of_lines_eq_cons {s first : List Char} {rest : List (List Char)}
    (h : lines s = first :: rest) : first <+: s := by
  obtain ⟨piece, hpiece, hleads⟩ := getElem?_lines (i := 0) (by rw [h]; rfl)
  refine hleads.trans ?_
  obtain ⟨others, hsplit⟩ : ∃ others, s.splitOn '\n' = piece :: others := by
    cases hsplit : s.splitOn '\n' with
    | nil => exact absurd hsplit (List.splitOn_ne_nil '\n' s)
    | cons head others =>
        rw [hsplit] at hpiece
        obtain rfl := Option.some.inj hpiece
        exact ⟨others, rfl⟩
  have hjoin : joinLines (piece :: others) = s := by
    rw [joinLines, ← hsplit]
    exact List.intercalate_splitOn '\n'
  rw [← hjoin, joinLines_cons]
  exact List.prefix_append piece _

end Text

namespace Annotation

open Text

variable {style : CommentStyle}

/-! ### Lines of code -/

/-- A line starts no comment of the style. -/
structure IsCode (style : CommentStyle) (line : List Char) : Prop where
  noLine : lineComment? style line = none
  noBlock : blockComment? style line = none

theorem step_code {line : List Char} (h : IsCode style line) (n : Nat) {scope : Scope}
    (hscope : scope.isBlock = false) : step style n line scope = (scope.comments, .code) := by
  rw [step, h.noLine, h.noBlock]
  exact Scope.ne_block_of_isBlock hscope

/-- **A line of code keeps the comments before it from those behind it.** -/
theorem commentsFrom_cut {line : List Char} (h : IsCode style line)
    {before after : List (List Char)} :
    ∀ n scope, before.foldl (blockOpen style) scope.isBlock = false →
      commentsFrom style n scope (before ++ line :: after) =
        commentsFrom style n scope before ++
          commentsFrom style (n + before.length + 1) .code after := by
  induction before with
  | nil =>
      intro n scope hscope
      rw [List.nil_append, commentsFrom, commentsFrom, step_code h n hscope]
      rfl
  | cons first rest ih =>
      intro n scope houtside
      rw [List.foldl_cons, ← step_isBlock style n] at houtside
      rw [List.cons_append, commentsFrom, commentsFrom, ih (n + 1) _ houtside, List.append_assoc,
        show n + 1 + rest.length + 1 = n + (first :: rest).length + 1 by
          rw [List.length_cons]; omega]

theorem isCode_nil (style : CommentStyle) : IsCode style [] := by
  cases style <;> exact ⟨rfl, rfl⟩

/-! ### Comments further down -/

/-- The region at another place. -/
def Region.moved (move : Position → Position) (r : Region) : Region :=
  { r with position := move r.position }

/-- The open region at another place. -/
def OpenRegion.moved (move : Position → Position) (r : OpenRegion) : OpenRegion :=
  { r with position := move r.position }

/-- The scope with its comment at another place. -/
def Scope.moved (move : Position → Position) : Scope → Scope
  | .code => .code
  | .run region => .run (region.moved move)
  | .block region => .block (region.moved move)

theorem close_moved (move : Position → Position) (r : OpenRegion) :
    (r.moved move).close = r.close.map (Region.moved move) := by
  rw [OpenRegion.close, OpenRegion.close, show (r.moved move).lines = r.lines from rfl]
  split
  · rfl
  · rfl

theorem comments_moved (move : Position → Position) (scope : Scope) :
    (scope.moved move).comments = scope.comments.map (OpenRegion.moved move) := by
  cases scope <;> rfl

theorem extend_lowered (down n column : Nat) (text : List Char) (scope : Scope) :
    (scope.moved (lowered down)).extend ⟨n + down, column⟩ text =
      (scope.extend ⟨n, column⟩ text).moved (lowered down) := by
  cases scope <;> rfl

/-- A line further down does the same, further down. -/
theorem step_lowered (down n : Nat) (line : List Char) (scope : Scope) :
    step style (n + down) line (scope.moved (lowered down)) =
      ((step style n line scope).1.map (OpenRegion.moved (lowered down)),
        (step style n line scope).2.moved (lowered down)) := by
  by_cases hscope : scope.isBlock = false
  · have hmoved : (scope.moved (lowered down)).isBlock = false := by
      cases scope <;> first | rfl | exact hscope
    rw [step, step]
    · cases lineComment? style line with
      | some text => simp only [extend_lowered, List.map_nil]
      | none =>
          cases blockComment? style line with
          | none => simp only [comments_moved]; rfl
          | some text =>
              dsimp only
              cases cutAt ['*', '/'] text with
              | none => simp only [comments_moved]; rfl
              | some cut => simp only [comments_moved, List.map_append]; rfl
    · exact Scope.ne_block_of_isBlock hscope
    · exact Scope.ne_block_of_isBlock hmoved
  · obtain ⟨region, rfl⟩ := Scope.eq_block_of_isBlock hscope
    rw [Scope.moved, step, step]
    cases cutAt ['*', '/'] line <;> rfl

theorem commentsFrom_lowered (down : Nat) {lines : List (List Char)} :
    ∀ n scope, commentsFrom style (n + down) (scope.moved (lowered down)) lines =
      (commentsFrom style n scope lines).map (OpenRegion.moved (lowered down)) := by
  induction lines with
  | nil =>
      intro n scope
      exact comments_moved (lowered down) scope
  | cons line rest ih =>
      intro n scope
      rw [commentsFrom, commentsFrom, step_lowered, List.map_append, ← ih, Nat.add_right_comm]

/-- The regions of some lines, in front of which no comment is open. -/
def regionsFrom (style : CommentStyle) (n : Nat) (lines : List (List Char)) : List Region :=
  (commentsFrom style n .code lines).flatMap OpenRegion.close

theorem regionsFrom_lowered (down n : Nat) (lines : List (List Char)) :
    regionsFrom style (n + down) lines =
      (regionsFrom style n lines).map (Region.moved (lowered down)) := by
  unfold regionsFrom
  rw [show Scope.code = Scope.code.moved (lowered down) from rfl, commentsFrom_lowered,
    List.flatMap_map, List.map_flatMap]
  simp only [close_moved]
  rfl

theorem regionsFrom_cut {line : List Char} (h : IsCode style line) {before : List (List Char)}
    (houtside : insideBlock style before = false) (n : Nat) (after : List (List Char)) :
    regionsFrom style n (before ++ line :: after) =
      regionsFrom style n before ++ regionsFrom style (n + before.length + 1) after := by
  unfold regionsFrom
  rw [commentsFrom_cut h n .code houtside, List.flatMap_append]

/-- A line without characters is code, so one at the end makes no difference. -/
theorem regionsFrom_concat_nil {lines : List (List Char)} (h : insideBlock style lines = false)
    (n : Nat) : regionsFrom style n (lines ++ [[]]) = regionsFrom style n lines := by
  rw [regionsFrom_cut (isCode_nil style) h]
  exact List.append_nil _

theorem insideBlock_concat_nil {lines : List (List Char)} (h : insideBlock style lines = false) :
    insideBlock style (lines ++ [[]]) = false := by
  unfold insideBlock at h ⊢
  rw [List.foldl_append, h]
  cases style <;> rfl

/-! ### Texts around a line of code -/

/-- How comments of the style start. -/
def CommentStyle.openers : CommentStyle → List (List Char)
  | .slash => ["//".toList, "/*".toList]
  | .hash => ["#".toList]

/-- The second text is a line of code between the first and the third. -/
structure Separates (style : CommentStyle) (first line second : String) : Prop where
  unbroken : '\n' ∉ line.toList
  code : ∀ opener ∈ style.openers, ¬opener <+: trimStart line.toList
  /-- The line feed behind the first text does not turn its end into a line break of its own. -/
  ended : first.toList.getLast? ≠ some '\r'
  /-- The first text does not end inside a block comment. -/
  outside : insideBlock style (Text.lines first.toList) = false
  /-- The second text does not start with an interpreter line. -/
  shebang : style = .hash → ¬"#!".toList <+: second.toList

theorem isCode_of_openers {line : List Char}
    (h : ∀ opener ∈ style.openers, ¬opener <+: trimStart line) : IsCode style line := by
  have hstrip : ∀ opener ∈ style.openers, stripPrefix? opener (trimStart line) = none := by
    intro opener hopener
    cases hstrip : stripPrefix? opener (trimStart line) with
    | none => rfl
    | some rest =>
        exact absurd ⟨rest, List.isPrefixOf?_eq_some_iff_append_eq.mp hstrip⟩ (h opener hopener)
  cases style with
  | slash =>
      refine ⟨?_, ?_⟩
      · have hnone : stripPrefix? ['/', '/'] (trimStart line) = none := hstrip _ (.head _)
        rw [lineComment?, slashLine?, hnone]
        rfl
      · have hnone : stripPrefix? ['/', '*'] (trimStart line) = none := hstrip _ (.tail _ (.head _))
        rw [blockComment?, blockStart?, hnone]
        rfl
  | hash =>
      refine ⟨?_, rfl⟩
      have hnone : stripPrefix? ['#'] (trimStart line) = none := hstrip _ (.head _)
      rw [lineComment?, hashLine?, hnone]
      rfl

theorem trimStart_leads {s t : List Char} (h : s <+: t) : trimStart s <+: trimStart t := by
  obtain ⟨rest, rfl⟩ := h
  unfold trimStart
  rw [List.dropWhile_append]
  split
  next hempty =>
    rw [List.isEmpty_iff.mp hempty]
    exact List.nil_prefix
  next => exact List.prefix_append _ rest

/-- The line without a carriage return at its end is code as well. -/
theorem Separates.isCode {first line second : String} (h : Separates style first line second) :
    IsCode style (dropReturn line.toList) := by
  apply isCode_of_openers
  intro opener hopener hopens
  exact h.code opener hopener (hopens.trans (trimStart_leads (dropReturn_leads _)))

theorem regionsOf_eq_regionsFrom (style : CommentStyle) (content : String) :
    regionsOf style content =
      regionsFrom style 1 (commentLines style (Text.lines content.toList)) :=
  regionsOf_eq style content

theorem commentLines_append {xs : List (List Char)} (hne : xs ≠ []) (ys : List (List Char)) :
    commentLines style (xs ++ ys) = commentLines style xs ++ ys := by
  cases style with
  | slash => rfl
  | hash =>
      cases xs with
      | nil => exact absurd rfl hne
      | cons x xs => rfl

theorem commentLines_concat_nil (xs : List (List Char)) :
    commentLines style (xs ++ [[]]) = commentLines style xs ++ [[]] := by
  cases xs with
  | nil => cases style <;> rfl
  | cons x xs => exact commentLines_append (List.cons_ne_nil x xs) _

/-- No line is taken for an interpreter line where the text does not start with one. -/
theorem commentLines_of_not_shebang {text : String}
    (h : style = .hash → ¬"#!".toList <+: text.toList) :
    commentLines style (Text.lines text.toList) = Text.lines text.toList := by
  cases style with
  | slash => rfl
  | hash =>
      cases hlines : Text.lines text.toList with
      | nil => rfl
      | cons first rest =>
          have hfirst : first <+: text.toList := prefix_of_lines_eq_cons hlines
          have hnot : ¬['#', '!'].isPrefixOf first = true := by
            intro hmark
            exact h rfl ((List.isPrefixOf_iff_prefix.mp hmark).trans hfirst)
          rw [commentLines, blankShebang, if_neg hnot]

theorem length_commentLines (xs : List (List Char)) :
    (commentLines style xs).length = xs.length := by
  cases style with
  | slash => rfl
  | hash => cases xs <;> rfl

theorem insideBlock_commentLines_all (xs : List (List Char)) :
    insideBlock style (commentLines style xs) = insideBlock style xs := by
  have h : insideBlock style ((commentLines style xs).take xs.length) =
      insideBlock style (xs.take xs.length) := insideBlock_commentLines xs xs.length
  rwa [List.take_length, List.take_of_length_le (length_commentLines xs).le] at h

/-- The text of two texts with a line between them. -/
def joined (first line second : String) : String := first ++ "\n" ++ line ++ "\n" ++ second

/-- The lines of the whole, between which the line of code stands. -/
theorem lines_joined {first line second : String} (h : '\n' ∉ line.toList) :
    Text.lines (joined first line second).toList =
      (first.toList.splitOn '\n').map dropReturn ++
        dropReturn line.toList :: Text.lines second.toList := by
  have hjoined : (joined first line second).toList =
      first.toList ++ '\n' :: (line.toList ++ '\n' :: second.toList) := by
    simp [joined]
  rw [hjoined, lines_append_newline, lines_append_newline, List.splitOn_eq_singleton h]
  rfl

/-- The pieces of the first text have its regions, and no comment is open behind them. -/
theorem regionsFrom_pieces {first line second : String} (h : Separates style first line second) :
    regionsFrom style 1 (commentLines style ((first.toList.splitOn '\n').map dropReturn)) =
        regionsOf style first ∧
      insideBlock style (commentLines style ((first.toList.splitOn '\n').map dropReturn)) =
        false := by
  have houtside : insideBlock style (commentLines style (Text.lines first.toList)) = false :=
    (insideBlock_commentLines_all _).trans h.outside
  rw [regionsOf_eq_regionsFrom]
  rcases map_dropReturn_splitOn h.ended with hpieces | hpieces
  · rw [hpieces]
    exact ⟨rfl, houtside⟩
  · rw [hpieces, commentLines_concat_nil]
    exact ⟨regionsFrom_concat_nil houtside 1, insideBlock_concat_nil houtside⟩

/-- **The regions of two texts with a line of code between them** are those of the first, and those
of the second further down. -/
theorem regionsOf_joined {first line second : String} (h : Separates style first line second) :
    regionsOf style (joined first line second) = regionsOf style first ++
      (regionsOf style second).map (Region.moved (lowered (first.toList.count '\n' + 2))) := by
  obtain ⟨hpieces, houtside⟩ := regionsFrom_pieces h
  have hne : (first.toList.splitOn '\n').map dropReturn ≠ [] := by
    simp [List.splitOn_ne_nil]
  have hstart : 1 + ((first.toList.splitOn '\n').map dropReturn).length + 1 =
      1 + (first.toList.count '\n' + 2) := by
    rw [List.length_map, length_splitOn]
    omega
  rw [regionsOf_eq_regionsFrom, lines_joined h.unbroken, commentLines_append hne,
    regionsFrom_cut h.isCode houtside, hpieces, length_commentLines, hstart, regionsFrom_lowered,
    regionsOf_eq_regionsFrom style second, commentLines_of_not_shebang h.shebang]

/-! ### What the whole declares -/

theorem blockOfRegion_lowered (down : Nat) (r : Region) :
    blockOfRegion (r.moved (lowered down)) =
      relocated (lowered down) (Block.moved (lowered down)) (blockOfRegion r) := by
  have hmove : ∀ j line, lowered down (linePosition r.position (0 + j) line) =
      linePosition (lowered down r.position) (0 + j) line := by
    intro j line
    simp only [lowered, linePosition, Position.mk.injEq, and_true]
    omega
  have htags : tagsOf (r.moved (lowered down)).text (r.moved (lowered down)).position =
      relocated (lowered down) (List.map (Tag.moved (lowered down)))
        (tagsOf r.text r.position) := by
    rw [tagsOf_eq_map, tagsOf_eq_map]
    show (cutLines (lowered down r.position) 0 (Text.lines r.text.toList)).map Prod.snd = _
    rw [cutLines_moved 0 0 hmove]
    cases cutLines r.position 0 (Text.lines r.text.toList) <;> rfl
  exact blockOfRegion_moved htags

/-- Findings, with more that stand further down behind them. -/
def followedBy (down : Nat) (first second : FileFindings) : FileFindings where
  path := second.path
  doc := first.doc.or second.doc
  endpoints := first.endpoints ++ second.endpoints.map (Endpoint.moved (lowered down))

theorem addBlock_followedBy (down : Nat) (first second : FileFindings) (block : Block) :
    addBlock (followedBy down first second) (block.moved (lowered down)) =
      followedBy down first (addBlock second block) := by
  cases block with
  | doc header => simp [addBlock, followedBy, Block.moved]
  | endpoint e => simp [addBlock, followedBy, Block.moved, Endpoint.moved]
  | empty => rfl

/-- The findings with what one region declares. -/
def addRegion (path : String) (found : FileFindings) (region : Region) : Checked FileFindings :=
  match blockOfRegion region with
  | .ok block => .ok (addBlock found block)
  | .error fault => .error (fault.inFile path)

theorem findingsOf_eq (path : String) (regions : List Region) :
    findingsOf path regions = regions.foldlM (addRegion path) { path } := rfl

theorem addRegion_followedBy (path : String) (down : Nat) (first second : FileFindings)
    (region : Region) :
    addRegion path (followedBy down first second) (region.moved (lowered down)) =
      relocated (lowered down) (followedBy down first) (addRegion path second region) := by
  unfold addRegion
  rw [blockOfRegion_lowered]
  cases blockOfRegion region with
  | error fault => rfl
  | ok block => exact congrArg Except.ok (addBlock_followedBy down first second block)

/-- More regions are read from what the first ones left. -/
theorem findingsOf_append {path : String} {regions : List Region} {first : FileFindings}
    (h : findingsOf path regions = .ok first) (down : Nat) (more : List Region) :
    findingsOf path (regions ++ more.map (Region.moved (lowered down))) =
      relocated (lowered down) (followedBy down first) (findingsOf path more) := by
  have hstart : first = followedBy down first { path } := by
    have hpath : first.path = path := (findingsOf_endpoints h).1
    cases first
    simp [followedBy, ← hpath]
  have hloop := foldlM_map_relocated (addRegion_followedBy path down first) more { path }
  rw [← hstart] at hloop
  rw [findingsOf_eq] at h
  rw [findingsOf_eq, findingsOf_eq, List.foldlM_append, h]
  exact hloop

/-- **A file in two parts declares what its parts do.**  Its regions are those of the first part
and, further down, those of the second; it fails where the first part does, or else where the
second one does, further down; and otherwise it has the endpoints of both and the first header. -/
theorem readSource_joined {first line second : String} (h : Separates style first line second)
    (path : String) :
    regionsOf style (joined first line second) = regionsOf style first ++
      (regionsOf style second).map (Region.moved (lowered (first.toList.count '\n' + 2))) ∧
    (∀ fault, readSource path style first = .error fault →
      readSource path style (joined first line second) = .error fault) ∧
    ∀ head, readSource path style first = .ok head →
      (∀ fault, readSource path style second = .error fault →
        readSource path style (joined first line second) =
          .error (fault.moved (lowered (first.toList.count '\n' + 2)))) ∧
      ∀ tail, readSource path style second = .ok tail →
        readSource path style (joined first line second) = .ok {
          path
          doc := head.doc.or tail.doc
          endpoints := head.endpoints ++
            tail.endpoints.map (Endpoint.moved (lowered (first.toList.count '\n' + 2))) } := by
  have hregions := regionsOf_joined h
  refine ⟨hregions, ?_, ?_⟩
  · intro fault hfault
    rw [readSource, findingsOf_eq] at hfault ⊢
    rw [hregions, List.foldlM_append, hfault]
    rfl
  · intro head hhead
    have hwhole := findingsOf_append hhead (first.toList.count '\n' + 2) (regionsOf style second)
    rw [← hregions] at hwhole
    refine ⟨?_, ?_⟩
    · intro fault hfault
      unfold readSource at hfault ⊢
      rw [hwhole, hfault]
      rfl
    · intro tail htail
      have hpath : tail.path = path := (findingsOf_endpoints htail).1
      unfold readSource at htail ⊢
      rw [hwhole, htail, ← hpath]
      rfl

/-- A file the last line of which is a comment, and one with a header. -/
def petsHead : String := "add();\n/* adds */\n// @api POST /pets add"

def petsTail : String := "// @api PUT /pets change\r\n// prose\n\n// @apidoc Pets"

theorem readSource_petsHead_petsTail : Separates .slash petsHead " change(); // here\r" petsTail ∧
    ∃ found, readSource "pets" .slash (joined petsHead " change(); // here\r" petsTail) =
        .ok found ∧
      found.endpoints.map (fun e => (e.summary, e.position)) =
        [("add", ⟨3, 4⟩), ("change", ⟨5, 4⟩)] ∧
      found.doc.map (·.title) = some "Pets" := by
  have hsep : Separates .slash petsHead " change(); // here\r" petsTail :=
    ⟨by decide +kernel, by decide +kernel, by decide +kernel, by decide +kernel, by decide⟩
  have hhead : (readSource "pets" .slash petsHead).map (fun found =>
      (found.doc.map (·.title), found.endpoints.map fun e => (e.summary, e.position))) =
      .ok (none, [("add", ⟨3, 4⟩)]) := by
    decide +kernel
  have htail : (readSource "pets" .slash petsTail).map (fun found =>
      (found.doc.map (·.title), found.endpoints.map fun e => (e.summary, e.position))) =
      .ok (some "Pets", [("change", ⟨1, 4⟩)]) := by
    decide +kernel
  obtain ⟨head, hhead, hfound⟩ := map_eq_ok.mp hhead
  obtain ⟨tail, htail, hfound'⟩ := map_eq_ok.mp htail
  obtain ⟨hdoc, hendpoints⟩ := Prod.mk.inj hfound
  obtain ⟨hdoc', hendpoints'⟩ := Prod.mk.inj hfound'
  obtain ⟨-, -, hreads⟩ := readSource_joined hsep "pets"
  refine ⟨hsep, _, (hreads head hhead).2 tail htail, ?_, ?_⟩
  · have hlowered : ∀ es : List Endpoint, (es.map (Endpoint.moved (lowered 4))).map
        (fun e => (e.summary, e.position)) =
          (es.map fun e => (e.summary, e.position)).map fun e => (e.1, lowered 4 e.2) := by
      intro es
      rw [List.map_map, List.map_map]
      rfl
    rw [List.map_append, hendpoints]
    exact congrArg _ ((hlowered tail.endpoints).trans (by rw [hendpoints']; rfl))
  · rw [Option.map_eq_none_iff.mp hdoc]
    exact hdoc'

end Annotation

end ApiNotes
