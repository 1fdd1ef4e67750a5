/-
Tags written down and cut apart again.

An annotation is cut into tags line by line: a line that opens a tag starts one, any other
line goes to the tag before it.  Written one below the other, tags are found again when
each is `Readable`, that is, when its body has no outer blanks and no line in it, after
the first, would open a tag of its own.  Where the tags stand is lost on the way, but for
the first one, which stands where the annotation does.
-/
import ApiNotes.Annotation.Tag
import ApiNotes.Proofs.Checks
import ApiNotes.Proofs.Words

namespace ApiNotes

namespace Text

/-! ### Lines -/

theorem splitOn_joinLines {texts : List (List Char)} (hne : texts ≠ []) :
    (joinLines texts).splitOn '\n' = texts.flatMap (·.splitOn '\n') := by
  induction texts with
  | nil => exact absurd rfl hne
  | cons text rest ih =>
      by_cases hrest : rest = []
      · subst hrest
        simp [joinLines, List.intercalate_singleton]
      · rw [joinLines, List.intercalate_cons_of_ne_nil hrest, List.append_assoc,
          List.singleton_append, List.splitOn_append_cons_self, ← joinLines, ih hrest,
          List.flatMap_cons]

/-- The last piece of a text that does not end with a separator is not empty. -/
theorem getLastD_splitOn_ne_nil {sep : Char} {s : List Char} (hne : s ≠ [])
    (hlast : s.getLast? ≠ some sep) : (s.splitOn sep).getLastD [] ≠ [] := by
  induction s with
  | nil => exact absurd rfl hne
  | cons c rest ih =>
      by_cases hrest : rest = []
      · subst hrest
        have hc : ¬c = sep := fun h => hlast (by rw [h]; rfl)
        rw [List.splitOn_eq_singleton (by simpa using Ne.symm hc)]
        simp
      · have hlast' : rest.getLast? ≠ some sep := by
          rwa [List.getLast?_cons_of_ne_nil hrest] at hlast
        have hpieces := ih hrest hlast'
        rw [List.splitOn_cons_eq_if_modifyHead]
        obtain ⟨piece, pieces, hsplit⟩ := List.exists_cons_of_ne_nil (List.splitOn_ne_nil sep rest)
        rw [hsplit] at hpieces ⊢
        split
        · simpa using hpieces
        · cases pieces with
          | nil => simp
          | cons piece' pieces => simpa using hpieces

theorem dropReturn_of_getLast? {line : List Char} (h : line.getLast? ≠ some '\r') :
    dropReturn line = line := if_neg h

theorem dropReturn_leads (line : List Char) : dropReturn line <+: line := by
  unfold dropReturn
  split
  · exact List.dropLast_prefix line
  · exact List.prefix_refl line

theorem lines_of_splitOn {s last : List Char} {front : List (List Char)}
    (h : s.splitOn '\n' = front ++ [last]) :
    lines s = front.map dropReturn ++ if last.isEmpty then [] else [last] := by
  unfold lines
  simp [h]

/-- Lines are the pieces between line feeds, when no piece ends with a carriage return and the
last one is not empty. -/
theorem lines_eq_splitOn {s : List Char}
    (hreturns : ∀ line ∈ s.splitOn '\n', line.getLast? ≠ some '\r')
    (hlast : (s.splitOn '\n').getLastD [] ≠ []) : lines s = s.splitOn '\n' := by
  obtain ⟨front, last, hsplit⟩ := exists_splitOn '\n' s
  rw [lines_of_splitOn hsplit]
  simp only [hsplit] at hreturns hlast ⊢
  have hfront : front.map dropReturn = front := by
    rw [List.map_congr_left fun line hline =>
      dropReturn_of_getLast? (hreturns line (List.mem_append_left _ hline))]
    exact List.map_id front
  have hempty : last.isEmpty = false := by
    simpa using hlast
  simp [hfront, hempty]

/-- No letter is blank. -/
theorem isBlank_of_isAlpha {c : Char} (h : c.isAlpha = true) : isBlank c = false := by
  simp only [Char.isAlpha, Char.isUpper, Char.isLower, Bool.or_eq_true, Bool.and_eq_true,
    decide_eq_true_eq, UInt32.le_iff_toNat_le] at h
  have hrange : (65 ≤ c.toNat ∧ c.toNat ≤ 90) ∨ (97 ≤ c.toNat ∧ c.toNat ≤ 122) := h
  unfold isBlank
  simp only [Bool.or_eq_false_iff, Bool.and_eq_false_iff, beq_eq_false_iff_ne,
    decide_eq_false_iff_not]
  omega

end Text

namespace Annotation

open Text

/-! ### Tags without their places -/

/-- A tag as it is written: its name and its body. -/
structure Mark where
  name : String
  body : List Char

/-- A tag, wherever it stands. -/
def Tag.mark (tag : Tag) : Mark := ⟨tag.name, tag.body.toList⟩

/-- The text of a tag. -/
def Mark.text (m : Mark) : List Char := '@' :: m.name.toList ++ ' ' :: m.body

/-- Tags, one below the other. -/
def written (marks : List Mark) : List Char := joinLines (marks.map Mark.text)

/-- A text that can run on behind the name of a tag. -/
structure Running (s : List Char) : Prop where
  trimmed : Trimmed s
  /-- No line, but perhaps the first, opens a tag. -/
  prose : ∀ line ∈ (s.splitOn '\n').tail, lineKind line = .prose
  /-- No line ends with a carriage return, which would be taken for part of a line break. -/
  returns : ∀ line ∈ s.splitOn '\n', line.getLast? ≠ some '\r'

/-- A tag that is read as it was written. -/
structure Mark.Readable (m : Mark) : Prop where
  name_ne_nil : m.name.toList ≠ []
  name_alpha : m.name.toList.all Char.isAlpha = true
  body_ne_nil : m.body ≠ []
  running : Running m.body

instance (s : List Char) : Decidable (Running s) :=
  decidable_of_iff (Trimmed s ∧ (∀ line ∈ (s.splitOn '\n').tail, lineKind line = .prose) ∧
      ∀ line ∈ s.splitOn '\n', line.getLast? ≠ some '\r')
    ⟨fun h => ⟨h.1, h.2.1, h.2.2⟩, fun h => ⟨h.trimmed, h.prose, h.returns⟩⟩

theorem running_of_line {s : List Char} (h : Trimmed s) (hline : '\n' ∉ s) : Running s where
  trimmed := h
  prose := by
    rw [List.splitOn_eq_singleton hline]
    simp
  returns := by
    rw [List.splitOn_eq_singleton hline]
    intro line hmem hreturn
    rw [List.mem_singleton.mp hmem] at hreturn
    exact absurd (h.last _ hreturn) (by decide)

/-- Words can run on behind a tag, whatever runs on behind them. -/
theorem running_fielded {words : List String} (hne : words ≠ [])
    (hwords : ∀ w ∈ words, IsWord w.toList) {last : String} (hlast : Running last.toList) :
    Running (fielded words last) := by
  obtain ⟨front, hfront, heq⟩ : ∃ front, '\n' ∉ front ∧ fielded words last = front ++ last.toList :=
    fielded_eq_append hwords last (by decide) (by decide)
  refine ⟨fielded_trimmed hne hwords hlast.trimmed, ?_, ?_⟩
  · rw [heq, tail_splitOn_append_left hfront]
    exact hlast.prose
  · -- the first line ends as the last field does, or as the last word
    have htrimmed := fielded_trimmed hne hwords hlast.trimmed
    rw [heq] at htrimmed ⊢
    rw [splitOn_append_left hfront]
    obtain ⟨line, lines, hsplit⟩ :=
      List.exists_cons_of_ne_nil (List.splitOn_ne_nil '\n' last.toList)
    have hreturns := hlast.returns
    rw [hsplit, List.forall_mem_cons] at hreturns
    rw [hsplit, List.modifyHead_cons, List.forall_mem_cons]
    refine ⟨?_, hreturns.2⟩
    by_cases hline : line = []
    · subst hline
      have hjoin : ['\n'].intercalate (last.toList.splitOn '\n') = last.toList :=
        List.intercalate_splitOn '\n'
      rw [hsplit] at hjoin
      by_cases hlines : lines = []
      · rw [hlines, List.intercalate_singleton] at hjoin
        rw [← hjoin] at htrimmed
        intro hreturn
        exact absurd (htrimmed.last _ hreturn) (by decide)
      · rw [List.intercalate_cons_of_ne_nil hlines] at hjoin
        exact absurd (hlast.trimmed.head '\n' (by rw [← hjoin]; rfl)) (by decide)
    · rw [List.getLast?_append, List.getLast?_eq_some_getLast hline, Option.some_or,
        ← List.getLast?_eq_some_getLast hline]
      exact hreturns.1

/-- A text that can stand on lines of its own below the first line of a tag. -/
structure Standing (s : List Char) : Prop where
  last : ∀ c, s.getLast? = some c → isBlank c = false
  /-- No line opens a tag. -/
  prose : ∀ line ∈ s.splitOn '\n', lineKind line = .prose
  returns : ∀ line ∈ s.splitOn '\n', line.getLast? ≠ some '\r'

instance (s : List Char) : Decidable (Standing s) :=
  decidable_of_iff (s.getLast?.all (!isBlank ·) = true ∧
      (∀ line ∈ s.splitOn '\n', lineKind line = .prose) ∧
      ∀ line ∈ s.splitOn '\n', line.getLast? ≠ some '\r')
    ⟨fun h => ⟨optionAll_filled.mp h.1, h.2.1, h.2.2⟩,
      fun h => ⟨optionAll_filled.mpr h.last, h.prose, h.returns⟩⟩

/-- A line and the text below it, if any. -/
def headed (line : List Char) (below : String) : List Char :=
  line ++ if below = "" then [] else '\n' :: below.toList

theorem running_headed {line : List Char} (hne : line ≠ []) (hline : '\n' ∉ line)
    (htrimmed : Trimmed line) {below : String} (hbelow : Standing below.toList) :
    Running (headed line below) := by
  unfold headed
  by_cases hempty : below = ""
  · rw [if_pos hempty, List.append_nil]
    exact running_of_line htrimmed hline
  · rw [if_neg hempty]
    have hsplit : (line ++ '\n' :: below.toList).splitOn '\n' =
        line :: below.toList.splitOn '\n' := by
      rw [List.splitOn_append_cons_self, List.splitOn_eq_singleton hline]
      rfl
    have hbelowNe : below.toList ≠ [] := by simpa using hempty
    refine ⟨⟨?_, ?_⟩, ?_, ?_⟩
    · obtain ⟨c, rest, rfl⟩ := List.exists_cons_of_ne_nil hne
      exact htrimmed.head
    · rw [List.getLast?_append, List.getLast?_cons_of_ne_nil hbelowNe,
        List.getLast?_eq_some_getLast hbelowNe, Option.some_or,
        ← List.getLast?_eq_some_getLast hbelowNe]
      exact hbelow.last
    · rw [hsplit]
      exact hbelow.prose
    · rw [hsplit, List.forall_mem_cons]
      exact ⟨fun hreturn => absurd (htrimmed.last _ hreturn) (by decide), hbelow.returns⟩

/-- The line in front and the text below are cut apart again. -/
theorem headAndTail_headed {body : String} {line : List Char} {below : String}
    (hbody : body.toList = headed line below) (hline : '\n' ∉ line) (htrimmed : Trimmed line)
    (hbelow : Trimmed below.toList) : headAndTail body = (String.ofList line, below) := by
  unfold headAndTail
  rw [hbody, headed]
  by_cases hempty : below = ""
  · rw [if_pos hempty, List.append_nil, cutAt_singleton_of_not_mem hline, hempty]
    simp only [htrimmed.trim_eq]
  · rw [if_neg hempty, cutAt_singleton hline]
    simp only [htrimmed.trim_eq, hbelow.trim_eq, String.ofList_toList]

/-- The lines of a tag: the opener with the first line of the body, and the rest of the body. -/
theorem splitOn_text {m : Mark} (h : m.Readable) : ∃ first rest,
    m.body.splitOn '\n' = first :: rest ∧ first ≠ [] ∧
      (∀ c, first.head? = some c → isBlank c = false) ∧
      m.text.splitOn '\n' = ('@' :: m.name.toList ++ ' ' :: first) :: rest := by
  obtain ⟨first, rest, hsplit⟩ := List.exists_cons_of_ne_nil (List.splitOn_ne_nil '\n' m.body)
  obtain ⟨c, body, hbody⟩ := List.exists_cons_of_ne_nil h.body_ne_nil
  have hc : isBlank c = false := h.running.trimmed.head c (by rw [hbody]; rfl)
  have hnewline : c ≠ '\n' := by
    rintro rfl
    exact absurd hc (by decide)
  -- the body does not start with a line feed, so its first line starts as the body does
  obtain ⟨first', hfirst⟩ : ∃ first', first = c :: first' := by
    rw [hbody, List.splitOn_cons_eq_if_modifyHead, if_neg (by simpa using hnewline)] at hsplit
    cases hpieces : body.splitOn '\n' with
    | nil => exact absurd hpieces (List.splitOn_ne_nil '\n' body)
    | cons piece pieces =>
        rw [hpieces] at hsplit
        exact ⟨piece, (List.cons.inj hsplit).1.symm⟩
  refine ⟨first, rest, hsplit, by rw [hfirst]; simp, ?_, ?_⟩
  · intro d hd
    rw [hfirst] at hd
    rw [← Option.some.inj hd]
    exact hc
  · have hfront : '\n' ∉ '@' :: m.name.toList ++ [' '] := by
      have hname : '\n' ∉ m.name.toList := by
        intro hmem
        have halpha := List.all_eq_true.mp h.name_alpha _ hmem
        exact absurd halpha (by decide)
      simp [hname]
    have htext : m.text = ('@' :: m.name.toList ++ [' ']) ++ m.body := by simp [Mark.text]
    rw [htext, splitOn_append_left hfront, hsplit]
    simp

theorem isWord_opener {m : Mark} (h : m.Readable) : IsWord ('@' :: m.name.toList) where
  ne_nil := by simp
  filled := by
    rw [List.forall_mem_cons]
    exact ⟨by decide, fun c hc => isBlank_of_isAlpha (List.all_eq_true.mp h.name_alpha c hc)⟩

theorem lineKind_opener {m : Mark} (h : m.Readable) {first : List Char}
    (hfirst : ∀ c, first.head? = some c → isBlank c = false) :
    lineKind ('@' :: m.name.toList ++ ' ' :: first) = .opener m.name.toList first := by
  have hstart : trimStart ('@' :: m.name.toList ++ ' ' :: first) =
      '@' :: m.name.toList ++ ' ' :: first := by
    refine trimStart_of_head fun c hc => ?_
    rw [← Option.some.inj hc]
    decide
  have hrun : firstRun ('@' :: m.name.toList ++ ' ' :: first) = '@' :: m.name.toList := by
    refine firstRun_append (isWord_opener h) fun c hc => ?_
    rw [← Option.some.inj hc]
    decide
  have hname : tagName? ('@' :: m.name.toList) = some m.name.toList := by
    simp [tagName?, h.name_alpha, h.name_ne_nil]
  unfold lineKind
  simp only [hstart, hrun, hname, List.drop_left]
  rw [trimStart_cons_of_blank (by decide), trimStart_of_head hfirst]

/-! ### Cutting -/

/-- Lines that open no tag go to the tag before them. -/
theorem cutLines_prose {origin : Position} {lines : List (List Char)}
    (h : ∀ line ∈ lines, lineKind line = .prose) (rest : List (List Char)) :
    ∀ index, cutLines origin index (lines ++ rest) =
      (cutLines origin (index + lines.length) rest).map fun cut => (lines ++ cut.1, cut.2) := by
  induction lines with
  | nil =>
      intro index
      rw [List.nil_append, List.length_nil, Nat.add_zero]
      cases cutLines origin index rest <;> rfl
  | cons line lines ih =>
      intro index
      rw [List.forall_mem_cons] at h
      rw [List.cons_append, cutLines, h.1]
      simp only
      rw [ih h.2, List.length_cons, Nat.add_assoc, Nat.add_comm 1 lines.length]
      cases cutLines origin (index + (lines.length + 1)) rest <;> rfl

/-- The lines of written tags are cut into those tags. -/
theorem cutLines_written (origin : Position) {marks : List Mark}
    (h : ∀ m ∈ marks, m.Readable) :
    ∀ index, ∃ tags,
      cutLines origin index (marks.flatMap fun m => m.text.splitOn '\n') = .ok ([], tags) ∧
      tags.map Tag.mark = marks ∧
      ∀ tag ∈ tags.head?, tag.position =
        { line := origin.line + index, column := if index = 0 then origin.column else 1 } := by
  induction marks with
  | nil => exact fun index => ⟨[], rfl, rfl, by simp⟩
  | cons m marks ih =>
      intro index
      rw [List.forall_mem_cons] at h
      obtain ⟨first, rest, hbody, hne, hfirst, htext⟩ := splitOn_text h.1
      have hprose : ∀ line ∈ rest, lineKind line = .prose := by
        have hprose' := h.1.running.prose
        rwa [hbody] at hprose'
      obtain ⟨tags, htags, hmarks, -⟩ := ih h.2 (index + 1 + rest.length)
      have hjoin : joinLines (first :: rest) = m.body := by
        rw [← hbody]
        exact List.intercalate_splitOn '\n'
      have hbodyText : String.ofList m.name.toList = m.name ∧
          trimEnd (joinLines (first :: (rest ++ []))) = m.body := by
        rw [List.append_nil, hjoin, trimEnd_of_last h.1.running.trimmed.last]
        exact ⟨String.ofList_toList, rfl⟩
      have hposition : linePosition origin index ('@' :: m.name.toList ++ ' ' :: first) =
          { line := origin.line + index, column := if index = 0 then origin.column else 1 } := by
        simp [linePosition, show isBlank '@' = false by decide]
      refine ⟨⟨m.name, String.ofList m.body,
        { line := origin.line + index, column := if index = 0 then origin.column else 1 }⟩ :: tags,
        ?_, ?_, ?_⟩
      · rw [List.flatMap_cons, htext, List.cons_append, cutLines, lineKind_opener h.1 hfirst]
        simp only
        rw [cutLines_prose hprose, htags, ← hposition]
        simp only [Except.map, bind, Except.bind, hbodyText.1, hbodyText.2]
      · rw [List.map_cons, hmarks]
        simp [Tag.mark]
      · intro tag htag
        rw [← Option.some.inj htag]

theorem getLast?_joinLines {texts : List (List Char)} (hne : texts ≠ [])
    (h : ∀ text ∈ texts, text ≠ []) :
    ∃ text ∈ texts, (joinLines texts).getLast? = text.getLast? := by
  induction texts with
  | nil => exact absurd rfl hne
  | cons text rest ih =>
      rw [List.forall_mem_cons] at h
      by_cases hrest : rest = []
      · subst hrest
        exact ⟨text, List.mem_cons_self, by rw [joinLines, List.intercalate_singleton]⟩
      · obtain ⟨last, hlast, heq⟩ := ih hrest h.2
        have hsome : (joinLines rest).getLast? ≠ none := by
          rw [heq, Ne, List.getLast?_eq_none_iff]
          exact h.2 last hlast
        refine ⟨last, List.mem_cons_of_mem text hlast, ?_⟩
        rw [joinLines, List.intercalate_cons_of_ne_nil hrest, ← joinLines, List.getLast?_append]
        obtain ⟨c, hc⟩ := Option.ne_none_iff_exists'.mp hsome
        rw [hc, Option.some_or, ← hc, heq]

theorem getLast?_written {marks : List Mark} (hne : marks ≠ []) (h : ∀ m ∈ marks, m.Readable) :
    ∃ c, (written marks).getLast? = some c ∧ isBlank c = false := by
  have htexts : ∀ text ∈ marks.map Mark.text, text ≠ [] := by
    intro text htext
    obtain ⟨m, -, rfl⟩ := List.mem_map.mp htext
    simp [Mark.text]
  obtain ⟨text, htext, heq⟩ := getLast?_joinLines (by simpa using hne) htexts
  obtain ⟨m, hm, rfl⟩ := List.mem_map.mp htext
  have hbody := (h m hm).body_ne_nil
  have hlast : m.text.getLast? = some (m.body.getLast hbody) := by
    rw [Mark.text, List.getLast?_append, List.getLast?_cons_of_ne_nil hbody,
      List.getLast?_eq_some_getLast hbody, Option.some_or]
  exact ⟨_, heq.trans hlast, (h m hm).running.trimmed.last _ (List.getLast?_eq_some_getLast hbody)⟩

/-- **Tags written one below the other are found again,** the first of them where the annotation
starts. -/
theorem tagsOf_written (origin : Position) {marks : List Mark} (hne : marks ≠ [])
    (h : ∀ m ∈ marks, m.Readable) :
    ∃ tags, tagsOf (String.ofList (written marks)) origin = .ok tags ∧
      tags.map Tag.mark = marks ∧ ∀ tag ∈ tags.head?, tag.position = origin := by
  have hsplit : (written marks).splitOn '\n' = marks.flatMap fun m => m.text.splitOn '\n' := by
    rw [written, splitOn_joinLines (by simpa using hne), List.flatMap_map]
  have hreturns : ∀ line ∈ (written marks).splitOn '\n', line.getLast? ≠ some '\r' := by
    intro line hline
    rw [hsplit, List.mem_flatMap] at hline
    obtain ⟨m, hm, hline⟩ := hline
    obtain ⟨first, rest, hbody, hfirst, -, htext⟩ := splitOn_text (h m hm)
    rw [htext, List.mem_cons] at hline
    have hlines := (h m hm).running.returns
    rw [hbody, List.forall_mem_cons] at hlines
    rcases hline with rfl | hline
    · rw [List.getLast?_append, List.getLast?_cons_of_ne_nil hfirst,
        List.getLast?_eq_some_getLast hfirst, Option.some_or,
        ← List.getLast?_eq_some_getLast hfirst]
      exact hlines.1
    · exact hlines.2 line hline
  have hlast : ((written marks).splitOn '\n').getLastD [] ≠ [] := by
    obtain ⟨c, hc, hblank⟩ := getLast?_written hne h
    refine getLastD_splitOn_ne_nil ?_ ?_
    · intro hnil
      rw [hnil] at hc
      cases hc
    · rw [hc, Ne, Option.some.injEq]
      rintro rfl
      exact absurd hblank (by decide)
  obtain ⟨tags, htags, hmarks, hposition⟩ := cutLines_written origin h 0
  refine ⟨tags, ?_, hmarks, ?_⟩
  · rw [tagsOf, String.toList_ofList, lines_eq_splitOn hreturns hlast, hsplit, htags]
    rfl
  · intro tag htag
    rw [hposition tag htag]
    rfl

end Annotation

end ApiNotes
