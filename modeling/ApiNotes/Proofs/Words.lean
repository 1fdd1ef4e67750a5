/-
Words and the text behind them.

The body of a tag is some words and a last field that takes the rest.  Written with one
blank between them they are found again, since a word has no blank to stop at before its
end and the last field has none at its own.  Whatever the tags of an annotation are, what
is in them is read through `splitFields_fielded`.
-/
import ApiNotes.Annotation.Field
import ApiNotes.Proofs.Numerals

namespace ApiNotes

namespace Text

/-! ### Words and trimmed text -/

/-- One or more characters, none of them blank. -/
structure IsWord (s : List Char) : Prop where
  ne_nil : s ≠ []
  filled : ∀ c ∈ s, isBlank c = false

/-- Text without outer blanks. -/
structure Trimmed (s : List Char) : Prop where
  head : ∀ c, s.head? = some c → isBlank c = false
  last : ∀ c, s.getLast? = some c → isBlank c = false

instance (s : List Char) : Decidable (IsWord s) :=
  decidable_of_iff (s ≠ [] ∧ s.all (!isBlank ·) = true)
    ⟨fun h => ⟨h.1, by simpa using h.2⟩, fun h => ⟨h.ne_nil, by simpa using h.filled⟩⟩

theorem optionAll_filled {c? : Option Char} :
    c?.all (!isBlank ·) = true ↔ ∀ c, c? = some c → isBlank c = false := by
  cases c? <;> simp

instance (s : List Char) : Decidable (Trimmed s) :=
  decidable_of_iff (s.head?.all (!isBlank ·) = true ∧ s.getLast?.all (!isBlank ·) = true)
    ⟨fun h => ⟨optionAll_filled.mp h.1, optionAll_filled.mp h.2⟩,
      fun h => ⟨optionAll_filled.mpr h.head, optionAll_filled.mpr h.last⟩⟩

theorem IsWord.trimmed {s : List Char} (h : IsWord s) : Trimmed s where
  head := fun c hc => h.filled c (List.mem_of_head? hc)
  last := fun c hc => h.filled c (List.mem_of_getLast? hc)

theorem IsWord.not_mem {s : List Char} (h : IsWord s) {c : Char} (hc : isBlank c = true) :
    c ∉ s := by
  intro hmem
  rw [h.filled c hmem] at hc
  cases hc

theorem trimStart_of_head {s : List Char} (h : ∀ c, s.head? = some c → isBlank c = false) :
    trimStart s = s := by
  cases s with
  | nil => rfl
  | cons c rest =>
      have hc : ¬isBlank c = true := by
        rw [h c rfl]
        simp
      exact List.dropWhile_cons_of_neg hc

theorem trimStart_cons_of_blank {c : Char} (h : isBlank c = true) (s : List Char) :
    trimStart (c :: s) = trimStart s := List.dropWhile_cons_of_pos h

theorem trimEnd_of_last {s : List Char} (h : ∀ c, s.getLast? = some c → isBlank c = false) :
    trimEnd s = s := by
  have hreverse : trimStart s.reverse = s.reverse :=
    trimStart_of_head fun c hc => h c (by rwa [List.head?_reverse] at hc)
  rw [trimEnd, ← trimStart, hreverse, List.reverse_reverse]

theorem Trimmed.trim_eq {s : List Char} (h : Trimmed s) : trim s = s := by
  rw [trim, trimStart_of_head h.head, trimEnd_of_last h.last]

theorem Trimmed.append {a b : List Char} (ha : Trimmed a) (hb : Trimmed b) (hane : a ≠ [])
    (hbne : b ≠ []) (between : List Char) : Trimmed (a ++ between ++ b) where
  head := by
    obtain ⟨x, rest, rfl⟩ := List.exists_cons_of_ne_nil hane
    exact ha.head
  last := by
    rw [List.getLast?_append, List.getLast?_eq_some_getLast hbne, Option.some_or,
      ← List.getLast?_eq_some_getLast hbne]
    exact hb.last

/-- The first run of a text that starts with a word and goes on with a blank, if at all. -/
theorem firstRun_append {w rest : List Char} (hw : IsWord w)
    (hrest : ∀ c, rest.head? = some c → isBlank c = true) : firstRun (w ++ rest) = w := by
  unfold firstRun
  rw [List.takeWhile_append_of_pos fun c hc => by rw [hw.filled c hc]; rfl]
  cases rest with
  | nil => simp
  | cons c rest =>
      simp [hrest c rfl]

/-! ### Splitting at single characters -/

/-- What stands before the first separator goes to the first piece. -/
theorem splitOn_append_left {sep : Char} {a : List Char} (h : sep ∉ a) (b : List Char) :
    (a ++ b).splitOn sep = (b.splitOn sep).modifyHead (a ++ ·) := by
  induction a with
  | nil =>
      rw [List.nil_append]
      cases b.splitOn sep <;> rfl
  | cons c rest ih =>
      rw [List.mem_cons, not_or] at h
      rw [List.cons_append, List.splitOn_cons_eq_if_modifyHead, if_neg (by simpa using Ne.symm h.1),
        ih h.2]
      cases b.splitOn sep <;> rfl

theorem tail_splitOn_append_left {sep : Char} {a : List Char} (h : sep ∉ a) (b : List Char) :
    ((a ++ b).splitOn sep).tail = (b.splitOn sep).tail := by
  rw [splitOn_append_left h]
  cases b.splitOn sep <;> rfl

/-- A text has a last piece. -/
theorem exists_splitOn (sep : Char) (s : List Char) :
    ∃ front last, s.splitOn sep = front ++ [last] :=
  ⟨_, _, (List.dropLast_concat_getLast (List.splitOn_ne_nil sep s)).symm⟩

/-- What stands before and behind the last separator. -/
theorem exists_last_separator {sep : Char} {s : List Char} (h : sep ∈ s) :
    ∃ front last, s = front ++ sep :: last ∧ sep ∉ last := by
  obtain ⟨last, front, hs, hlast⟩ := List.eq_append_cons_of_mem (List.mem_reverse.mpr h)
  refine ⟨front.reverse, last.reverse, ?_, by simpa using hlast⟩
  rw [← List.reverse_inj, hs]
  simp

/-- The pieces between separators have no separator in them. -/
theorem not_mem_of_mem_splitOn {sep : Char} {s piece : List Char} (h : piece ∈ s.splitOn sep) :
    sep ∉ piece := by
  induction s generalizing piece with
  | nil =>
      rw [List.splitOn_nil, List.mem_singleton] at h
      rw [h]
      exact List.not_mem_nil
  | cons c rest ih =>
      rw [List.splitOn_cons_eq_if_modifyHead] at h
      by_cases hc : (c == sep) = true
      · rw [if_pos hc] at h
        rcases List.mem_cons.mp h with rfl | h
        · exact List.not_mem_nil
        · exact ih h
      · rw [if_neg hc] at h
        obtain ⟨first, pieces, hsplit⟩ := List.exists_cons_of_ne_nil (List.splitOn_ne_nil sep rest)
        rw [hsplit] at h ih
        rcases List.mem_cons.mp h with rfl | h
        · intro hmem
          rcases List.mem_cons.mp hmem with rfl | hmem
          · exact hc (beq_self_eq_true sep)
          · exact ih (List.mem_cons_self ..) hmem
        · exact ih (List.mem_cons_of_mem _ h)

/-- The first occurrence of a character is found behind text that does not have it. -/
theorem cutAtFrom_singleton {c : Char} {a : List Char} (h : c ∉ a) (b : List Char) :
    ∀ passed, cutAtFrom [c] passed (a ++ c :: b) = some (passed.reverse ++ a, b) := by
  induction a with
  | nil =>
      intro passed
      simp [cutAtFrom, stripPrefix?, List.isPrefixOf?]
  | cons d rest ih =>
      intro passed
      rw [List.mem_cons, not_or] at h
      have hprefix : stripPrefix? [c] (d :: (rest ++ c :: b)) = none := by
        simp [stripPrefix?, List.isPrefixOf?, h.1]
      rw [List.cons_append, cutAtFrom, hprefix]
      simp only
      rw [ih h.2, List.reverse_cons, List.append_assoc, List.singleton_append]

theorem cutAt_singleton {c : Char} {a : List Char} (h : c ∉ a) (b : List Char) :
    cutAt [c] (a ++ c :: b) = some (a, b) := cutAtFrom_singleton h b []

theorem cutAtFrom_singleton_of_not_mem {c : Char} {s : List Char} (h : c ∉ s) :
    ∀ passed, cutAtFrom [c] passed s = none := by
  induction s with
  | nil => intro passed; rfl
  | cons d rest ih =>
      intro passed
      rw [List.mem_cons, not_or] at h
      have hprefix : stripPrefix? [c] (d :: rest) = none := by
        simp [stripPrefix?, List.isPrefixOf?, h.1]
      rw [cutAtFrom, hprefix]
      exact ih h.2 _

theorem cutAt_singleton_of_not_mem {c : Char} {s : List Char} (h : c ∉ s) : cutAt [c] s = none :=
  cutAtFrom_singleton_of_not_mem h []

/-- Pieces that no separator occurs in are found again when a separator is put between them. -/
theorem splitOnP_intercalate {p : Char → Bool} {sep : Char} (hsep : p sep = true)
    {pieces : List (List Char)} (hne : pieces ≠ []) (h : ∀ s ∈ pieces, ∀ c ∈ s, p c = false) :
    ([sep].intercalate pieces).splitOnP p = pieces := by
  induction pieces with
  | nil => exact absurd rfl hne
  | cons s rest ih =>
      rw [List.forall_mem_cons] at h
      by_cases hrest : rest = []
      · subst hrest
        rw [List.intercalate_singleton, List.splitOnP_eq_singleton h.1]
      · rw [List.intercalate_cons_of_ne_nil hrest, List.append_assoc, List.singleton_append,
          List.splitOnP_append_cons _ _ hsep, List.splitOnP_eq_singleton h.1, ih hrest h.2]
        rfl

/-- Words with a character between them that is not blank are one word. -/
theorem isWord_intercalate {sep : Char} (hsep : isBlank sep = false) {words : List String}
    (hne : words ≠ []) (h : ∀ w ∈ words, IsWord w.toList) :
    IsWord ([sep].intercalate (words.map String.toList)) := by
  induction words with
  | nil => exact absurd rfl hne
  | cons w rest ih =>
      rw [List.forall_mem_cons] at h
      by_cases hrest : rest = []
      · subst hrest
        rw [List.map_singleton, List.intercalate_singleton]
        exact h.1
      · have hword := ih hrest h.2
        rw [List.map_cons, List.intercalate_cons_of_ne_nil (by simpa using hrest)]
        refine ⟨by simp, fun c hc => ?_⟩
        rw [List.mem_append, List.mem_append] at hc
        rcases hc with (hc | hc) | hc
        · exact h.1.filled c hc
        · rw [List.mem_singleton.mp hc]
          exact hsep
        · exact hword.filled c hc

end Text

namespace Annotation

open Text

/-! ### Fields -/

/-- Words and a last field, with one blank between them; the last field may be missing. -/
def fielded (words : List String) (last : String) : List Char :=
  [' '].intercalate ((words ++ if last = "" then [] else [last]).map String.toList)

theorem fielded_nil (last : String) : fielded [] last = last.toList := by
  unfold fielded
  by_cases h : last = ""
  · rw [if_pos h, h]; rfl
  · rw [if_neg h]
    exact List.intercalate_singleton

/-- A word stands in front, then a blank if anything follows. -/
theorem fielded_cons (w : String) (words : List String) (last : String) :
    fielded (w :: words) last =
      w.toList ++ if words = [] ∧ last = "" then [] else ' ' :: fielded words last := by
  by_cases hrest : words = [] ∧ last = ""
  · rw [if_pos hrest, hrest.1, hrest.2]
    simp [fielded]
  · rw [if_neg hrest]
    have hne : (words ++ if last = "" then [] else [last]).map String.toList ≠ [] := by
      by_cases hlast : last = ""
      · simpa [hlast] using hrest
      · simp [hlast]
    unfold fielded
    rw [List.cons_append, List.map_cons, List.intercalate_cons_of_ne_nil hne, List.append_assoc,
      List.singleton_append]

theorem fieldsOf_succ_nil (n : Nat) : fieldsOf (n + 1) [] = [] := by
  cases n <;> rfl

theorem fieldsOf_succ_cons_of_blank (n : Nat) {c : Char} (hc : isBlank c = true) (s : List Char) :
    fieldsOf (n + 1) (c :: s) = fieldsOf (n + 1) s := by
  cases n with
  | zero => rw [fieldsOf, fieldsOf, trim, trimStart_cons_of_blank hc, ← trim]
  | succ n => rw [fieldsOf, fieldsOf, trimStart_cons_of_blank hc]

/-- A word in front is the first field. -/
theorem fieldsOf_word_append (n : Nat) {w rest : List Char} (hw : IsWord w)
    (hrest : ∀ c, rest.head? = some c → isBlank c = true) :
    fieldsOf (n + 2) (w ++ rest) = w :: fieldsOf (n + 1) rest := by
  obtain ⟨c, w', rfl⟩ := List.exists_cons_of_ne_nil hw.ne_nil
  have hstart : trimStart (c :: w' ++ rest) = c :: (w' ++ rest) :=
    trimStart_of_head fun d hd => hw.trimmed.head d hd
  have hrun : firstRun (c :: (w' ++ rest)) = c :: w' := firstRun_append hw hrest
  rw [fieldsOf, hstart]
  simp only [hrun]
  rw [List.length_cons, List.drop_succ_cons, List.drop_left]

/-- Written fields are found again. -/
theorem fieldsOf_fielded {words : List String} {last : String}
    (hwords : ∀ w ∈ words, IsWord w.toList) (hlast : Trimmed last.toList) :
    fieldsOf (words.length + 1) (fielded words last) =
      (words ++ if last = "" then [] else [last]).map String.toList := by
  induction words with
  | nil =>
      rw [fielded_nil, List.length_nil, fieldsOf, hlast.trim_eq]
      by_cases h : last = ""
      · simp [h]
      · simp [h]
  | cons w words ih =>
      rw [List.forall_mem_cons] at hwords
      rw [fielded_cons, List.length_cons, fieldsOf_word_append _ hwords.1, List.cons_append,
        List.map_cons]
      · congr 1
        split
        · rename_i hnone
          rw [fieldsOf_succ_nil, hnone.1, hnone.2]
          rfl
        · rw [fieldsOf_succ_cons_of_blank _ (by decide), ih hwords.2]
      · intro c hc
        split at hc
        · cases hc
        · rw [← Option.some.inj hc]
          decide

/-- Written fields are found again in a body. -/
theorem splitFields_fielded {body : String} {words : List String} {last : String}
    (hbody : body.toList = fielded words last) (hwords : ∀ w ∈ words, IsWord w.toList)
    (hlast : Trimmed last.toList) :
    splitFields body (words.length + 1) = words ++ if last = "" then [] else [last] := by
  rw [splitFields, hbody, fieldsOf_fielded hwords hlast, List.map_map]
  simp [Function.comp_def]

/-- The last field, when it is written. -/
theorem fieldAt_last (last : String) : fieldAt (if last = "" then [] else [last]) 0 = last := by
  by_cases h : last = ""
  · rw [if_pos h, h]; rfl
  · rw [if_neg h]; rfl

/-- Behind the words, only the last field goes over several lines. -/
theorem fielded_eq_append {words : List String} (hwords : ∀ w ∈ words, IsWord w.toList)
    (last : String) {sep : Char} (hsep : isBlank sep = true) (hne : sep ≠ ' ') :
    ∃ front, sep ∉ front ∧ fielded words last = front ++ last.toList := by
  induction words with
  | nil => exact ⟨[], by simp, fielded_nil last⟩
  | cons w words ih =>
      rw [List.forall_mem_cons] at hwords
      obtain ⟨front, hfront, heq⟩ := ih hwords.2
      have hw : sep ∉ w.toList := hwords.1.not_mem hsep
      rw [fielded_cons]
      split
      · rename_i hnone
        exact ⟨w.toList, hw, by rw [hnone.2]; simp⟩
      · refine ⟨w.toList ++ ' ' :: front, ?_, by rw [heq]; simp⟩
        simp [hw, hfront, hne]

theorem fielded_ne_nil {words : List String} (hne : words ≠ [])
    (hwords : ∀ w ∈ words, IsWord w.toList) (last : String) : fielded words last ≠ [] := by
  obtain ⟨w, rest, rfl⟩ := List.exists_cons_of_ne_nil hne
  rw [fielded_cons]
  simp [(hwords w List.mem_cons_self).ne_nil]

theorem fielded_trimmed {words : List String} (hne : words ≠ [])
    (hwords : ∀ w ∈ words, IsWord w.toList) {last : String} (hlast : Trimmed last.toList) :
    Trimmed (fielded words last) := by
  induction words with
  | nil => exact absurd rfl hne
  | cons w words ih =>
      rw [List.forall_mem_cons] at hwords
      rw [fielded_cons]
      split
      · rw [List.append_nil]
        exact hwords.1.trimmed
      · rename_i hmore
        have hrest : Trimmed (fielded words last) ∧ fielded words last ≠ [] := by
          by_cases hwords' : words = []
          · subst hwords'
            rw [fielded_nil]
            exact ⟨hlast, by simpa using hmore⟩
          · exact ⟨ih hwords' hwords.2, fielded_ne_nil hwords' hwords.2 last⟩
        have happend := hwords.1.trimmed.append hrest.1 hwords.1.ne_nil hrest.2 [' ']
        rwa [List.append_assoc, List.singleton_append] at happend

end Annotation

end ApiNotes
