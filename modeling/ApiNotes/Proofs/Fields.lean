/-
What the fields of a body are.

A body is cut into words, and the last field takes all that is left.  Fields are split off one by
one, so the proofs go by induction on how many are asked for, and each step looks at how the text
begins: there is nothing but blanks, or a word behind some blanks.  Since blanks at the ends of a
text are in no field, it makes no difference whether a field is split as part of a body or on its
own.
-/
import ApiNotes.Proofs.Words

namespace ApiNotes

namespace Text

/-! ### The words of a text -/

/-- The words of a text: what is not empty between its blanks. -/
def words (s : List Char) : List (List Char) := (s.splitOnP isBlank).filter (!·.isEmpty)

/-- The words of a string. -/
def wordsOf (text : String) : List String := (words text.toList).map String.ofList

/-- Text with nothing but blanks in it. -/
def IsGap (s : List Char) : Prop := ∀ c ∈ s, isBlank c = true

/-- How a text begins: it is a gap, or a word stands behind a gap and goes on to a blank or to the
end of the text. -/
inductive Beginning : List Char → Prop
  | gap {s : List Char} (h : IsGap s) : Beginning s
  | word {gap w rest : List Char} (hgap : IsGap gap) (hw : IsWord w)
      (hrest : ∀ c, rest.head? = some c → isBlank c = true) : Beginning (gap ++ (w ++ rest))

theorem head?_trimStart {s : List Char} {c : Char} (h : (trimStart s).head? = some c) :
    isBlank c = false := by
  have hhead := List.head?_dropWhile_not isBlank s
  rwa [← trimStart, h] at hhead

theorem beginning (s : List Char) : Beginning s := by
  cases hstart : trimStart s with
  | nil => exact .gap (List.dropWhile_eq_nil_iff.mp hstart)
  | cons c after =>
      have hc : isBlank c = false := head?_trimStart (by rw [hstart]; rfl)
      have hs : s = s.takeWhile isBlank ++ (firstRun (c :: after) ++
          (c :: after).dropWhile fun d => !isBlank d) := by
        rw [firstRun, List.takeWhile_append_dropWhile, ← hstart]
        exact List.takeWhile_append_dropWhile.symm
      rw [hs]
      refine .word (fun d hd => List.mem_takeWhile_imp hd) ⟨?_, fun d hd => ?_⟩ fun d hd => ?_
      · simp [firstRun, hc]
      · simpa using List.mem_takeWhile_imp hd
      · have hhead := List.head?_dropWhile_not (fun d => !isBlank d) (c :: after)
        rw [hd] at hhead
        simpa using hhead

theorem words_nil : words [] = [] := rfl

/-- A blank belongs to no word, and no word goes over it. -/
theorem words_append_blank {c : Char} (hc : isBlank c = true) (a b : List Char) :
    words (a ++ c :: b) = words a ++ words b := by
  rw [words, List.splitOnP_append_cons _ _ hc, List.filter_append, ← words, ← words]

theorem words_cons_of_blank {c : Char} (hc : isBlank c = true) (s : List Char) :
    words (c :: s) = words s := by
  simpa [words_nil] using words_append_blank hc [] s

theorem words_gap_append {gap : List Char} (h : IsGap gap) (s : List Char) :
    words (gap ++ s) = words s := by
  induction gap with
  | nil => rfl
  | cons c rest ih =>
      rw [IsGap, List.forall_mem_cons] at h
      rw [List.cons_append, words_cons_of_blank h.1, ih h.2]

theorem words_of_isGap {s : List Char} (h : IsGap s) : words s = [] := by
  rw [← List.append_nil s, words_gap_append h, words_nil]

theorem words_append_gap {gap : List Char} (h : IsGap gap) (s : List Char) :
    words (s ++ gap) = words s := by
  cases gap with
  | nil => rw [List.append_nil]
  | cons c rest =>
      rw [IsGap, List.forall_mem_cons] at h
      rw [words_append_blank h.1, words_of_isGap h.2, List.append_nil]

theorem words_of_isWord {w : List Char} (h : IsWord w) : words w = [w] := by
  rw [words, List.splitOnP_eq_singleton h.filled]
  simp [h.ne_nil]

theorem words_word_append {w rest : List Char} (hw : IsWord w)
    (hrest : ∀ c, rest.head? = some c → isBlank c = true) :
    words (w ++ rest) = w :: words rest := by
  cases rest with
  | nil => rw [List.append_nil, words_of_isWord hw, words_nil]
  | cons c rest =>
      have hc : isBlank c = true := hrest c rfl
      rw [words_append_blank hc, words_of_isWord hw, words_cons_of_blank hc, List.singleton_append]

theorem ne_nil_of_mem_words {s w : List Char} (h : w ∈ words s) : w ≠ [] := by
  simpa using (List.mem_filter.mp h).2

/-! ### Text without its outer gaps -/

theorem trimEnd_append_gap {gap : List Char} (h : IsGap gap) (s : List Char) :
    trimEnd (s ++ gap) = trimEnd s := by
  have hreverse : ∀ c ∈ gap.reverse, isBlank c = true := fun c hc => h c (List.mem_reverse.mp hc)
  rw [trimEnd, List.reverse_append, List.dropWhile_append_of_pos hreverse, ← trimEnd]

theorem exists_trimEnd (s : List Char) : ∃ back, IsGap back ∧ s = trimEnd s ++ back := by
  refine ⟨(s.reverse.takeWhile isBlank).reverse,
    fun c hc => List.mem_takeWhile_imp (List.mem_reverse.mp hc), ?_⟩
  rw [trimEnd, ← List.reverse_append, List.takeWhile_append_dropWhile, List.reverse_reverse]

/-- Text stands between the gaps that are trimmed off it. -/
theorem exists_trim (s : List Char) :
    ∃ front back, IsGap front ∧ IsGap back ∧ s = front ++ (trim s ++ back) := by
  obtain ⟨back, hback, htext⟩ := exists_trimEnd (trimStart s)
  refine ⟨s.takeWhile isBlank, back, fun c hc => List.mem_takeWhile_imp hc, hback, ?_⟩
  rw [trim, ← htext]
  exact List.takeWhile_append_dropWhile.symm

theorem trimmed_trim (s : List Char) : Trimmed (trim s) where
  head := by
    intro c hc
    obtain ⟨back, -, htext⟩ := exists_trimEnd (trimStart s)
    refine head?_trimStart (s := s) ?_
    rw [htext, ← trim, List.head?_append, hc, Option.some_or]
  last := by
    intro c hc
    have hhead := List.head?_dropWhile_not isBlank (trimStart s).reverse
    rw [trim, trimEnd, List.getLast?_reverse] at hc
    rwa [hc] at hhead

theorem trim_of_isGap {s : List Char} (h : IsGap s) : trim s = [] := by
  have hstart : trimStart s = [] := List.dropWhile_eq_nil_iff.mpr h
  rw [trim, hstart]
  rfl

/-- Nothing is left when there are no words. -/
theorem trim_eq_nil_iff {s : List Char} : trim s = [] ↔ words s = [] := by
  constructor
  · intro h
    obtain ⟨front, back, hfront, hback, htext⟩ := exists_trim s
    rw [htext, h, List.nil_append, words_gap_append hfront, words_of_isGap hback]
  · intro h
    cases beginning s with
    | gap hgap => exact trim_of_isGap hgap
    | word hgap hw hrest =>
        rw [words_gap_append hgap, words_word_append hw hrest] at h
        cases h

theorem trim_append_gap {gap : List Char} (h : IsGap gap) (s : List Char) :
    trim (s ++ gap) = trim s := by
  have hstart : trimStart (s ++ gap) =
      if (trimStart s).isEmpty then trimStart gap else trimStart s ++ gap := List.dropWhile_append
  rw [trim, hstart]
  split
  · rename_i hnone
    rw [← trim, trim_of_isGap h, trim, List.isEmpty_iff.mp hnone]
    rfl
  · rw [trimEnd_append_gap h, ← trim]

/-! ### What stands behind some words -/

/-- A text in three parts: some words, all from the next word to the last, and blanks. -/
structure RestBehind (count : Nat) (s front rest back : List Char) : Prop where
  text : s = front ++ (rest ++ back)
  passed : words front = (words s).take count
  /-- The rest starts where a word does. -/
  boundary : ∀ c, front.getLast? = some c → isBlank c = true
  ne_nil : rest ≠ []
  trimmed : Trimmed rest
  gap : IsGap back

/-- Behind no words there is all but the outer gaps. -/
theorem exists_restBehind_zero {s : List Char} (h : words s ≠ []) :
    ∃ front back, RestBehind 0 s front (trim s) back := by
  obtain ⟨front, back, hfront, hback, htext⟩ := exists_trim s
  refine ⟨front, back, htext, words_of_isGap hfront, fun c hc => ?_, ?_, trimmed_trim s, hback⟩
  · exact hfront c (List.mem_of_getLast? hc)
  · rwa [ne_eq, trim_eq_nil_iff]

/-- Behind one more word there is the same. -/
theorem RestBehind.succ {count : Nat} {gap w s front rest back : List Char}
    (h : RestBehind count s front rest back) (hgap : IsGap gap) (hw : IsWord w)
    (hs : ∀ c, s.head? = some c → isBlank c = true) :
    RestBehind (count + 1) (gap ++ (w ++ s)) (gap ++ (w ++ front)) rest back := by
  have hfront : ∀ c, front.head? = some c → isBlank c = true := by
    intro c hc
    refine hs c ?_
    rw [h.text, List.head?_append, hc, Option.some_or]
  -- the word before ends at a blank, and the rest does not begin with one
  have hne : front ≠ [] := by
    rintro rfl
    obtain ⟨c, after, hrest⟩ := List.exists_cons_of_ne_nil h.ne_nil
    have hblank := hs c (by rw [h.text, hrest]; rfl)
    rw [h.trimmed.head c (by rw [hrest]; rfl)] at hblank
    cases hblank
  exact {
    text := by simp [h.text]
    passed := by
      rw [words_gap_append hgap, words_gap_append hgap, words_word_append hw hfront,
        words_word_append hw hs, h.passed, List.take_succ_cons]
    boundary := by
      intro c hc
      refine h.boundary c ?_
      rwa [List.getLast?_append, List.getLast?_append, List.getLast?_eq_some_getLast hne,
        Option.some_or, Option.some_or, ← List.getLast?_eq_some_getLast hne] at hc
    ne_nil := h.ne_nil
    trimmed := h.trimmed
    gap := h.gap }

end Text

namespace Annotation

open Text

/-! ### One field at a time -/

theorem fieldsOf_one (s : List Char) : fieldsOf 1 s = if words s = [] then [] else [trim s] := by
  simp [fieldsOf, trim_eq_nil_iff]

theorem fieldsOf_gap_append (n : Nat) {gap : List Char} (h : IsGap gap) (s : List Char) :
    fieldsOf (n + 1) (gap ++ s) = fieldsOf (n + 1) s := by
  induction gap with
  | nil => rfl
  | cons c rest ih =>
      rw [IsGap, List.forall_mem_cons] at h
      rw [List.cons_append, fieldsOf_succ_cons_of_blank n h.1, ih h.2]

theorem fieldsOf_of_isGap (n : Nat) {s : List Char} (h : IsGap s) : fieldsOf (n + 1) s = [] := by
  rw [← List.append_nil s, fieldsOf_gap_append n h, fieldsOf_succ_nil]

/-- Where more than one field is asked for, the first word is a field. -/
theorem fieldsOf_word (n : Nat) {gap w rest : List Char} (hgap : IsGap gap) (hw : IsWord w)
    (hrest : ∀ c, rest.head? = some c → isBlank c = true) :
    fieldsOf (n + 2) (gap ++ (w ++ rest)) = w :: fieldsOf (n + 1) rest := by
  rw [fieldsOf_gap_append _ hgap, fieldsOf_word_append n hw hrest]

/-- Blanks at the end are in no field. -/
theorem fieldsOf_append_gap (n : Nat) {gap : List Char} (h : IsGap gap) (s : List Char) :
    fieldsOf (n + 1) (s ++ gap) = fieldsOf (n + 1) s := by
  induction n generalizing s with
  | zero => rw [fieldsOf_one, fieldsOf_one, words_append_gap h, trim_append_gap h]
  | succ n ih =>
      cases beginning s with
      | gap hgap => rw [fieldsOf_gap_append _ hgap, fieldsOf_of_isGap _ h, fieldsOf_of_isGap _ hgap]
      | @word _ _ rest hgap hw hrest =>
          have hmore : ∀ c, (rest ++ gap).head? = some c → isBlank c = true := by
            intro c hc
            rw [List.head?_append, Option.or_eq_some_iff] at hc
            rcases hc with hc | ⟨-, hc⟩
            · exact hrest c hc
            · exact h c (List.mem_of_head? hc)
          rw [List.append_assoc, List.append_assoc, fieldsOf_word n hgap hw hmore,
            fieldsOf_word n hgap hw hrest, ih]

/-- The blanks around a text are in no field. -/
theorem fieldsOf_trim (n : Nat) (s : List Char) :
    fieldsOf (n + 1) (trim s) = fieldsOf (n + 1) s := by
  obtain ⟨front, back, hfront, hback, htext⟩ := exists_trim s
  conv_rhs => rw [htext]
  rw [fieldsOf_gap_append n hfront, fieldsOf_append_gap n hback]

/-! ### All fields -/

/-- Of few words, each is a field. -/
theorem fieldsOf_of_length_le {n : Nat} {s : List Char} (h : (words s).length ≤ n) :
    fieldsOf (n + 1) s = words s := by
  induction n generalizing s with
  | zero =>
      have hnone : words s = [] := List.length_eq_zero_iff.mp (Nat.le_zero.mp h)
      rw [fieldsOf_one, if_pos hnone, hnone]
  | succ n ih =>
      cases beginning s with
      | gap hgap => rw [fieldsOf_of_isGap _ hgap, words_of_isGap hgap]
      | word hgap hw hrest =>
          rw [words_gap_append hgap, words_word_append hw hrest] at h ⊢
          rw [fieldsOf_word n hgap hw hrest, ih (Nat.le_of_succ_le_succ h)]

/-- Of more words, the last field takes all from its word on. -/
theorem fieldsOf_of_lt_length {n : Nat} {s : List Char} (h : n < (words s).length) :
    ∃ front rest back, RestBehind n s front rest back ∧
      fieldsOf (n + 1) s = (words s).take n ++ [rest] := by
  induction n generalizing s with
  | zero =>
      have hsome : words s ≠ [] := List.ne_nil_of_length_pos h
      obtain ⟨front, back, hrest⟩ := exists_restBehind_zero hsome
      exact ⟨front, trim s, back, hrest, by rw [fieldsOf_one, if_neg hsome]; rfl⟩
  | succ n ih =>
      cases beginning s with
      | gap hgap =>
          rw [words_of_isGap hgap] at h
          cases h
      | word hgap hw hrest =>
          rw [words_gap_append hgap, words_word_append hw hrest] at h ⊢
          obtain ⟨front, last, back, hlast, hfields⟩ := ih (Nat.lt_of_succ_lt_succ h)
          refine ⟨_, last, back, hlast.succ hgap hw hrest, ?_⟩
          rw [fieldsOf_word n hgap hw hrest, hfields, List.take_succ_cons, List.cons_append]

theorem length_fieldsOf (n : Nat) (s : List Char) :
    (fieldsOf (n + 1) s).length = min (n + 1) (words s).length := by
  rcases le_or_gt (words s).length n with h | h
  · rw [fieldsOf_of_length_le h]
    omega
  · obtain ⟨_, _, _, -, hfields⟩ := fieldsOf_of_lt_length h
    rw [hfields, List.length_append, List.length_take, List.length_singleton]
    omega

/-- All fields before the last one are the words in their places. -/
theorem take_fieldsOf (n : Nat) (s : List Char) :
    (fieldsOf (n + 1) s).take n = (words s).take n := by
  rcases le_or_gt (words s).length n with h | h
  · rw [fieldsOf_of_length_le h]
  · obtain ⟨_, _, _, -, hfields⟩ := fieldsOf_of_lt_length h
    have hlength : ((words s).take n).length = n := List.length_take_of_le (Nat.le_of_lt h)
    rw [hfields, List.take_append_of_le_length hlength.ge, List.take_take, Nat.min_self]

/-- The last field that was asked for is the rest of the text behind the words before it. -/
theorem restBehind_of_fieldsOf {n : Nat} {s last : List Char}
    (h : (fieldsOf (n + 1) s)[n]? = some last) : ∃ front back, RestBehind n s front last back := by
  rcases le_or_gt (words s).length n with hfew | hmore
  · rw [fieldsOf_of_length_le hfew, List.getElem?_eq_none hfew] at h
    cases h
  · obtain ⟨front, rest, back, hrest, hfields⟩ := fieldsOf_of_lt_length hmore
    have hlength : ((words s).take n).length = n := List.length_take_of_le (Nat.le_of_lt hmore)
    rw [hfields, List.getElem?_append_right hlength.le, hlength, Nat.sub_self] at h
    cases h
    exact ⟨front, back, hrest⟩

theorem ne_nil_of_mem_fieldsOf {n : Nat} {s field : List Char} (h : field ∈ fieldsOf (n + 1) s) :
    field ≠ [] := by
  rcases le_or_gt (words s).length n with hfew | hmore
  · rw [fieldsOf_of_length_le hfew] at h
    exact ne_nil_of_mem_words h
  · obtain ⟨_, rest, _, hrest, hfields⟩ := fieldsOf_of_lt_length hmore
    rw [hfields, List.mem_append, List.mem_singleton] at h
    rcases h with h | rfl
    · exact ne_nil_of_mem_words (List.mem_of_mem_take h)
    · exact hrest.ne_nil

/-- A last field is split into the fields that would have stood in its place. -/
theorem fieldsOf_split_last (n m : Nat) {s last : List Char}
    (h : (fieldsOf (n + 1) s)[n]? = some last) :
    fieldsOf (n + m + 1) s = (fieldsOf (n + 1) s).take n ++ fieldsOf (m + 1) last := by
  induction n generalizing s with
  | zero =>
      rw [fieldsOf_one] at h
      split at h
      · cases h
      · cases h
        rw [Nat.zero_add, List.take_zero, List.nil_append, fieldsOf_trim]
  | succ n ih =>
      cases beginning s with
      | gap hgap =>
          rw [fieldsOf_of_isGap _ hgap] at h
          cases h
      | word hgap hw hrest =>
          rw [fieldsOf_word n hgap hw hrest] at h ⊢
          rw [show n + 1 + m + 1 = n + m + 2 by omega, fieldsOf_word _ hgap hw hrest, ih h,
            List.take_succ_cons, List.cons_append]

/-- When there is no last field, more fields do not make a difference. -/
theorem fieldsOf_of_no_last (n m : Nat) {s : List Char} (h : (fieldsOf (n + 1) s)[n]? = none) :
    fieldsOf (n + m + 1) s = fieldsOf (n + 1) s := by
  have hlength := List.getElem?_eq_none_iff.mp h
  rw [length_fieldsOf] at hlength
  have hfew : (words s).length ≤ n := by omega
  rw [fieldsOf_of_length_le hfew, fieldsOf_of_length_le (Nat.le_add_right_of_le hfew)]

/-! ### The fields of a body -/

/-- **Fields are words, and the last one takes the rest.**  Of the fields that are asked for there
are as many as the body has words.  Those before the last one are the words in their places; the
last one, if the words go so far, is what stands in the body from its word to the end of the last
word.  No field is empty.  Splitting the last field further gives what splitting the body at once
would have given.  A count from one on is written as a successor. -/
theorem splitFields_greedy (body : String) :
    (∀ count,
      (splitFields body (count + 1)).length = min (count + 1) (wordsOf body).length ∧
      (splitFields body (count + 1)).take count = (wordsOf body).take count ∧
      (∀ last, (splitFields body (count + 1))[count]? = some last →
        ∃ front back, RestBehind count body.toList front last.toList back) ∧
      ∀ field ∈ splitFields body (count + 1), field ≠ "") ∧
    ∀ n m, splitFields body (n + m + 1) =
      match (splitFields body (n + 1))[n]? with
      | some last => (splitFields body (n + 1)).take n ++ splitFields last (m + 1)
      | none => splitFields body (n + 1) := by
  refine ⟨fun count => ⟨?_, ?_, fun last hlast => ?_, fun field hfield => ?_⟩, fun n m => ?_⟩
  · rw [splitFields, wordsOf, List.length_map, List.length_map, length_fieldsOf]
  · rw [splitFields, wordsOf, ← List.map_take, ← List.map_take, take_fieldsOf]
  · rw [splitFields, List.getElem?_map, Option.map_eq_some_iff] at hlast
    obtain ⟨chars, hchars, rfl⟩ := hlast
    rw [String.toList_ofList]
    exact restBehind_of_fieldsOf hchars
  · obtain ⟨chars, hchars, rfl⟩ := List.mem_map.mp hfield
    rw [ne_eq, ← String.toList_inj, String.toList_ofList]
    exact ne_nil_of_mem_fieldsOf hchars
  · simp only [splitFields, List.getElem?_map]
    cases hlast : (fieldsOf (n + 1) body.toList)[n]? with
    | none => rw [fieldsOf_of_no_last n m hlast]; rfl
    | some chars =>
        rw [fieldsOf_split_last n m hlast, List.map_append, List.map_take]
        simp

/-- A last field goes over several lines and keeps them, and it is split like a body of its own. -/
theorem splitFields_notFound :
    splitFields "404 object\u00A0*\n  not  found\n" 3 = ["404", "object", "*\n  not  found"] ∧
    (∃ front back, RestBehind 2 "404 object\u00A0*\n  not  found\n".toList front
      "*\n  not  found".toList back) ∧
    splitFields "404 object\u00A0*\n  not  found\n" 4 =
      ["404", "object"] ++ splitFields "*\n  not  found" 2 ∧
    splitFields "404 object" 4 = splitFields "404 object" 3 := by
  have hfields : splitFields "404 object\u00A0*\n  not  found\n" 3 =
      ["404", "object", "*\n  not  found"] := by decide +kernel
  obtain ⟨hgreedy, hsplit⟩ := splitFields_greedy "404 object\u00A0*\n  not  found\n"
  refine ⟨hfields, (hgreedy 2).2.2.1 _ (by rw [hfields]; rfl), ?_, ?_⟩
  · rw [hsplit 2 1, hfields]
    rfl
  · have hshort : splitFields "404 object" 3 = ["404", "object"] := by decide +kernel
    rw [(splitFields_greedy "404 object").2 2 1, hshort]
    rfl

end Annotation

end ApiNotes
