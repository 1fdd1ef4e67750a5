/-
JSON text gives back its tree.

A tree can be spelled in many ways, since blanks may stand wherever a value, a bracket or a
comma ends.  `Spells` lists such texts.  The reader makes the same node of all of them, by
induction on the tree: every part of a text ends with a mark of its own, so what follows it does
not matter.  The writer then only has to choose one of these spellings.  What can still be lost
are lists and tables that stand too deep in each other.
-/
import ApiNotes.Json.Reader
import ApiNotes.Json.Writer
import ApiNotes.Proofs.Held

namespace ApiNotes.Json

/-! ### Strings -/

/-- The four digits that stand for a control give back its number. -/
theorem digits?_hexDigit {n : Nat} (h : n < 0x20) :
    Text.digits? 16 ['0', '0', hexDigit (n / 16), hexDigit (n % 16)] = some n := by
  have hall : ∀ m < 0x20,
      Text.digits? 16 ['0', '0', hexDigit (m / 16), hexDigit (m % 16)] = some m := by
    decide +kernel
  exact hall n h

/-- A character of its own. -/
theorem pieces?_plain {c : Char} (hquote : c ≠ '"') (hslash : c ≠ '\\') (hc : ¬ c.toNat < 0x20)
    (s : List Char) :
    pieces? (c :: s) = (pieces? s).map fun p => (.char c :: p.1, p.2) := by
  rw [pieces?.eq_def]
  split
  · rename_i h
    cases h
  · rename_i h
    exact absurd (List.cons.inj h).1 hquote
  · rename_i h
    exact absurd (List.cons.inj h).1 hslash
  · rename_i h
    exact absurd (List.cons.inj h).1 hslash
  · rename_i h
    obtain ⟨rfl, rfl⟩ := List.cons.inj h
    rw [if_neg (by simp [hslash, hc])]
    cases pieces? _ <;> rfl

/-- A character behind a backslash. -/
theorem pieces?_short {mark c : Char} (h : escaped? mark = some c) (s : List Char) :
    pieces? ('\\' :: mark :: s) = (pieces? s).map fun p => (.char c :: p.1, p.2) := by
  have hu : mark ≠ 'u' := by
    rintro rfl
    cases h
  rw [pieces?]
  · rw [h]
    cases pieces? s <;> rfl
  · rintro _ _ _ _ _ rfl
    exact absurd rfl hu

/-- A character given by its number. -/
theorem pieces?_unit {n : Nat} {a b c d : Char} (h : Text.digits? 16 [a, b, c, d] = some n)
    (s : List Char) :
    pieces? ('\\' :: 'u' :: a :: b :: c :: d :: s) =
      (pieces? s).map fun p => (.unit n :: p.1, p.2) := by
  rw [pieces?, h]
  cases pieces? s <;> rfl

/-- A character inside a string is read as one part, which stands for the character. -/
theorem pieces?_escapeChar (c : Char) : ∃ piece,
    (∀ s, pieces? (escapeChar c ++ s) = (pieces? s).map fun p => (piece :: p.1, p.2)) ∧
      ∀ rest, ofPieces? (piece :: rest) = (ofPieces? rest).map (c :: ·) := by
  have hshort : ∀ mark, escapeChar c = ['\\', mark] → escaped? mark = some c → ∃ piece,
      (∀ s, pieces? (escapeChar c ++ s) = (pieces? s).map fun p => (piece :: p.1, p.2)) ∧
        ∀ rest, ofPieces? (piece :: rest) = (ofPieces? rest).map (c :: ·) := by
    intro mark hescape hmark
    refine ⟨.char c, fun s => ?_, fun rest => rfl⟩
    rw [hescape]
    exact pieces?_short hmark s
  by_cases hquote : c = '"'
  · exact hshort '"' (by simp [escapeChar, hquote]) (by simp [escaped?, hquote])
  by_cases hslash : c = '\\'
  · exact hshort '\\' (by simp [escapeChar, hslash]) (by simp [escaped?, hslash])
  by_cases hb : c = '\x08'
  · exact hshort 'b' (by simp [escapeChar, hb]) (by simp [escaped?, hb])
  by_cases hf : c = '\x0c'
  · exact hshort 'f' (by simp [escapeChar, hf]) (by simp [escaped?, hf])
  by_cases hn : c = '\n'
  · exact hshort 'n' (by simp [escapeChar, hn]) (by simp [escaped?, hn])
  by_cases hr : c = '\r'
  · exact hshort 'r' (by simp [escapeChar, hr]) (by simp [escaped?, hr])
  by_cases ht : c = '\t'
  · exact hshort 't' (by simp [escapeChar, ht]) (by simp [escaped?, ht])
  by_cases hcontrol : c.toNat < 0x20
  · have hhigh : isHighHalf c.toNat = false := by simp [isHighHalf]; omega
    have hlow : isLowHalf c.toNat = false := by simp [isLowHalf]; omega
    refine ⟨.unit c.toNat, fun s => ?_, fun rest => ?_⟩
    · simp only [escapeChar, hquote, hslash, hb, hf, hn, hr, ht, hcontrol, if_true, if_false]
      exact pieces?_unit (digits?_hexDigit hcontrol) s
    · rcases rest with _ | ⟨_ | _, _⟩ <;> simp [ofPieces?, hhigh, hlow]
  · refine ⟨.char c, fun s => ?_, fun rest => rfl⟩
    simp only [escapeChar, hquote, hslash, hb, hf, hn, hr, ht, hcontrol, if_false]
    exact pieces?_plain hquote hslash hcontrol s

theorem exists_pieces? (cs rest : List Char) :
    ∃ pieces, pieces? (cs.flatMap escapeChar ++ '"' :: rest) = some (pieces, rest) ∧
      ofPieces? pieces = some cs := by
  induction cs with
  | nil => exact ⟨[], by simp [pieces?], rfl⟩
  | cons c cs ih =>
      obtain ⟨pieces, hpieces, hcs⟩ := ih
      obtain ⟨piece, hread, hmeans⟩ := pieces?_escapeChar c
      refine ⟨piece :: pieces, ?_, ?_⟩
      · rw [List.flatMap_cons, List.append_assoc, hread, hpieces]
        rfl
      · rw [hmeans, hcs]
        rfl

theorem toList_quote (s : String) :
    (quote s).toList = '"' :: (s.toList.flatMap escapeChar ++ ['"']) := by
  simp [quote, String.toList_append]

/-- What stands behind an opening quote is the string that was written in quotes. -/
theorem string?_escaped (s : String) (rest : List Char) :
    string? (s.toList.flatMap escapeChar ++ '"' :: rest) = some (.text s, rest) := by
  obtain ⟨pieces, hpieces, hmeans⟩ := exists_pieces? s.toList rest
  rw [string?, hpieces]
  simp only [Option.bind_eq_bind, Option.bind_some, hmeans, String.ofList_toList]

/-! ### Spellings -/

/-- Blanks and nothing else. -/
def Gap (s : List Char) : Prop := ∀ c ∈ s, isBlank c = true

mutual

/-- A text spells a tree. -/
inductive Spells : Tree → List Char → Prop
  | text (value : String) : Spells (.text value) (quote value).toList
  | flag (value : Bool) : Spells (.flag value) (flagText value).toList
  | emptyList : Spells (.list []) ['[', ']']
  | list {items : List Tree} {gap body : List Char} (hgap : Gap gap)
      (hbody : SpellsItems items body) : Spells (.list items) ('[' :: (gap ++ body))
  | emptyTable : Spells (.table []) ['\x7b', '\x7d']
  | table {entries : List (String × Tree)} {gap body : List Char} (hgap : Gap gap)
      (hbody : SpellsEntries entries body) : Spells (.table entries) ('\x7b' :: (gap ++ body))

/-- A text spells the elements of a list and closes it. -/
inductive SpellsItems : List Tree → List Char → Prop
  | last {t : Tree} {s gap : List Char} (h : Spells t s) (hgap : Gap gap) :
    SpellsItems [t] (s ++ (gap ++ [']']))
  | more {t : Tree} {rest : List Tree} {s gap body : List Char} (h : Spells t s) (hgap : Gap gap)
      (hrest : SpellsItems rest body) : SpellsItems (t :: rest) (s ++ ',' :: (gap ++ body))

/-- A text spells the entries of a table and closes it. -/
inductive SpellsEntries : List (String × Tree) → List Char → Prop
  | last {key : String} {t : Tree} {s colon gap : List Char} (h : Spells t s)
      (hcolon : Gap colon) (hgap : Gap gap) :
    SpellsEntries [(key, t)] ((quote key).toList ++ ':' :: (colon ++ (s ++ (gap ++ ['\x7d']))))
  | more {key : String} {t : Tree} {rest : List (String × Tree)} {s colon gap body : List Char}
      (h : Spells t s) (hcolon : Gap colon) (hgap : Gap gap) (hrest : SpellsEntries rest body) :
    SpellsEntries ((key, t) :: rest)
      ((quote key).toList ++ ':' :: (colon ++ (s ++ ',' :: (gap ++ body))))

end

/-! ### The reader understands every spelling -/

theorem skipBlanks_gap {gap : List Char} (h : Gap gap) (s : List Char) :
    skipBlanks (gap ++ s) = skipBlanks s := by
  rw [skipBlanks, List.dropWhile_append_of_pos h]
  rfl

theorem skipBlanks_mark {c : Char} (h : isBlank c = false) (s : List Char) :
    skipBlanks (c :: s) = c :: s := List.dropWhile_cons_of_neg (by simp [h])

/-- A text starts like a value, and so neither with a blank nor with a closing bracket. -/
def Opens (s : List Char) : Prop := ∃ c rest, s = c :: rest ∧ c ∈ ['"', 't', 'f', '[', '\x7b']

theorem Opens.append {s : List Char} (h : Opens s) (rest : List Char) : Opens (s ++ rest) := by
  obtain ⟨c, cs, rfl, hc⟩ := h
  exact ⟨c, cs ++ rest, rfl, hc⟩

theorem Opens.skipBlanks {s : List Char} (h : Opens s) : Json.skipBlanks s = s := by
  obtain ⟨c, cs, rfl, hc⟩ := h
  refine skipBlanks_mark ?_ cs
  fin_cases hc <;> rfl

theorem opens_quote (value : String) : Opens (quote value).toList :=
  ⟨'"', _, toList_quote value, by simp⟩

theorem Spells.opens {t : Tree} {s : List Char} (h : Spells t s) : Opens s := by
  cases h with
  | text value => exact opens_quote value
  | flag value => cases value <;> exact ⟨_, _, rfl, by decide⟩
  | emptyList => exact ⟨'[', _, rfl, by simp⟩
  | list => exact ⟨'[', _, rfl, by simp⟩
  | emptyTable => exact ⟨'\x7b', _, rfl, by simp⟩
  | table => exact ⟨'\x7b', _, rfl, by simp⟩

theorem SpellsItems.opens {items : List Tree} {s : List Char} (h : SpellsItems items s) :
    Opens s := by
  cases h with
  | last h => exact h.opens.append _
  | more h => exact h.opens.append _

theorem SpellsEntries.opens {entries : List (String × Tree)} {s : List Char}
    (h : SpellsEntries entries s) : Opens s := by
  cases h with
  | last => exact (opens_quote _).append _
  | more => exact (opens_quote _).append _

/-- A list whose elements follow is read element by element. -/
theorem value?_list {s gap : List Char} (hgap : Gap gap) (h : Opens s) (fuel : Nat) :
    value? (fuel + 1) ('[' :: (gap ++ s)) =
      (elements? fuel s).map fun p => (.row p.1, p.2) := by
  rw [value?, skipBlanks_gap hgap, h.skipBlanks]
  obtain ⟨c, cs, rfl, hc⟩ := h
  split
  · rename_i heq
    rw [(List.cons.inj heq).1] at hc
    exact absurd hc (by decide)
  · rfl

/-- A table whose entries follow is read entry by entry. -/
theorem value?_table {s gap : List Char} (hgap : Gap gap) (h : Opens s) (fuel : Nat) :
    value? (fuel + 1) ('\x7b' :: (gap ++ s)) =
      (entries? fuel s).map fun p => (.table p.1, p.2) := by
  rw [value?, skipBlanks_gap hgap, h.skipBlanks]
  obtain ⟨c, cs, rfl, hc⟩ := h
  split
  · rename_i heq
    rw [(List.cons.inj heq).1] at hc
    exact absurd hc (by decide)
  · rfl

/-- The last entry of a table ends where the table is closed. -/
theorem entries?_last {key : String} {colon s gap rest : List Char} {node : Node} {fuel : Nat}
    (hcolon : Gap colon) (hs : Opens s) (hgap : Gap gap)
    (h : value? fuel s = some (node, gap ++ '\x7d' :: rest)) :
    entries? (fuel + 1) ((quote key).toList ++ ':' :: (colon ++ s)) =
      some ([(.text key, node)], rest) := by
  rw [toList_quote, List.cons_append, entries?, List.append_assoc, List.singleton_append,
    string?_escaped]
  simp only [Option.bind_eq_bind, Option.bind_some, skipBlanks_gap hcolon, hs.skipBlanks,
    skipBlanks_mark (show isBlank ':' = false from rfl), h, skipBlanks_gap hgap,
    skipBlanks_mark (show isBlank '\x7d' = false from rfl)]

/-- Behind a comma the table goes on. -/
theorem entries?_more {key : String} {colon s gap more rest : List Char} {node : Node}
    {entries : List (Node × Node)} {fuel : Nat} (hcolon : Gap colon) (hs : Opens s)
    (hgap : Gap gap) (hmore : Opens more) (h : value? fuel s = some (node, ',' :: (gap ++ more)))
    (hrest : entries? fuel more = some (entries, rest)) :
    entries? (fuel + 1) ((quote key).toList ++ ':' :: (colon ++ s)) =
      some ((.text key, node) :: entries, rest) := by
  rw [toList_quote, List.cons_append, entries?, List.append_assoc, List.singleton_append,
    string?_escaped]
  simp only [Option.bind_eq_bind, Option.bind_some, skipBlanks_gap hcolon, hs.skipBlanks,
    skipBlanks_mark (show isBlank ':' = false from rfl), h, skipBlanks_gap hgap,
    skipBlanks_mark (show isBlank ',' = false from rfl), hmore.skipBlanks, hrest]

/-- The last element of a list ends where the list is closed. -/
theorem elements?_last {s gap rest : List Char} {node : Node} {fuel : Nat} (hgap : Gap gap)
    (h : value? fuel s = some (node, gap ++ ']' :: rest)) :
    elements? (fuel + 1) s = some ([node], rest) := by
  rw [elements?, h]
  simp only [Option.bind_eq_bind, Option.bind_some, skipBlanks_gap hgap,
    skipBlanks_mark (show isBlank ']' = false from rfl)]

/-- Behind a comma the list goes on. -/
theorem elements?_more {s gap more rest : List Char} {node : Node} {items : List Node}
    {fuel : Nat} (hgap : Gap gap) (hmore : Opens more)
    (h : value? fuel s = some (node, ',' :: (gap ++ more)))
    (hrest : elements? fuel more = some (items, rest)) :
    elements? (fuel + 1) s = some (node :: items, rest) := by
  rw [elements?, h]
  simp only [Option.bind_eq_bind, Option.bind_some, skipBlanks_gap hgap,
    skipBlanks_mark (show isBlank ',' = false from rfl), hmore.skipBlanks, hrest]

mutual

/-- **Whatever spells a tree is read as the tree**, and the text behind it is left over. -/
theorem value?_of_spells : ∀ (t : Tree) {s : List Char} {fuel : Nat}, Spells t s →
    s.length < fuel → ∀ rest, value? fuel (s ++ rest) = some (Node.ofTree t, rest)
  | .text value, _, fuel + 1, h, _, rest => by
      cases h
      rw [toList_quote, List.cons_append, value?, List.append_assoc]
      exact string?_escaped value rest
  | .flag value, _, fuel + 1, h, _, rest => by
      cases h
      cases value <;> rfl
  | .list items, _, fuel + 1, h, hfuel, rest => by
      cases h with
      | emptyList => rfl
      | list hgap hbody =>
          simp only [List.length_cons, List.length_append] at hfuel
          rw [List.cons_append, List.append_assoc, value?_list hgap (hbody.opens.append rest),
            elements?_of_spells items hbody (by omega)]
          rfl
  | .table entries, _, fuel + 1, h, hfuel, rest => by
      cases h with
      | emptyTable => rfl
      | table hgap hbody =>
          simp only [List.length_cons, List.length_append] at hfuel
          rw [List.cons_append, List.append_assoc, value?_table hgap (hbody.opens.append rest),
            entries?_of_spells entries hbody (by omega)]
          rfl

theorem elements?_of_spells : ∀ (items : List Tree) {s : List Char} {fuel : Nat},
    SpellsItems items s → s.length < fuel → ∀ rest,
      elements? fuel (s ++ rest) = some (Node.ofItems items, rest)
  | [], _, _, h, _, _ => by cases h
  | t :: rest, _, fuel + 1, h, hfuel, behind => by
      cases h with
      | last h hgap =>
          simp only [List.length_append, List.length_singleton] at hfuel
          simp only [List.append_assoc, List.singleton_append]
          exact elements?_last hgap (value?_of_spells t h (by omega) _)
      | more h hgap hrest =>
          simp only [List.length_append, List.length_cons] at hfuel
          simp only [List.append_assoc, List.cons_append]
          exact elements?_more hgap (hrest.opens.append behind)
            (value?_of_spells t h (by omega) _) (elements?_of_spells rest hrest (by omega) behind)

theorem entries?_of_spells : ∀ (entries : List (String × Tree)) {s : List Char} {fuel : Nat},
    SpellsEntries entries s → s.length < fuel → ∀ rest,
      entries? fuel (s ++ rest) = some (Node.ofEntries entries, rest)
  | [], _, _, h, _, _ => by cases h
  | (key, t) :: rest, _, fuel + 1, h, hfuel, behind => by
      cases h with
      | last h hcolon hgap =>
          simp only [List.length_append, List.length_cons] at hfuel
          simp only [List.append_assoc, List.cons_append, List.nil_append]
          exact entries?_last hcolon (h.opens.append _) hgap (value?_of_spells t h (by omega) _)
      | more h hcolon hgap hrest =>
          simp only [List.length_append, List.length_cons] at hfuel
          simp only [List.append_assoc, List.cons_append]
          exact entries?_more hcolon (h.opens.append _) hgap (hrest.opens.append behind)
            (value?_of_spells t h (by omega) _) (entries?_of_spells rest hrest (by omega) behind)

end

/-! ### The writer spells its tree -/

/-- A text spells an entry: its key, a colon and its value. -/
def SpellsEntry (e : String × Tree) (s : List Char) : Prop :=
  ∃ colon value, s = (quote e.1).toList ++ ':' :: (colon ++ value) ∧ Gap colon ∧ Spells e.2 value

/-- A separator is a comma, and blanks behind it. -/
def Separates (separator : String) : Prop := ∃ gap, separator.toList = ',' :: gap ∧ Gap gap

theorem spellsItems_sepBy {separator : String} (hseparator : Separates separator)
    {gap : List Char} (hgap : Gap gap) {t : Tree} {piece : String} (h : Spells t piece.toList)
    {items : List Tree} {pieces : List String}
    (hrest : List.Forall₂ (fun t piece => Spells t piece.toList) items pieces) :
    SpellsItems (t :: items) ((sepBy separator (piece :: pieces)).toList ++ (gap ++ [']'])) := by
  induction hrest generalizing t piece with
  | nil =>
      rw [sepBy, String.intercalate_singleton]
      exact .last h hgap
  | cons hnext _ ih =>
      obtain ⟨after, hcomma, hafter⟩ := hseparator
      rw [sepBy, String.intercalate_cons_cons]
      simp only [String.toList_append, hcomma, List.append_assoc, List.cons_append]
      exact .more h hafter (ih hnext)

theorem spellsEntries_sepBy {separator : String} (hseparator : Separates separator)
    {gap : List Char} (hgap : Gap gap) {e : String × Tree} {piece : String}
    (h : SpellsEntry e piece.toList) {entries : List (String × Tree)} {pieces : List String}
    (hrest : List.Forall₂ (fun e piece => SpellsEntry e piece.toList) entries pieces) :
    SpellsEntries (e :: entries)
      ((sepBy separator (piece :: pieces)).toList ++ (gap ++ ['\x7d'])) := by
  induction hrest generalizing e piece with
  | nil =>
      obtain ⟨colon, value, hpiece, hcolon, hvalue⟩ := h
      rw [sepBy, String.intercalate_singleton, hpiece]
      simp only [List.append_assoc, List.cons_append]
      exact .last hvalue hcolon hgap
  | cons hnext _ ih =>
      obtain ⟨colon, value, hpiece, hcolon, hvalue⟩ := h
      obtain ⟨after, hcomma, hafter⟩ := hseparator
      rw [sepBy, String.intercalate_cons_cons]
      simp only [String.toList_append, hpiece, hcomma, List.append_assoc, List.cons_append]
      exact .more hvalue hcolon hafter (ih hnext)

theorem gap_blank : Gap [' '] := by
  intro c hc
  rw [List.mem_singleton.mp hc]
  rfl

theorem gap_newLine (level : Nat) : Gap (newLine level).toList := by
  intro c hc
  rw [newLine, String.toList_ofList, List.mem_cons] at hc
  rcases hc with rfl | hc
  · rfl
  · rw [List.eq_of_mem_replicate hc]
    rfl

theorem separates_newLine (level : Nat) : Separates ("," ++ newLine level) :=
  ⟨(newLine level).toList, by rw [String.toList_append]; rfl, gap_newLine level⟩

mutual

theorem spells_pretty : ∀ (t : Tree) (level : Nat), Spells t (pretty level t).toList
  | .text value, _ => .text value
  | .flag value, _ => .flag value
  | .list [], _ => by simpa [pretty, prettyItems, enclose] using Spells.emptyList
  | .list (t :: rest), level => by
      have hbody := spellsItems_sepBy (separates_newLine (level + 1)) (gap_newLine level)
        (spells_pretty t (level + 1)) (spells_prettyItems rest (level + 1))
      have hlist := Spells.list (gap_newLine (level + 1)) hbody
      simpa [pretty, prettyItems, enclose, String.toList_append] using hlist
  | .table [], _ => by simpa [pretty, prettyEntries, enclose] using Spells.emptyTable
  | .table ((key, t) :: rest), level => by
      have hentry : SpellsEntry (key, t) (quote key ++ ": " ++ pretty (level + 1) t).toList :=
        ⟨[' '], (pretty (level + 1) t).toList, by simp [String.toList_append], gap_blank,
          spells_pretty t (level + 1)⟩
      have hbody := spellsEntries_sepBy (separates_newLine (level + 1)) (gap_newLine level)
        hentry (spells_prettyEntries rest (level + 1))
      have htable := Spells.table (gap_newLine (level + 1)) hbody
      simpa [pretty, prettyEntries, enclose, String.toList_append] using htable

theorem spells_prettyItems : ∀ (items : List Tree) (level : Nat),
    List.Forall₂ (fun t piece => Spells t piece.toList) items (prettyItems level items)
  | [], _ => .nil
  | t :: rest, level => .cons (spells_pretty t level) (spells_prettyItems rest level)

theorem spells_prettyEntries : ∀ (entries : List (String × Tree)) (level : Nat),
    List.Forall₂ (fun e piece => SpellsEntry e piece.toList) entries (prettyEntries level entries)
  | [], _ => .nil
  | (key, t) :: rest, level =>
      .cons ⟨[' '], (pretty level t).toList, by simp [String.toList_append], gap_blank,
        spells_pretty t level⟩ (spells_prettyEntries rest level)

end

/-! ### Depth -/

mutual

/-- A tree that is not too deep is kept whole. -/
theorem prune_ofTree : ∀ (t : Tree) {depth : Nat}, t.depth ≤ depth →
    (Node.ofTree t).prune depth = Node.ofTree t
  | .text _, _, _ => by simp [Node.ofTree, Node.prune]
  | .flag _, _, _ => by simp [Node.ofTree, Node.prune]
  | .list items, depth + 1, h => by
      rw [Node.ofTree, Node.prune, pruneItems_ofItems items (Nat.le_of_succ_le_succ h)]
  | .table entries, depth + 1, h => by
      rw [Node.ofTree, Node.prune, pruneEntries_ofEntries entries (Nat.le_of_succ_le_succ h)]

theorem pruneItems_ofItems : ∀ (items : List Tree) {depth : Nat},
    Tree.depthItems items ≤ depth →
      Node.pruneItems depth (Node.ofItems items) = Node.ofItems items
  | [], _, _ => rfl
  | t :: rest, depth, h => by
      obtain ⟨ht, hrest⟩ := max_le_iff.mp h
      rw [Node.ofItems, Node.pruneItems, prune_ofTree t ht, pruneItems_ofItems rest hrest]

theorem pruneEntries_ofEntries : ∀ (entries : List (String × Tree)) {depth : Nat},
    Tree.depthEntries entries ≤ depth →
      Node.pruneEntries depth (Node.ofEntries entries) = Node.ofEntries entries
  | [], _, _ => rfl
  | (key, t) :: rest, depth, h => by
      obtain ⟨ht, hrest⟩ := max_le_iff.mp h
      rw [Node.ofEntries, Node.pruneEntries, prune_ofTree t ht, pruneEntries_ofEntries rest hrest]
      rfl

end

/-- **JSON gives back the tree that was written**, if it is not too deep to be read at all. -/
theorem read?_write {t : Tree} (h : t.depth ≤ 127) : read? (write t) = some (Node.ofTree t) := by
  have hspells := spells_pretty t 0
  have hread := value?_of_spells t hspells (Nat.lt_of_lt_of_le (Nat.lt_succ_self _)
    (show (pretty 0 t).toList.length + 1 ≤ 2 * (pretty 0 t).toList.length + 2 by omega)) []
  rw [List.append_nil] at hread
  rw [read?, write, hspells.opens.skipBlanks]
  simp only [hread, Option.bind_eq_bind, Option.bind_some]
  rw [prune_ofTree t h]
  rfl

end ApiNotes.Json
