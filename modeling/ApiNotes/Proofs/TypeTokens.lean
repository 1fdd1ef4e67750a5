/-
Which texts are type tokens, and what they name.

A token is cut at its dots.  The last segment says what stands innermost and every segment
before it puts an array around that, so the reading of a token is an induction over its
segments, and what it gives is known from their number and the last one alone.  The word
`array` may stand in both places: at the end it is an array of anything.
-/
import ApiNotes.Proofs.Letters
import ApiNotes.Proofs.TypeParts

namespace ApiNotes.DataType

/-! ### The grammar -/

/-- The keywords, and the kind of type that each stands for at the end of a token. -/
def keywordKinds : List (String × Kind) :=
  [("bool", .leaf .bool), ("number", .leaf .number), ("int", .leaf .number),
    ("float", .leaf .number), ("string", .leaf .string), ("object", .object), ("array", .array),
    ("none", .leaf .nothing), ("void", .leaf .nothing), ("*", .leaf .any)]

/-- A segment is a keyword for a kind of type, whatever its case. -/
def Names (segment : List Char) (kind : Kind) : Prop :=
  ∃ word, (word, kind) ∈ keywordKinds ∧ Text.SameLetters (String.ofList segment) word

/-- A segment says `array`, whatever its case. -/
def SaysArray (segment : List Char) : Prop := Text.SameLetters (String.ofList segment) "array"

instance (segment : List Char) : Decidable (SaysArray segment) :=
  inferInstanceAs (Decidable (Text.SameLetters _ _))

/-- A token has a number of segments that say `array`, and then one that names a kind. -/
def Spells (token : String) (arrays : Nat) (kind : Kind) : Prop :=
  ∃ front last, token.toList.splitOn '.' = front ++ [last] ∧ front.length = arrays ∧
    (∀ segment ∈ front, SaysArray segment) ∧ Names last kind

/-- The type of a kind, without elements, members and text. -/
def ofKind : Kind → DataType
  | .leaf kind => .leaf kind ""
  | .array => .array none ""
  | .object => .object [] ""

/-- A number of arrays around a type. -/
def arraysOf : Nat → DataType → DataType
  | 0, t => t
  | n + 1, t => .array (some (arraysOf n t)) ""

/-! ### What the segments name -/

/-- The keywords are written in small letters. -/
theorem lower_keyword {word : String} {kind : Kind} (h : (word, kind) ∈ keywordKinds) :
    Text.lower word = word := by
  have hall : ∀ e ∈ keywordKinds, Text.lower e.1 = e.1 := by decide +kernel
  exact hall _ h

theorem names_iff {segment : List Char} {kind : Kind} :
    Names segment kind ↔ (Text.lower (String.ofList segment), kind) ∈ keywordKinds := by
  constructor
  · rintro ⟨word, hword, hsame⟩
    rw [← Text.eqIgnoreCase_iff_sameLetters, Text.eqIgnoreCase_iff, lower_keyword hword] at hsame
    rwa [hsame]
  · intro h
    refine ⟨_, h, ?_⟩
    rw [← Text.eqIgnoreCase_iff_sameLetters, Text.eqIgnoreCase_iff, lower_keyword h]

/-- A segment names a type when it is a keyword for the kind of the type. -/
theorem ofKeyword?_eq_some_iff {segment : List Char} {t : DataType} :
    ofKeyword? segment = some t ↔ ∃ kind, Names segment kind ∧ t = ofKind kind := by
  simp only [names_iff]
  constructor
  · intro h
    unfold ofKeyword? at h
    split at h
    next hword => exact ⟨.array, by rw [hword]; decide, (Option.some.inj h).symm⟩
    next hword => exact ⟨.object, by rw [hword]; decide, (Option.some.inj h).symm⟩
    next =>
      obtain ⟨kind, hkind, rfl⟩ := Option.map_eq_some_iff.mp h
      refine ⟨.leaf kind, ?_, rfl⟩
      unfold leafOfKeyword? at hkind
      split at hkind <;> cases hkind <;> simp_all [keywordKinds]
  · rintro ⟨kind, hmem, rfl⟩
    unfold ofKeyword?
    simp only [keywordKinds, List.mem_cons, Prod.mk.injEq, List.not_mem_nil, or_false] at hmem
    rcases hmem with ⟨h, rfl⟩ | ⟨h, rfl⟩ | ⟨h, rfl⟩ | ⟨h, rfl⟩ | ⟨h, rfl⟩ | ⟨h, rfl⟩ | ⟨h, rfl⟩ |
      ⟨h, rfl⟩ | ⟨h, rfl⟩ | ⟨h, rfl⟩ <;> rw [h] <;> rfl

/-- Segments name a type when those before the last one all say `array` and the last one names what
is in the arrays. -/
theorem ofSegments?_eq_some_iff {front : List (List Char)} {last : List Char} {t : DataType} :
    ofSegments? (front ++ [last]) = some t ↔ (∀ segment ∈ front, SaysArray segment) ∧
      ∃ kind, Names last kind ∧ t = arraysOf front.length (ofKind kind) := by
  induction front generalizing t with
  | nil => simp [ofSegments?, ofKeyword?_eq_some_iff, arraysOf]
  | cons segment front ih =>
      have hstep : ofSegments? (segment :: front ++ [last]) =
          if Text.eqIgnoreCase (String.ofList segment) "array" then
            (ofSegments? (front ++ [last])).map fun items => .array (some items) ""
          else none := by
        rw [List.cons_append, ofSegments?]
        simp
      rw [hstep, List.forall_mem_cons]
      by_cases harray : SaysArray segment
      · rw [if_pos (Text.eqIgnoreCase_iff_sameLetters.mpr harray), Option.map_eq_some_iff]
        constructor
        · rintro ⟨items, hitems, rfl⟩
          obtain ⟨hfront, kind, hlast, rfl⟩ := ih.mp hitems
          exact ⟨⟨harray, hfront⟩, kind, hlast, rfl⟩
        · rintro ⟨⟨-, hfront⟩, kind, hlast, rfl⟩
          exact ⟨_, ih.mpr ⟨hfront, kind, hlast, rfl⟩, rfl⟩
      · rw [if_neg fun h => harray (Text.eqIgnoreCase_iff_sameLetters.mp h)]
        exact iff_of_false (by simp) fun h => harray h.1.1

/-! ### What a token names -/

/-- A token is read as the type that it spells. -/
theorem parse_eq_ok_iff {token : String} {t : DataType} :
    parse token = .ok t ↔ ∃ arrays kind, Spells token arrays kind ∧
      t = arraysOf arrays (ofKind kind) := by
  have hparse : parse token = .ok t ↔ ofSegments? (token.toList.splitOn '.') = some t := by
    unfold parse
    cases ofSegments? (token.toList.splitOn '.') <;> simp
  obtain ⟨front, last, hsplit⟩ := Text.exists_splitOn '.' token.toList
  rw [hparse, hsplit, ofSegments?_eq_some_iff]
  constructor
  · rintro ⟨hfront, kind, hlast, rfl⟩
    exact ⟨front.length, kind, ⟨front, last, hsplit, rfl, hfront, hlast⟩, rfl⟩
  · rintro ⟨-, kind, ⟨front', last', hsplit', rfl, hfront, hlast⟩, rfl⟩
    obtain ⟨rfl, hlasts⟩ := List.append_inj' (hsplit.symm.trans hsplit') rfl
    cases hlasts
    exact ⟨hfront, kind, hlast, rfl⟩

/-- A token that is not read is refused for its type. -/
theorem parse_eq_error_iff {token : String} {fault : Fault} :
    parse token = .error fault ↔
      (¬∃ t, parse token = .ok t) ∧ fault = Fault.of .invalidType "type" := by
  unfold parse
  cases ofSegments? (token.toList.splitOn '.') with
  | some t => simp
  | none => simp [eq_comm]

theorem depth_arraysOf (n : Nat) (kind : Kind) : (arraysOf n (ofKind kind)).depth = n + 1 := by
  induction n with
  | zero => cases kind <;> rfl
  | succ n ih => rw [arraysOf, depth, ih, Nat.add_comm]

theorem members?_arraysOf (n : Nat) (kind : Kind) :
    (arraysOf n (ofKind kind)).members? = if kind = .object then some [] else none := by
  induction n with
  | zero => cases kind <;> rfl
  | succ n ih => rw [arraysOf, members?, ih]

theorem bare_arraysOf (n : Nat) (kind : Kind) :
    (arraysOf n (ofKind kind)).bare = arraysOf n (ofKind kind) := by
  induction n with
  | zero => cases kind <;> rfl
  | succ n ih => rw [arraysOf, bare, ih]

/-- **Type tokens follow the grammar exactly.**  A text is read as a type when its segments are any
number of times `array` and then a keyword, and the type is that many arrays around the one that
the keyword names.  It has as many levels as the text has segments, takes members just when the
keyword is `object`, and written as a token it is read as the same type again.  Any other text is
refused for its type. -/
theorem parse_grammar (token : String) :
    (∀ t, parse token = .ok t ↔
      ∃ arrays kind, Spells token arrays kind ∧ t = arraysOf arrays (ofKind kind)) ∧
    (∀ arrays kind, Spells token arrays kind →
      (arraysOf arrays (ofKind kind)).depth = (token.toList.splitOn '.').length ∧
      ((arraysOf arrays (ofKind kind)).members?.isSome = true ↔ kind = .object) ∧
      parse (arraysOf arrays (ofKind kind)).token = .ok (arraysOf arrays (ofKind kind))) ∧
    ∀ fault, parse token = .error fault ↔
      (¬∃ arrays kind, Spells token arrays kind) ∧ fault = Fault.of .invalidType "type" := by
  refine ⟨fun t => parse_eq_ok_iff, fun arrays kind hspells => ⟨?_, ?_, ?_⟩, fun fault => ?_⟩
  · obtain ⟨front, last, hsplit, rfl, -, -⟩ := hspells
    rw [depth_arraysOf, hsplit, List.length_append, List.length_singleton]
  · rw [members?_arraysOf]
    split <;> simp_all
  · rw [parse_token, bare_arraysOf]
  · rw [parse_eq_error_iff]
    refine and_congr_left fun _ => not_congr ?_
    constructor
    · rintro ⟨t, ht⟩
      obtain ⟨arrays, kind, hspells, -⟩ := parse_eq_ok_iff.mp ht
      exact ⟨arrays, kind, hspells⟩
    · rintro ⟨arrays, kind, hspells⟩
      exact ⟨_, parse_eq_ok_iff.mpr ⟨arrays, kind, hspells, rfl⟩⟩

/-- A token in mixed case spells an object in two arrays; one with an object around a leaf spells
nothing. -/
theorem parse_gridOfObjects :
    Spells "Array.array.OBJECT" 2 .object ∧
      parse "Array.array.OBJECT" =
        .ok (.array (some (.array (some (.object [] "")) "")) "") ∧
      (arraysOf 2 (ofKind .object)).depth = 3 ∧
      parse "object.string" = .error (Fault.of .invalidType "type") := by
  have hspells : Spells "Array.array.OBJECT" 2 .object := by
    refine ⟨["Array".toList, "array".toList], "OBJECT".toList, by decide +kernel, rfl,
      by decide +kernel, names_iff.mpr (by decide +kernel)⟩
  have hnone : ¬∃ arrays kind, Spells "object.string" arrays kind := by
    rintro ⟨-, kind, ⟨front, last, hsplit, rfl, hfront, -⟩⟩
    have hpieces : "object.string".toList.splitOn '.' = ["object".toList] ++ ["string".toList] := by
      decide +kernel
    obtain ⟨rfl, -⟩ := List.append_inj' (hpieces.symm.trans hsplit) rfl
    exact absurd (hfront _ (List.mem_singleton_self _)) (by decide +kernel)
  obtain ⟨hok, hdepth, -⟩ := parse_grammar "Array.array.OBJECT"
  refine ⟨hspells, (hok _).mpr ⟨2, .object, hspells, rfl⟩, ?_, ?_⟩
  · rw [(hdepth 2 .object hspells).1]
    decide +kernel
  · exact ((parse_grammar "object.string").2.2 _).mpr ⟨hnone, rfl⟩

end ApiNotes.DataType
