/-
Blank characters and trimming.

Annotations are split on the characters of the Unicode property `White_Space`,
which is a larger set than the ASCII blanks: it holds the next-line character, the
no-break space and the typographic spaces as well, and it leaves out the
zero-width ones.  Everything that trims or splits text in this library goes through
the one predicate defined here.
-/
namespace ApiNotes.Text

/-- The characters of the property `White_Space`: 25 code points. -/
def isBlank (c : Char) : Bool :=
  let n := c.toNat
  (9 ≤ n && n ≤ 13) || n == 0x20 || n == 0x85 || n == 0xA0 || n == 0x1680 ||
    (0x2000 ≤ n && n ≤ 0x200A) || n == 0x2028 || n == 0x2029 || n == 0x202F ||
    n == 0x205F || n == 0x3000

/-- Text without its leading blanks. -/
def trimStart (s : List Char) : List Char := s.dropWhile isBlank

/-- Text without its trailing blanks. -/
def trimEnd (s : List Char) : List Char := (s.reverse.dropWhile isBlank).reverse

/-- Text without its outer blanks. -/
def trim (s : List Char) : List Char := trimEnd (trimStart s)

/-- Whether a string holds blanks only, the empty string included. -/
def isBlankText (s : String) : Bool := s.toList.all isBlank

/-- The first run of characters that are not blank, from the very start of the text. -/
def firstRun (s : List Char) : List Char := s.takeWhile fun c => !isBlank c

/-- Every blank of the ASCII class is one of ours. -/
theorem isBlank_of_isWhitespace {c : Char} (h : c.isWhitespace = true) : isBlank c = true := by
  simp only [Char.isWhitespace, Bool.or_eq_true, decide_eq_true_eq] at h
  rcases h with ((rfl | rfl) | rfl) | rfl <;> decide

example : (List.range 256).filter (fun n => isBlank (Char.ofNat n)) =
    [9, 10, 11, 12, 13, 32, 133, 160] := by
  decide +kernel

end ApiNotes.Text
