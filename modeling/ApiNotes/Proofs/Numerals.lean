/-
Numbers written in decimal read back.

Statuses are table keys in a document and words in an annotation, and the keys of
examples end in a number.  What all of them rest on is that the decimal digits of a
number are digits, that there is at least one, and that their value is the number.
-/
import Mathlib
import ApiNotes.Text.Blank
import ApiNotes.Text.Digits

namespace ApiNotes.Text

theorem toList_toString_nat (n : Nat) : (toString n).toList = Nat.toDigits 10 n := Nat.toList_repr

/-- The digits of a number have the number as their value. -/
theorem decimalValue_toString (n : Nat) : decimalValue (toString n).toList = n := by
  have hvalue : decimalValue (Nat.toDigits 10 n) = Nat.ofDigitChars 10 (Nat.toDigits 10 n) 0 := rfl
  rw [toList_toString_nat, hvalue, Nat.ofDigitChars_ten_toDigits]

/-- Different numbers are written differently. -/
theorem toString_nat_inj {m n : Nat} (h : toString m = toString n) : m = n := by
  rw [← decimalValue_toString m, h, decimalValue_toString]

theorem isDigit_of_mem_toString {n : Nat} {c : Char} (h : c ∈ (toString n).toList) :
    c.isDigit = true := by
  rw [toList_toString_nat] at h
  exact Nat.isDigit_of_mem_toDigits (by decide) (by decide) h

theorem toString_nat_ne_nil (n : Nat) : (toString n).toList ≠ [] := by
  rw [toList_toString_nat]
  exact Nat.toDigits_ne_nil

/-- No digit is blank. -/
theorem isBlank_of_isDigit {c : Char} (h : c.isDigit = true) : isBlank c = false := by
  simp only [Char.isDigit, Bool.and_eq_true, decide_eq_true_eq, UInt32.le_iff_toNat_le] at h
  obtain ⟨hlo, hhi⟩ := h
  have hlo' : 48 ≤ c.toNat := hlo
  have hhi' : c.toNat ≤ 57 := hhi
  unfold isBlank
  simp only [Bool.or_eq_false_iff, Bool.and_eq_false_iff, beq_eq_false_iff_ne,
    decide_eq_false_iff_not]
  omega

/-- A number is never written as blank text. -/
theorem isBlankText_toString (n : Nat) : isBlankText (toString n) = false := by
  obtain ⟨c, rest, h⟩ := List.exists_cons_of_ne_nil (toString_nat_ne_nil n)
  have hc : c.isDigit = true := isDigit_of_mem_toString (by rw [h]; exact List.mem_cons_self)
  rw [isBlankText, h, List.all_cons, isBlank_of_isDigit hc, Bool.false_and]

end ApiNotes.Text
