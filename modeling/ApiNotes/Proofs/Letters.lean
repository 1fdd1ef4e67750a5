/-
Texts that agree up to the case of their letters.

Keywords, names of languages and extensions are compared after capitals have been read as
small letters.  Said without that detour, the texts are equally long and differ at most in
places where one has a letter of the alphabet and the other has its capital.  Letters
outside the alphabet have no capitals here.
-/
import ApiNotes.Text.Case
import Mathlib

namespace ApiNotes.Text

/-- A letter of the alphabet and its capital. -/
def CapitalOf (capital small : Char) : Prop :=
  'A' ≤ capital ∧ capital ≤ 'Z' ∧ small.toNat = capital.toNat + 32

/-- Two characters are equal, or one is the capital of the other. -/
def SameLetter (a b : Char) : Prop := a = b ∨ CapitalOf a b ∨ CapitalOf b a

/-- Two texts agree up to the case of their letters. -/
def SameLetters (a b : String) : Prop := List.Forall₂ SameLetter a.toList b.toList

theorem capitalOf_iff {capital small : Char} : CapitalOf capital small ↔
    65 ≤ capital.toNat ∧ capital.toNat ≤ 90 ∧ small.toNat = capital.toNat + 32 := Iff.rfl

theorem toNat_toLower (c : Char) :
    c.toLower.toNat = if 65 ≤ c.toNat ∧ c.toNat ≤ 90 then c.toNat + 32 else c.toNat := by
  unfold Char.toLower
  by_cases h : 65 ≤ c.toNat ∧ c.toNat ≤ 90
  · rw [if_pos h, dif_pos (show c.val ≥ 'A'.val ∧ c.val ≤ 'Z'.val from h)]
    show (c.val + 32).toNat = c.val.toNat + 32
    have hle : c.val.toNat ≤ 90 := h.2
    rw [UInt32.toNat_add]
    exact Nat.mod_eq_of_lt (by simp; omega)
  · rw [if_neg h, dif_neg (show ¬(c.val ≥ 'A'.val ∧ c.val ≤ 'Z'.val) from h)]

/-- Two characters have one small letter when they differ in case at most. -/
theorem toLower_eq_iff (a b : Char) : a.toLower = b.toLower ↔ SameLetter a b := by
  rw [← Char.toNat_inj, toNat_toLower, toNat_toLower, SameLetter, ← Char.toNat_inj,
    capitalOf_iff, capitalOf_iff]
  split_ifs <;> omega

theorem eqIgnoreCase_iff_sameLetters {a b : String} :
    eqIgnoreCase a b = true ↔ SameLetters a b := by
  have hletters : (fun a b : Char => a.toLower = b.toLower) = SameLetter :=
    funext₂ fun a b => propext (toLower_eq_iff a b)
  rw [eqIgnoreCase_iff, lower, lower, String.ofList_inj, ← List.forall₂_eq_eq_eq,
    List.forall₂_map_left_iff, List.forall₂_map_right_iff, hletters, SameLetters]

instance (a b : String) : Decidable (SameLetters a b) :=
  decidable_of_iff _ eqIgnoreCase_iff_sameLetters

theorem sameLetters_iff_lower {a b : String} : SameLetters a b ↔ lower a = lower b := by
  rw [← eqIgnoreCase_iff_sameLetters, eqIgnoreCase_iff]

theorem SameLetters.refl (a : String) : SameLetters a a := sameLetters_iff_lower.mpr rfl

theorem SameLetters.symm {a b : String} (h : SameLetters a b) : SameLetters b a :=
  sameLetters_iff_lower.mpr (sameLetters_iff_lower.mp h).symm

theorem SameLetters.trans {a b c : String} (h : SameLetters a b) (h' : SameLetters b c) :
    SameLetters a c :=
  sameLetters_iff_lower.mpr ((sameLetters_iff_lower.mp h).trans (sameLetters_iff_lower.mp h'))

end ApiNotes.Text
