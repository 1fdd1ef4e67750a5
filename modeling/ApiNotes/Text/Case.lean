/-
Capitals and small letters.

Keywords, methods and extensions do not care about case, and none of them knows any
letters but the ASCII ones: all other characters are only equal to themselves.
-/
namespace ApiNotes.Text

/-- The text in small letters. -/
def lower (s : String) : String := String.ofList (s.toList.map Char.toLower)

/-- The text in capitals. -/
def upper (s : String) : String := String.ofList (s.toList.map Char.toUpper)

/-- Whether two texts agree once capitals are read as small letters. -/
def eqIgnoreCase (a b : String) : Bool := lower a == lower b

theorem eqIgnoreCase_iff {a b : String} : eqIgnoreCase a b = true ↔ lower a = lower b := by
  simp [eqIgnoreCase]

theorem eqIgnoreCase_refl (a : String) : eqIgnoreCase a a = true := by simp [eqIgnoreCase]

theorem eqIgnoreCase_comm (a b : String) : eqIgnoreCase a b = eqIgnoreCase b a := by
  simp [eqIgnoreCase, BEq.comm]

end ApiNotes.Text
