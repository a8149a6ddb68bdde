/-!
# Letter case within ASCII

Keywords are compared without regard to case, and only the letters `A` to `Z` have a case here:
every other character stands for itself.
-/

namespace OrgForest.Text

/-- The text with `a` to `z` raised to capitals. -/
def upper (s : String) : String := String.ofList (s.toList.map Char.toUpper)

/-- The text with `A` to `Z` lowered. -/
def lower (s : String) : String := String.ofList (s.toList.map Char.toLower)

@[simp] theorem toList_upper (s : String) : (upper s).toList = s.toList.map Char.toUpper := by
  simp [upper]

@[simp] theorem toList_lower (s : String) : (lower s).toList = s.toList.map Char.toLower := by
  simp [lower]

end OrgForest.Text
