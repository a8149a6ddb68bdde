/-!
# Blank characters and trimming

A character is blank when it carries the Unicode property White_Space. Every rule of this library
that trims, or that ends a word at a blank, uses this set and no other: the zero-width space and
the byte order mark are not in it.
-/

namespace OrgForest.Text

/-- Whether a character has the property White_Space. -/
def isBlank (c : Char) : Bool :=
  let n := c.toNat
  (0x9 ≤ n && n ≤ 0xD) || n == 0x20 || n == 0x85 || n == 0xA0 || n == 0x1680
    || (0x2000 ≤ n && n ≤ 0x200A) || n == 0x2028 || n == 0x2029 || n == 0x202F || n == 0x205F
    || n == 0x3000

/-- Drops the blanks in front. -/
def trimLeft (cs : List Char) : List Char := cs.dropWhile isBlank

/-- Drops the blanks at the end. -/
def trimRight (cs : List Char) : List Char := (cs.reverse.dropWhile isBlank).reverse

/-- Drops the blanks at both ends. -/
def trim (cs : List Char) : List Char := trimRight (trimLeft cs)

/-- A text without the blanks at its ends. -/
def trimmed (s : String) : String := String.ofList (trim s.toList)

@[simp] theorem toList_trimmed (s : String) : (trimmed s).toList = trim s.toList := by
  simp [trimmed]

end OrgForest.Text
