import OrgForest.Text.Blank

/-!
# Tokens of a filter expression

Blanks divide the words of an expression. A token that starts with a double quote runs to the next
quote that has no backslash before it, and a backslash makes the next character stand for itself;
any other token runs to the next blank, quotes and backslashes included. A quoted token ends with
its closing quote, so another token may follow at once.
-/

namespace OrgForest.Filter

/-- A token. -/
inductive Token where
  | word (text : String)
  | quoted (text : String)
deriving DecidableEq, Repr

/-- A token as shown in a message. -/
def Token.show : Token → String
  | .word s => s
  | .quoted s => s!"\"{s}\""

/-- Where the scanner stands, with the characters of the token so far, the last one first. -/
inductive Reading where
  | outside
  | word (read : List Char)
  | quoted (read : List Char)
  | escaped (read : List Char)

/-- Characters that were collected in reverse as a text. -/
def collected (read : List Char) : String := String.ofList read.reverse

/-- The tokens of the rest of an expression, or none if a quoted token is left open. -/
def scan : Reading → List Char → Option (List Token)
  | .outside, [] => some []
  | .word read, [] => some [.word (collected read)]
  | .quoted _, [] => none
  | .escaped _, [] => none
  | .outside, c :: cs =>
    if Text.isBlank c then scan .outside cs
    else if c = '"' then scan (.quoted []) cs
    else scan (.word [c]) cs
  | .word read, c :: cs =>
    if Text.isBlank c then (scan .outside cs).map (.word (collected read) :: ·)
    else scan (.word (c :: read)) cs
  | .quoted read, c :: cs =>
    if c = '"' then (scan .outside cs).map (.quoted (collected read) :: ·)
    else if c = '\\' then scan (.escaped read) cs
    else scan (.quoted (c :: read)) cs
  | .escaped read, c :: cs => scan (.quoted (c :: read)) cs

/-- The tokens of an expression. -/
def tokens? (expression : String) : Option (List Token) := scan .outside expression.toList

end OrgForest.Filter
