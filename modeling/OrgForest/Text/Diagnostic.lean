import OrgForest.Text.Printable

/-!
# Texts shown in diagnostics

A message that shows a text puts it in double quotes and spells out what would be unreadable
there: quote and backslash with a backslash, the common controls by a letter, and every other
character that is not printable, or that joins the one before it, by its code.
-/

namespace OrgForest.Text

/-- One character as shown between the quotes. -/
def diagnosticChar (c : Char) : List Char :=
  match c with
  | '\x00' => ['\\', '0']
  | '\t' => ['\\', 't']
  | '\r' => ['\\', 'r']
  | '\n' => ['\\', 'n']
  | '"' => ['\\', '"']
  | '\\' => ['\\', '\\']
  | c =>
    if isExtending c || !isPrintable c then
      ['\\', 'u', '\x7b'] ++ Nat.toDigits 16 c.toNat ++ ['\x7d']
    else [c]

/-- A text as shown in a message. -/
def diagnostic (s : String) : String :=
  String.ofList ('"' :: (s.toList.flatMap diagnosticChar ++ ['"']))

/-- An optional value as shown in a message. -/
def diagnosticOption : Option String → String
  | some s => s!"Some({s})"
  | none => "None"

/-- Named values as shown in a message, between braces. -/
def diagnosticFields (fields : List (String × String)) : String :=
  "\x7b " ++ ", ".intercalate (fields.map fun f => s!"{f.1}: {f.2}") ++ " \x7d"

end OrgForest.Text
