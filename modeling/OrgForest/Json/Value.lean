import OrgForest.Json.Number

/-!
# JSON values and their compact text

A value is a tree. The members of an object stand in a list; a value that was read or built by
`Json.ofMembers` has them in the order of their names, each name once, while a record that is
written field by field keeps the order of its fields. The compact text follows the list.
-/

namespace OrgForest

/-- A JSON value. -/
inductive Json where
  | null
  | bool (value : Bool)
  | number (value : Json.Number)
  | string (text : String)
  | array (items : List Json)
  | object (members : List (String × Json))

namespace Json

instance : Inhabited Json := ⟨.null⟩

/-! ## Objects in the order of their names -/

/-- Puts a member at its place by name; a later member of the same name takes the place of an
earlier one. -/
def insertMember (name : String) (value : Json) : List (String × Json) → List (String × Json)
  | [] => [(name, value)]
  | (n, v) :: ms =>
    match compare name n with
    | .lt => (name, value) :: (n, v) :: ms
    | .eq => (name, value) :: ms
    | .gt => (n, v) :: insertMember name value ms

/-- Members put in the order of their names. -/
def sortMembers (ms : List (String × Json)) : List (String × Json) :=
  ms.foldl (fun sorted m => insertMember m.1 m.2 sorted) []

/-- The object with these members. -/
def ofMembers (ms : List (String × Json)) : Json := .object (sortMembers ms)

/-- The member of an object by name. -/
def get? (name : String) : Json → Option Json
  | .object ms => (ms.find? (·.1 == name)).map (·.2)
  | _ => none

/-- A text, or null for none. -/
def ofText? (s : Option String) : Json := (s.map Json.string).getD .null

/-- An unsigned word. -/
def ofUInt64 (n : UInt64) : Json := .number (.ofUInt64 n)

/-- A signed word. -/
def ofInt64 (i : Int64) : Json := .number (.ofInt64 i)

/-! ## Compact text -/

/-- A digit of a four-digit escape. -/
def hexDigit (n : Nat) : Char := (Nat.toDigits 16 n).headD '0'

/-- How one character is written inside quotes: the quote, the backslash and the control
characters are escaped, and nothing else. -/
def writeChar (c : Char) : List Char :=
  match c with
  | '"' => ['\\', '"']
  | '\\' => ['\\', '\\']
  | '\x08' => ['\\', 'b']
  | '\x0c' => ['\\', 'f']
  | '\n' => ['\\', 'n']
  | '\r' => ['\\', 'r']
  | '\t' => ['\\', 't']
  | c =>
    if c.toNat < 0x20 then ['\\', 'u', '0', '0', hexDigit (c.toNat / 16), hexDigit (c.toNat % 16)]
    else [c]

/-- A text in quotes. -/
def writeText (s : String) : List Char := '"' :: (s.toList.flatMap writeChar ++ ['"'])

mutual

/-- The compact text of a value: no blank stands between its parts. -/
def write : Json → List Char
  | .null => ['n', 'u', 'l', 'l']
  | .bool true => ['t', 'r', 'u', 'e']
  | .bool false => ['f', 'a', 'l', 's', 'e']
  | .number n => n.write
  | .string s => writeText s
  | .array items => '[' :: (writeItems items ++ [']'])
  | .object members => '\x7b' :: (writeMembers members ++ ['\x7d'])

/-- Items with commas between them. -/
def writeItems : List Json → List Char
  | [] => []
  | [v] => v.write
  | v :: v' :: vs => v.write ++ ',' :: writeItems (v' :: vs)

/-- Members with commas between them. -/
def writeMembers : List (String × Json) → List Char
  | [] => []
  | [(n, v)] => writeText n ++ ':' :: v.write
  | (n, v) :: m :: ms => writeText n ++ ':' :: (v.write ++ ',' :: writeMembers (m :: ms))

end

/-- The compact text of a value as a string. -/
def compact (v : Json) : String := String.ofList v.write

end Json

end OrgForest
