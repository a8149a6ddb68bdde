import OrgForest.Json.Value
import OrgForest.Text.Utf8

/-!
# JSON texts

A document is what a JSON text says, before anybody has asked for its content: the members of an
object in the order of the text, repeated names included, the content of a string with holes for
bytes and escapes that spell no character, and a numeral that may be too large for a number. A
reader that skips a part of a document does not care about holes in it; a reader that takes a part
refuses them.

The grammar is that of RFC 8259 with nothing added. A document whose leaves are all sound is the
document of a value (`Document.toJson?`).
-/

namespace OrgForest

open Text (Symbol)

/-- What a JSON text says. -/
inductive Document where
  | null
  | bool (value : Bool)
  | number (value : Option Json.Number)
  | string (content : List Symbol)
  | array (items : List Document)
  | object (members : List (List Symbol × Document))

namespace Document

instance : Inhabited Document := ⟨.null⟩

/-! ## Reading: leaves -/

/-- Blanks between the parts of a text: space, tab, line feed and carriage return. -/
def isSpace : Symbol → Bool
  | some c => c == ' ' || c == '\t' || c == '\n' || c == '\r'
  | none => false

/-- Drops the blanks in front. -/
def skip (input : List Symbol) : List Symbol := input.dropWhile isSpace

/-- Reads a fixed word. -/
def readWord : List Char → List Symbol → Option (List Symbol)
  | [], input => some input
  | c :: cs, s :: input => if s = some c then readWord cs input else none
  | _ :: _, [] => none

/-- The value of a hexadecimal digit. -/
def hexValue? : Symbol → Option Nat
  | some c =>
    if '0' ≤ c && c ≤ '9' then some (c.toNat - '0'.toNat)
    else if 'a' ≤ c && c ≤ 'f' then some (c.toNat - 'a'.toNat + 10)
    else if 'A' ≤ c && c ≤ 'F' then some (c.toNat - 'A'.toNat + 10)
    else none
  | none => none

/-- The code unit of a four-digit escape. -/
def unit? (a b c d : Symbol) : Option Nat := do
  return (((← hexValue? a) * 16 + (← hexValue? b)) * 16 + (← hexValue? c)) * 16 + (← hexValue? d)

/-- The character of a code unit that is not half of a pair. -/
def ofUnit (u : Nat) : Symbol := if h : u.isValidChar then some (Char.ofNatAux u h) else none

/-- The character of a pair of code units, the first a leading and the second a trailing half. -/
def ofPair (u v : Nat) : Option Char :=
  if 0xD800 ≤ u && u < 0xDC00 && 0xDC00 ≤ v && v < 0xE000 then
    some (Char.ofNat (0x10000 + (u - 0xD800) * 0x400 + (v - 0xDC00)))
  else none

/-- The character of a short escape. -/
def ofEscape? : Char → Option Char
  | '"' => some '"'
  | '\\' => some '\\'
  | '/' => some '/'
  | 'b' => some '\x08'
  | 'f' => some '\x0c'
  | 'n' => some '\n'
  | 'r' => some '\r'
  | 't' => some '\t'
  | _ => none

/-- Puts a symbol in front of what was read. -/
def prepend (s : Symbol) :
    Option (List Symbol × List Symbol) → Option (List Symbol × List Symbol) :=
  Option.map fun (content, rest) => (s :: content, rest)

/-- Reads the content of a string up to its closing quote. A half of a pair that stands alone is a
hole; a control character is refused. -/
def readContent : List Symbol → Option (List Symbol × List Symbol)
  | [] => none
  | some '"' :: rest => some ([], rest)
  | some '\\' :: some 'u' :: a :: b :: c :: d :: rest =>
    match unit? a b c d with
    | none => none
    | some u =>
      match rest with
      | some '\\' :: some 'u' :: a' :: b' :: c' :: d' :: rest' =>
        match (unit? a' b' c' d').bind (ofPair u) with
        | some p => prepend (some p) (readContent rest')
        | none =>
          prepend (ofUnit u) (readContent (some '\\' :: some 'u' :: a' :: b' :: c' :: d' :: rest'))
      | rest => prepend (ofUnit u) (readContent rest)
  | some '\\' :: some e :: rest =>
    match ofEscape? e with
    | some c => prepend (some c) (readContent rest)
    | none => none
  | some c :: rest =>
    if c = '\\' || c.toNat < 0x20 then none else prepend (some c) (readContent rest)
  | none :: rest => prepend none (readContent rest)

/-- Reads a run of digits. -/
def readDigits : List Symbol → List Nat × List Symbol
  | some c :: rest =>
    match Text.digitValue? c with
    | some d => let (ds, rest') := readDigits rest; (d :: ds, rest')
    | none => ([], some c :: rest)
  | rest => ([], rest)

/-- Reads a fraction, if a point comes next; digits have to follow it. -/
def readFraction : List Symbol → Option (Option (List Nat) × List Symbol)
  | some '.' :: rest =>
    match readDigits rest with
    | ([], _) => none
    | (ds, rest') => some (some ds, rest')
  | rest => some (none, rest)

/-- Reads the digits of an exponent. -/
def readPower (negative : Bool) (input : List Symbol) :
    Option (Option (Bool × List Nat) × List Symbol) :=
  match readDigits input with
  | ([], _) => none
  | (ds, rest) => some (some (negative, ds), rest)

/-- Reads an exponent, if one comes next. -/
def readExponent : List Symbol → Option (Option (Bool × List Nat) × List Symbol)
  | some c :: rest =>
    if c = 'e' || c = 'E' then
      match rest with
      | some '-' :: rest' => readPower true rest'
      | some '+' :: rest' => readPower false rest'
      | rest' => readPower false rest'
    else some (none, some c :: rest)
  | rest => some (none, rest)

/-- Reads a numeral without its sign: no zero stands in front of other digits. -/
def readNumeral (negative : Bool) (input : List Symbol) : Option (Json.Numeral × List Symbol) :=
  match readDigits input with
  | ([], _) => none
  | (0 :: _ :: _, _) => none
  | (whole, rest) => do
    let (fraction, rest) ← readFraction rest
    let (exponent, rest) ← readExponent rest
    return (⟨negative, whole, fraction, exponent⟩, rest)

/-- Reads a numeral. -/
def readNumber : List Symbol → Option (Document × List Symbol)
  | some '-' :: rest => (readNumeral true rest).map fun (n, rest) => (.number n.number?, rest)
  | rest => (readNumeral false rest).map fun (n, rest) => (.number n.number?, rest)

/-! ## Reading: the tree -/

mutual

/-- Reads one value; every level of nesting and every item uses up some of the fuel. -/
def readValue : Nat → List Symbol → Option (Document × List Symbol)
  | 0, _ => none
  | fuel + 1, input =>
    match skip input with
    | some 'n' :: rest => (readWord ['u', 'l', 'l'] rest).map fun rest => (.null, rest)
    | some 't' :: rest => (readWord ['r', 'u', 'e'] rest).map fun rest => (.bool true, rest)
    | some 'f' :: rest => (readWord ['a', 'l', 's', 'e'] rest).map fun rest => (.bool false, rest)
    | some '"' :: rest => (readContent rest).map fun (content, rest) => (.string content, rest)
    | some '[' :: rest =>
      match skip rest with
      | some ']' :: rest => some (.array [], rest)
      | rest => (readItems fuel rest).map fun (items, rest) => (.array items, rest)
    | some '\x7b' :: rest =>
      match skip rest with
      | some '\x7d' :: rest => some (.object [], rest)
      | rest => (readMembers fuel rest).map fun (members, rest) => (.object members, rest)
    | rest => readNumber rest

/-- Reads items up to the closing bracket. -/
def readItems : Nat → List Symbol → Option (List Document × List Symbol)
  | 0, _ => none
  | fuel + 1, input =>
    match readValue fuel input with
    | none => none
    | some (item, rest) =>
      match skip rest with
      | some ',' :: rest => (readItems fuel rest).map fun (items, rest) => (item :: items, rest)
      | some ']' :: rest => some ([item], rest)
      | _ => none

/-- Reads members up to the closing brace. -/
def readMembers : Nat → List Symbol → Option (List (List Symbol × Document) × List Symbol)
  | 0, _ => none
  | fuel + 1, input =>
    match skip input with
    | some '"' :: rest =>
      match readContent rest with
      | none => none
      | some (name, rest) =>
        match skip rest with
        | some ':' :: rest =>
          match readValue fuel rest with
          | none => none
          | some (item, rest) =>
            match skip rest with
            | some ',' :: rest =>
              (readMembers fuel rest).map fun (members, rest) => ((name, item) :: members, rest)
            | some '\x7d' :: rest => some ([(name, item)], rest)
            | _ => none
        | _ => none
    | _ => none

end

/-- The document that a text spells, if it is JSON text: one value, and blanks around it. -/
def ofSymbols? (input : List Symbol) : Option Document :=
  match readValue (2 * input.length + 2) input with
  | some (d, rest) => if (skip rest).isEmpty then some d else none
  | none => none

/-- The document that a string spells. -/
def ofText? (text : String) : Option Document := ofSymbols? (Text.symbols text.toList)

/-! ## Documents and values -/

mutual

/-- How deep arrays and objects stand inside one another. -/
def depth : Document → Nat
  | .array items => depthOfItems items + 1
  | .object members => depthOfMembers members + 1
  | _ => 0

/-- The greatest depth of items. -/
def depthOfItems : List Document → Nat
  | [] => 0
  | d :: ds => max d.depth (depthOfItems ds)

/-- The greatest depth of members. -/
def depthOfMembers : List (List Symbol × Document) → Nat
  | [] => 0
  | (_, d) :: ms => max d.depth (depthOfMembers ms)

end

mutual

/-- The value of a document without holes and without numerals out of range. Of members with one
name the last counts. -/
def toJson? : Document → Option Json
  | .null => some .null
  | .bool b => some (.bool b)
  | .number n => n.map .number
  | .string content => (Text.ofSymbols? content).map .string
  | .array items => (toItems? items).map .array
  | .object members => (toMembers? members).map .ofMembers

/-- The values of items. -/
def toItems? : List Document → Option (List Json)
  | [] => some []
  | d :: ds =>
    match d.toJson?, toItems? ds with
    | some v, some vs => some (v :: vs)
    | _, _ => none

/-- The names and values of members, in the order of the text. -/
def toMembers? : List (List Symbol × Document) → Option (List (String × Json))
  | [] => some []
  | (n, d) :: ms =>
    match Text.ofSymbols? n, d.toJson?, toMembers? ms with
    | some n, some v, some vs => some ((n, v) :: vs)
    | _, _, _ => none

end

/-- The deepest nesting that is read as a value. -/
def depthLimit : Nat := 127

/-- The value of a document that is nested no deeper than `room`. -/
def value? (room : Nat) (d : Document) : Option Json := if d.depth ≤ room then d.toJson? else none

end Document

namespace Json

mutual

/-- The document that the compact text of a value spells. -/
def document : Json → Document
  | .null => .null
  | .bool b => .bool b
  | .number n => .number (some n)
  | .string s => .string (Text.symbols s.toList)
  | .array items => .array (documentsOfItems items)
  | .object members => .object (documentsOfMembers members)

/-- The documents of items. -/
def documentsOfItems : List Json → List Document
  | [] => []
  | v :: vs => v.document :: documentsOfItems vs

/-- The documents of members. -/
def documentsOfMembers : List (String × Json) → List (List Symbol × Document)
  | [] => []
  | (n, v) :: ms => (Text.symbols n.toList, v.document) :: documentsOfMembers ms

end

/-- The value that a text spells, if it is JSON text without holes, with all numbers in range, and
nested no deeper than the limit. -/
def parse? (text : String) : Option Json :=
  (Document.ofText? text).bind (·.value? Document.depthLimit)

end Json

end OrgForest
