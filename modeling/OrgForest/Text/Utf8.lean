/-!
# Texts as bytes, and bytes read with holes

A text is sent as its UTF-8 bytes. Bytes that arrive are read as characters where they spell one
and as a hole where they do not: an ill-formed byte is one hole, and reading goes on behind it. A
reader of the result can therefore decide for itself where a hole is harmless.

-/

namespace OrgForest.Text

/-- A character, or a hole where there should have been one. -/
abbrev Symbol : Type := Option Char

/-- The characters of a text as symbols. -/
def symbols (cs : List Char) : List Symbol := cs.map some

/-- The text spelled by symbols, if there is no hole among them. -/
def ofSymbols? (ss : List Symbol) : Option String := (ss.mapM id).map String.ofList

/-- The UTF-8 bytes of a text. -/
def bytes (cs : List Char) : List UInt8 := cs.flatMap String.utf8EncodeChar

/-- The UTF-8 bytes of a string. -/
def bytesOf (s : String) : List UInt8 := bytes s.toList

/-- The character that the bytes start with, if they start with a well-formed one. -/
def firstChar? (bs : List UInt8) : Option Char := (bs.take 4).toByteArray.utf8DecodeChar? 0

/-- Reads at most `fuel` symbols. -/
def readSymbols : Nat → List UInt8 → List Symbol
  | 0, _ => []
  | _, [] => []
  | fuel + 1, b :: bs =>
    match firstChar? (b :: bs) with
    | some c => some c :: readSymbols fuel ((b :: bs).drop c.utf8Size)
    | none => none :: readSymbols fuel bs

/-- The symbols that the bytes spell. -/
def symbolsOfBytes (bs : List UInt8) : List Symbol := readSymbols bs.length bs

end OrgForest.Text
