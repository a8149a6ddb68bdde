import OrgForest.Filter.Clause
import OrgForest.Filter.Token
import OrgForest.Text.Diagnostic
import OrgForest.Time.Strict

/-!
# Filter expressions

An expression is a conjunction of clauses: attribute, operator and, for every operator but `pr`, a
value, with the word `and` between clauses. Attributes and operators are words, a value may be
quoted. Operators and `and` are read without regard to case. The first fault from the left is
reported.
-/

namespace OrgForest

namespace Filter

/-! ## Names of attributes and operators -/

namespace Operator

/-- The name of an operator. -/
def name : Operator → String
  | .compare .equal => "Equal"
  | .compare .notEqual => "NotEqual"
  | .part .anywhere => "Contains"
  | .part .start => "StartsWith"
  | .part .tail => "EndsWith"
  | .present => "Present"
  | .compare .greater => "GreaterThan"
  | .compare .greaterOrEqual => "GreaterThanOrEqual"
  | .compare .less => "LessThan"
  | .compare .lessOrEqual => "LessThanOrEqual"

/-- The words for operators. -/
def words : List (String × Operator) :=
  [("eq", .compare .equal), ("ne", .compare .notEqual), ("co", .part .anywhere),
    ("sw", .part .start), ("ew", .part .tail), ("pr", .present), ("gt", .compare .greater),
    ("ge", .compare .greaterOrEqual), ("lt", .compare .less), ("le", .compare .lessOrEqual)]

/-- The operator of a word in lower case. -/
def ofWord? (word : String) : Option Operator := (words.find? (·.1 == word)).map (·.2)

end Operator

namespace Attribute

/-- An attribute as an expression names it. -/
def path : Attribute → String
  | .text .id => "id"
  | .text .name => "name"
  | .text .description => "description"
  | .text .status => "status"
  | .text .parentId => "parentId"
  | .text (.custom key) => "attributes." ++ key
  | .time .created => "created"
  | .time .lastModified => "lastModified"

/-- An attribute as a message names it. -/
def label : Attribute → String
  | .text .id => "Id"
  | .text .name => "Name"
  | .text .description => "Description"
  | .text .status => "Status"
  | .text .parentId => "ParentId"
  | .text (.custom key) => s!"Attribute({Text.diagnostic key})"
  | .time .created => "Created"
  | .time .lastModified => "LastModified"

/-- The words for attributes other than custom ones. -/
def words : List (String × Attribute) :=
  [("id", .text .id), ("name", .text .name), ("description", .text .description),
    ("status", .text .status), ("parentId", .text .parentId), ("created", .time .created),
    ("meta.created", .time .created), ("lastModified", .time .lastModified),
    ("meta.lastModified", .time .lastModified)]

end Attribute

/-! ## Faults -/

/-- Why an expression is no filter. -/
inductive FilterError where
  | empty
  | unclosedQuote (expression : String)
  | expectedAttribute (expression : String)
  | emptyKey
  | unknownAttribute (word : String)
  | expectedOperator (subject : Attribute) (expression : String)
  | unknownOperator (word : String)
  | missingValue (expression : String)
  | partOfTimestamp (part : Part)
  | invalidTimestamp (value : String) (fault : Time.TimeError)
  | danglingAnd
  | unexpectedToken (token : Token) (expression : String)
deriving DecidableEq

/-- The fault in words. -/
def FilterError.message : FilterError → String
  | .empty => "Filter expression is empty"
  | .unclosedQuote e => s!"Unterminated quoted value in filter '{e}'"
  | .expectedAttribute e => s!"Expected attribute name in filter '{e}'"
  | .emptyKey => "Filter attribute key must not be empty"
  | .unknownAttribute w => s!"Unsupported filter attribute '{w}'"
  | .expectedOperator a e => s!"Expected operator after '{a.label}' in filter '{e}'"
  | .unknownOperator w => s!"Unsupported filter operator '{w}'"
  | .missingValue e => s!"Missing value in filter '{e}'"
  | .partOfTimestamp p =>
    s!"Operator {Operator.name (.part p)} is not supported for timestamp attributes"
  | .invalidTimestamp v fault => s!"Invalid timestamp '{v}': {fault.message}"
  | .danglingAnd => "Filter ends with a dangling 'and'"
  | .unexpectedToken t e => s!"Unexpected token '{t.show}' in filter '{e}'"

/-! ## Parsing -/

/-- What a path to a custom attribute starts with. -/
def customMark : List Char := "attributes.".toList

/-- The attribute that a word names. -/
def readAttribute (word : String) : Except FilterError Attribute :=
  if customMark.isPrefixOf word.toList then
    match word.toList.drop customMark.length with
    | [] => .error .emptyKey
    | key => .ok (.text (.custom (String.ofList key)))
  else
    match Attribute.words.find? (·.1 == word) with
    | some w => .ok w.2
    | none => .error (.unknownAttribute word)

/-- The operator that a word names. -/
def readOperator (word : String) : Except FilterError Operator :=
  match Operator.ofWord? (Text.lower word) with
  | some o => .ok o
  | none => .error (.unknownOperator (Text.lower word))

/-- The value of a text attribute: a status is compared in capitals. -/
def textValue (a : TextAttribute) (value : String) : String :=
  match a with
  | .status => Text.upper value
  | _ => value

/-- The clause of an attribute, an operator that takes a value, and the value. -/
def readValue (a : Attribute) (o : Operator) (value : String) : Except FilterError Clause :=
  match a, o with
  | a, .present => .ok (.present a)
  | .text a, .compare c => .ok (.compareText a c (textValue a value))
  | .text a, .part p => .ok (.partOf a p (textValue a value))
  | .time _, .part p => .error (.partOfTimestamp p)
  | .time a, .compare c =>
    match Time.readStrict value.toList with
    | .ok t => .ok (.compareTime a c t)
    | .error fault => .error (.invalidTimestamp value fault)

/-- The text of a token that may stand as a value. -/
def Token.text : Token → String
  | .word s => s
  | .quoted s => s

/-- Takes one clause from the front of the tokens. -/
def takeClause (expression : String) : List Token → Except FilterError (Clause × List Token)
  | .word a :: rest => do
    let subject ← readAttribute a
    match rest with
    | .word o :: rest =>
      let operator ← readOperator o
      if operator = .present then return (.present subject, rest)
      else
        match rest with
        | [] => throw (.missingValue expression)
        | value :: rest => return (← readValue subject operator value.text, rest)
    | _ => throw (.expectedOperator subject expression)
  | _ => throw (.expectedAttribute expression)

/-- Takes clauses divided by `and` up to the end of the tokens. -/
def takeClauses (expression : String) : Nat → List Token → Except FilterError (List Clause)
  | 0, _ => throw (.expectedAttribute expression)
  | fuel + 1, tokens => do
    let (clause, rest) ← takeClause expression tokens
    match rest with
    | [] => return [clause]
    | .word w :: rest =>
      if Text.lower w = "and" then
        if rest.isEmpty then throw .danglingAnd
        else return clause :: (← takeClauses expression fuel rest)
      else throw (.unexpectedToken (.word w) expression)
    | token :: _ => throw (.unexpectedToken token expression)

end Filter

/-- A parsed expression: its clauses, and its text without the blanks around it. -/
structure Filter where
  clauses : List Filter.Clause
  source : String
deriving DecidableEq

namespace Filter

/-- Parses an expression. -/
def parse (expression : String) : Except FilterError Filter :=
  match tokens? expression with
  | none => throw (.unclosedQuote expression)
  | some [] => throw .empty
  | some tokens => do
    return ⟨← takeClauses expression tokens.length tokens, Text.trimmed expression⟩

/-- Parses an expression if there is one that is not blank. -/
def parseGiven : Option String → Except FilterError (Option Filter)
  | none => return none
  | some expression =>
    let expression := Text.trimmed expression
    if expression = "" then return none else return some (← parse expression)

/-- Whether an organization passes every clause. -/
def holds (f : Filter) (o : Organization) : Bool := f.clauses.all (·.holds o)

end Filter

end OrgForest
