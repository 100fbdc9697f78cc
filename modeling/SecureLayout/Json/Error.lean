import SecureLayout.Numeric.Shortest
import SecureLayout.Text.Quoted

/-!
Why a JSON text is refused: a fault of its syntax at a place, or a mismatch between what stands there
and what a decoder wants, with a place only while the text is being read.
-/

namespace SecureLayout.Json

open SecureLayout.Numeric

/-- Lines count from one, columns count octets read on the line. -/
structure Position where
  line : Nat
  column : Nat
  deriving DecidableEq, Repr, Inhabited

/-- Faults of syntax. -/
inductive Fault where
  | endInList
  | endInObject
  | endInText
  | endInValue
  | colonMissing
  | listCommaOrEnd
  | objectCommaOrEnd
  | badWord
  | valueMissing
  | badEscape
  | badNumber
  | numberOutOfRange
  | controlCharacter
  | keyNotText
  | loneSurrogate
  | trailingComma
  | trailingCharacters
  | hexEscapeEnds
  | tooDeep
  deriving DecidableEq, Repr

def Fault.message : Fault → String
  | endInList => "EOF while parsing a list"
  | endInObject => "EOF while parsing an object"
  | endInText => "EOF while parsing a string"
  | endInValue => "EOF while parsing a value"
  | colonMissing => "expected `:`"
  | listCommaOrEnd => "expected `,` or `]`"
  | objectCommaOrEnd => "expected `,` or `\x7d`"
  | badWord => "expected ident"
  | valueMissing => "expected value"
  | badEscape => "invalid escape"
  | badNumber => "invalid number"
  | numberOutOfRange => "number out of range"
  | controlCharacter => "control character (\\u0000-\\u001F) found while parsing a string"
  | keyNotText => "key must be a string"
  | loneSurrogate => "lone leading surrogate in hex escape"
  | trailingComma => "trailing comma"
  | trailingCharacters => "trailing characters"
  | hexEscapeEnds => "unexpected end of hex escape"
  | tooDeep => "recursion limit exceeded"

/-- What stood where something else was wanted. -/
inductive Found where
  | null
  | bool (b : Bool)
  | int (n : Int)
  | float (x : Double)
  | text (s : String)
  | list
  | object
  deriving DecidableEq, Repr

def Found.message : Found → String
  | null => "null"
  | bool b => "boolean `" ++ (if b then "true" else "false") ++ "`"
  | int n => "integer `" ++ toString n ++ "`"
  | float x => "floating point `" ++ String.ofList (Layout.json.render x) ++ "`"
  | text s => "string " ++ Text.quoted s
  | list => "sequence"
  | object => "map"

/-- Ways in which a well-formed text is not what a decoder wants. -/
inductive Mismatch where
  | wrongType (found : Found) (expected : String)
  | wrongValue (found : Found) (expected : String)
  | wrongLength (length : Nat) (expected : String)
  | unknownVariant (name : String) (known : List String)
  | unknownField (name : String) (known : List String)
  | missingField (name : String)
  | duplicateField (name : String)
  deriving DecidableEq, Repr

/-- Names in backticks: one alone, two joined by "or", more as a list after "one of". -/
def oneOf (names : List String) : String :=
  let ticked := names.map fun n => "`" ++ n ++ "`"
  match ticked with
  | [a] => a
  | [a, b] => a ++ " or " ++ b
  | _ => "one of " ++ String.intercalate ", " ticked

def Mismatch.message : Mismatch → String
  | wrongType found expected => "invalid type: " ++ found.message ++ ", expected " ++ expected
  | wrongValue found expected => "invalid value: " ++ found.message ++ ", expected " ++ expected
  | wrongLength n expected => "invalid length " ++ toString n ++ ", expected " ++ expected
  | unknownVariant name known => "unknown variant `" ++ name ++ "`, expected " ++ oneOf known
  | unknownField name [] => "unknown field `" ++ name ++ "`, there are no fields"
  | unknownField name known => "unknown field `" ++ name ++ "`, expected " ++ oneOf known
  | missingField name => "missing field `" ++ name ++ "`"
  | duplicateField name => "duplicate field `" ++ name ++ "`"

inductive Error where
  | fault (f : Fault) (place : Position)
  | mismatch (m : Mismatch) (place : Option Position)
  deriving DecidableEq, Repr

def Position.suffix (p : Position) : String :=
  " at line " ++ toString p.line ++ " column " ++ toString p.column

def Error.message : Error → String
  | fault f place => f.message ++ place.suffix
  | mismatch m none => m.message
  | mismatch m (some place) => m.message ++ place.suffix

end SecureLayout.Json
