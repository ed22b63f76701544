import HlsEmit.Json.Value
import HlsEmit.Text.Quoted

/-!
# Why a JSON text is refused

Reading goes through the text once, from left to right, and stops at the first thing that is wrong.
A `Fault` is that cause. It is either a flaw of the text itself (`SyntaxFault`), possibly that the
text ends too early, or a well-formed piece that does not fit the expected type (`DataFault`).
-/

namespace HlsEmit.Json

/-- A flaw of the text. -/
inductive SyntaxFault where
  | endInList
  | endInObject
  | endInText
  | endInValue
  | expectedColon
  | expectedListEnd
  | expectedObjectEnd
  | expectedWord
  | expectedValue
  | badEscape
  | badNumber
  | numberRange
  | controlCharacter
  | keyNotText
  | loneSurrogate
  | halfSurrogatePair
  | trailingComma
  | trailingCharacters
  | nesting
deriving DecidableEq, Repr

/-- What stands in the text where a value of another type was expected. -/
inductive Found where
  | null
  | bool (value : Bool)
  | integer (value : Int)
  | real (value : Binary64)
  | text (value : String)
  | list
  | object
  /-- The bare name of an alternative that needs a content. -/
  | bareName
deriving DecidableEq, Repr

/-- A well-formed piece that does not fit the expected type. -/
inductive DataFault where
  | wrongType (found : Found) (expected : String)
  | wrongValue (found : Found) (expected : String)
  | wrongLength (length : Nat) (expected : String)
  | unknownAlternative (name : String) (known : List String)
  | missingField (name : String)
  | duplicateField (name : String)
deriving DecidableEq, Repr

/-- The first thing that is wrong with a text. -/
inductive Fault where
  | flaw (cause : SyntaxFault)
  | mismatch (cause : DataFault)
deriving DecidableEq, Repr

/-- The three classes of faults. -/
inductive FaultClass where
  | brokenText
  | wrongData
  | unexpectedEnd
deriving DecidableEq, Repr

namespace SyntaxFault

/-- Whether the text ended before the document did. -/
def isUnexpectedEnd : SyntaxFault → Bool
  | .endInList | .endInObject | .endInText | .endInValue => true
  | _ => false

/-- The wording of a flaw. -/
def message : SyntaxFault → String
  | .endInList => "EOF while parsing a list"
  | .endInObject => "EOF while parsing an object"
  | .endInText => "EOF while parsing a string"
  | .endInValue => "EOF while parsing a value"
  | .expectedColon => "expected `:`"
  | .expectedListEnd => "expected `,` or `]`"
  | .expectedObjectEnd => "expected `,` or `\x7d`"
  | .expectedWord => "expected ident"
  | .expectedValue => "expected value"
  | .badEscape => "invalid escape"
  | .badNumber => "invalid number"
  | .numberRange => "number out of range"
  | .controlCharacter => "control character (\\u0000-\\u001F) found while parsing a string"
  | .keyNotText => "key must be a string"
  | .loneSurrogate => "lone leading surrogate in hex escape"
  | .halfSurrogatePair => "unexpected end of hex escape"
  | .trailingComma => "trailing comma"
  | .trailingCharacters => "trailing characters"
  | .nesting => "recursion limit exceeded"

end SyntaxFault

/-- How a message names what it found. -/
def Found.describe : Found → String
  | .null => "null"
  | .bool true => "boolean `true`"
  | .bool false => "boolean `false`"
  | .integer n => "integer `" ++ String.ofList (integerChars n) ++ "`"
  | .real x => "floating point `" ++ realLayout.render x ++ "`"
  | .text s => "string " ++ Text.quote s
  | .list => "sequence"
  | .object => "map"
  | .bareName => "unit variant"

/-- Names in backquotes, separated by commas. -/
def nameList (names : List String) : String :=
  ", ".intercalate (names.map fun name => "`" ++ name ++ "`")

/-- The wording of a mismatch. -/
def DataFault.message : DataFault → String
  | .wrongType found expected =>
    "invalid type: " ++ found.describe ++ ", expected " ++ expected
  | .wrongValue found expected =>
    "invalid value: " ++ found.describe ++ ", expected " ++ expected
  | .wrongLength length expected =>
    "invalid length " ++ toString length ++ ", expected " ++ expected
  | .unknownAlternative name known =>
    "unknown variant `" ++ name ++ "`, expected one of " ++ nameList known
  | .missingField name => "missing field `" ++ name ++ "`"
  | .duplicateField name => "duplicate field `" ++ name ++ "`"

namespace Fault

/-- The wording of a fault. -/
def message : Fault → String
  | .flaw cause => cause.message
  | .mismatch cause => cause.message

/-- The class of a fault. -/
def faultClass : Fault → FaultClass
  | .flaw cause => if cause.isUnexpectedEnd then .unexpectedEnd else .brokenText
  | .mismatch _ => .wrongData

end Fault

end HlsEmit.Json
