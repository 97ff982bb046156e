import StorageProof.Mismatch

/-!
# Why a JSON document is refused

A document is read once from left to right and the first problem met is the one reported: a problem of
syntax, or a value that does not fit the record it stands in. Messages carry no positions.
-/

namespace StorageProof.Json

inductive SyntaxFault
  | endInValue
  | endInList
  | endInObject
  | endInString
  | expectedColon
  | expectedListCommaOrEnd
  | expectedObjectCommaOrEnd
  | expectedIdent
  | expectedValue
  | invalidEscape
  | invalidNumber
  | numberOutOfRange
  | invalidCodePoint
  | controlCharacter
  | keyMustBeText
  | loneSurrogate
  | unfinishedSurrogate
  | trailingComma
  | trailingCharacters
  deriving DecidableEq, Repr

def SyntaxFault.message : SyntaxFault → String
  | .endInValue => "EOF while parsing a value"
  | .endInList => "EOF while parsing a list"
  | .endInObject => "EOF while parsing an object"
  | .endInString => "EOF while parsing a string"
  | .expectedColon => "expected `:`"
  | .expectedListCommaOrEnd => "expected `,` or `]`"
  | .expectedObjectCommaOrEnd => "expected `,` or `\x7d`"
  | .expectedIdent => "expected ident"
  | .expectedValue => "expected value"
  | .invalidEscape => "invalid escape"
  | .invalidNumber => "invalid number"
  | .numberOutOfRange => "number out of range"
  | .invalidCodePoint => "invalid unicode code point"
  | .controlCharacter =>
    "control character (\\u0000-\\u001F) found while parsing a string"
  | .keyMustBeText => "key must be a string"
  | .loneSurrogate => "lone leading surrogate in hex escape"
  | .unfinishedSurrogate => "unexpected end of hex escape"
  | .trailingComma => "trailing comma"
  | .trailingCharacters => "trailing characters"

/-- Problems of a document that is read as a record. -/
inductive Fault
  | syntaxError (fault : SyntaxFault)
  | wrongType (found : Found) (expected : String)
  | wrongLength (length : Nat) (expected : String)
  | duplicateField (key : String)
  | missingField (key : String)
  | refused (reason : String)
  deriving DecidableEq, Repr

def Fault.message : Fault → String
  | .syntaxError fault => fault.message
  | .wrongType found expected =>
    s!"invalid type: {found.describe Binary64.compactNotation}, expected {expected}"
  | .wrongLength length expected => s!"invalid length {length}, expected {expected}"
  | .duplicateField key => "duplicate field " ++ Text.ticked key
  | .missingField key => "missing field " ++ Text.ticked key
  | .refused reason => reason

end StorageProof.Json
