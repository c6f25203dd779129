import SecretStore.Text.Quoted
import SecretStore.Text.Utf8

namespace SecretStore.Json

inductive Found where
  | null
  | boolean (value : Bool)
  | integer (value : Int)
  | fraction (written : String)
  | text (value : String)
  | sequence
  | map
  deriving DecidableEq, Repr

def Found.message : Found → String
  | .null => "null"
  | .boolean value => s!"boolean `{value}`"
  | .integer value => s!"integer `{value}`"
  | .fraction written => s!"floating point `{written}`"
  | .text value => "string " ++ Quoted.quoted value
  | .sequence => "sequence"
  | .map => "map"

inductive Cause where
  | endOfValue
  | endOfList
  | endOfObject
  | endOfString
  | colonExpected
  | listEndExpected
  | objectEndExpected
  | literalExpected
  | valueExpected
  | keyExpected
  | badEscape
  | badNumber
  | numberRange
  | badCodePoint
  | controlCharacter
  | loneSurrogate
  | brokenSurrogate
  | trailingComma
  | trailingCharacters
  | tooDeep
  | mismatch (found : Found) (wanted : String)
  | badLength (count : Nat) (wanted : String)
  | missing (member : String)
  | duplicate (member : String)
  deriving DecidableEq, Repr

def Cause.message : Cause → String
  | .endOfValue => "EOF while parsing a value"
  | .endOfList => "EOF while parsing a list"
  | .endOfObject => "EOF while parsing an object"
  | .endOfString => "EOF while parsing a string"
  | .colonExpected => "expected `:`"
  | .listEndExpected => "expected `,` or `]`"
  | .objectEndExpected => "expected `,` or `\x7d`"
  | .literalExpected => "expected ident"
  | .valueExpected => "expected value"
  | .keyExpected => "key must be a string"
  | .badEscape => "invalid escape"
  | .badNumber => "invalid number"
  | .numberRange => "number out of range"
  | .badCodePoint => "invalid unicode code point"
  | .controlCharacter => "control character (\\u0000-\\u001F) found while parsing a string"
  | .loneSurrogate => "lone leading surrogate in hex escape"
  | .brokenSurrogate => "unexpected end of hex escape"
  | .trailingComma => "trailing comma"
  | .trailingCharacters => "trailing characters"
  | .tooDeep => "recursion limit exceeded"
  | .mismatch found wanted => s!"invalid type: {found.message}, expected {wanted}"
  | .badLength count wanted => s!"invalid length {count}, expected {wanted}"
  | .missing member => s!"missing field `{member}`"
  | .duplicate member => s!"duplicate field `{member}`"

/-- A cause, and the number of octets that were unread when it was noticed. -/
structure Fault where
  cause : Cause
  left : Nat
  deriving DecidableEq, Repr

/-- Lines count from one. Columns are the octets read on the line. -/
structure Error where
  cause : Cause
  line : Nat
  column : Nat
  deriving DecidableEq, Repr

def newline : UInt8 := 10

def Fault.locate (fault : Fault) (whole : Bytes) : Error :=
  let passed := whole.take (whole.length - fault.left)
  ⟨fault.cause, passed.count newline + 1, (passed.reverse.takeWhile (· != newline)).length⟩

def Error.message (error : Error) : String :=
  s!"{error.cause.message} at line {error.line} column {error.column}"

end SecretStore.Json
