/-!
Why a text is no JSON document, and where.
-/

namespace ScriptHost.Json

inductive Cause where
  | valueEnds
  | stringEnds
  | listEnds
  | objectEnds
  | expectedValue
  | expectedWord
  | expectedColon
  | expectedListSeparator
  | expectedObjectSeparator
  | badNumber
  | numberOutOfRange
  | badEscape
  | badCodePoint
  | controlCharacter
  | loneSurrogate
  | escapeEnds
  | keyNotString
  | trailingComma
  | trailingCharacters
  | tooDeep
  deriving DecidableEq, Repr

def Cause.message : Cause → String
  | .valueEnds => "EOF while parsing a value"
  | .stringEnds => "EOF while parsing a string"
  | .listEnds => "EOF while parsing a list"
  | .objectEnds => "EOF while parsing an object"
  | .expectedValue => "expected value"
  | .expectedWord => "expected ident"
  | .expectedColon => "expected `:`"
  | .expectedListSeparator => "expected `,` or `]`"
  | .expectedObjectSeparator => "expected `,` or `\x7d`"
  | .badNumber => "invalid number"
  | .numberOutOfRange => "number out of range"
  | .badEscape => "invalid escape"
  | .badCodePoint => "invalid unicode code point"
  | .controlCharacter => "control character (\\u0000-\\u001F) found while parsing a string"
  | .loneSurrogate => "lone leading surrogate in hex escape"
  | .escapeEnds => "unexpected end of hex escape"
  | .keyNotString => "key must be a string"
  | .trailingComma => "trailing comma"
  | .trailingCharacters => "trailing characters"
  | .tooDeep => "recursion limit exceeded"

/-- A cause, and how many bytes of the text lie behind the place where it was noticed. -/
structure Stop where
  cause : Cause
  left : Nat
  deriving DecidableEq, Repr

/-- Lines count from one; the column is the number of bytes since the last line break. -/
structure Fault where
  cause : Cause
  line : Nat
  column : Nat
  deriving DecidableEq, Repr

def Fault.message (f : Fault) : String :=
  f.cause.message ++ " at line " ++ toString f.line ++ " column " ++ toString f.column

def place : List UInt8 → Nat × Nat :=
  List.foldl (fun (line, column) b => if b = 10 then (line + 1, 0) else (line, column + 1)) (1, 0)

def Stop.locate (s : Stop) (whole : List UInt8) : Fault :=
  let (line, column) := place (whole.take (whole.length - s.left))
  ⟨s.cause, line, column⟩

end ScriptHost.Json
