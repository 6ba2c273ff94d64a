import ScriptHost.Source.Token

/-!
Why a source text is no program, and on which line.
-/

namespace ScriptHost.Source

inductive Cause where
  | unterminatedComment
  | badToken
  | badCharacter (c : Char)
  | badNumber (literal : String)
  | badUnicodeEscape
  | unexpected (found : Lexeme)
  | tooDeep
  | strayBreak
  | strayContinue
  | lineBreakAfterThrow
  | constWithoutValue
  | loopHeader
  | tryAlone
  | unnamedFunction
  | assignmentTarget
  | prefixTarget
  | postfixTarget
  deriving DecidableEq, Repr

def quoted (what : String) : String :=
  "'" ++ what ++ "'"

def Lexeme.complaint : Lexeme → String
  | .stop => "Unexpected end of input"
  | .number x => "Unexpected number " ++ quoted (Number.Layout.quoted.print x)
  | .string _ => "Unexpected string"
  | .name s => "Unexpected identifier " ++ quoted s
  | .keyword k => "Unexpected token " ++ quoted k.text
  | .punct p => "Unexpected token " ++ quoted p.text

def Cause.message : Cause → String
  | .unterminatedComment => "Unterminated comment"
  | .badToken => "Invalid or unexpected token"
  | .badCharacter c => "Invalid or unexpected token " ++ quoted (String.ofList [c])
  | .badNumber literal => "Invalid number literal " ++ quoted literal
  | .badUnicodeEscape => "Invalid Unicode escape sequence"
  | .unexpected found => found.complaint
  | .tooDeep => "Maximum nesting depth exceeded"
  | .strayBreak => "Illegal break statement"
  | .strayContinue => "Illegal continue statement"
  | .lineBreakAfterThrow => "Illegal newline after throw"
  | .constWithoutValue => "Missing initializer in const declaration"
  | .loopHeader => "Only C-style for loops are supported"
  | .tryAlone => "Missing catch or finally after try"
  | .unnamedFunction => "Function statements require a name"
  | .assignmentTarget => "Invalid left-hand side in assignment"
  | .prefixTarget => "Invalid left-hand side expression in prefix operation"
  | .postfixTarget => "Invalid left-hand side expression in postfix operation"

structure Fault where
  cause : Cause
  line : Nat
  deriving DecidableEq, Repr

def Fault.message (f : Fault) : String :=
  f.cause.message

end ScriptHost.Source
