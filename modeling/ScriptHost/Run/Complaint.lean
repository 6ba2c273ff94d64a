import ScriptHost.Heap.Clone
import ScriptHost.Json.Fault
import ScriptHost.Source.Fault

/-!
What goes wrong while a script runs, as the error the script may catch.
-/

namespace ScriptHost

inductive Complaint where
  | stackOverflow
  | stringLength
  | arrayLength
  | redeclared (name : String)
  | undeclared (name : String)
  | constantAssignment
  | assignmentTarget
  | unreadable (base key : String)
  | unwritable (base key : String)
  | notFunction (name : String)
  | notConstructor (name : String)
  | uncloneable (error : CloneError)
  | unserializable (error : CloneError)
  | badJson (fault : Json.Fault)
  deriving DecidableEq, Repr

namespace Complaint

def kind : Complaint → ErrorKind
  | stackOverflow | stringLength | arrayLength => .range
  | redeclared _ | assignmentTarget | badJson _ => .grammar
  | undeclared _ => .reference
  | constantAssignment | unreadable .. | unwritable .. | notFunction _ | notConstructor _
  | unserializable _ => .type
  | uncloneable _ => .dataClone

def message : Complaint → String
  | stackOverflow => "Maximum call stack size exceeded"
  | stringLength => "Invalid string length"
  | arrayLength => "Invalid array length"
  | redeclared name => "Identifier '" ++ name ++ "' has already been declared"
  | undeclared name => name ++ " is not defined"
  | constantAssignment => "Assignment to constant variable."
  | assignmentTarget => "Invalid left-hand side in assignment"
  | unreadable base key => "Cannot read properties of " ++ base ++ " (reading '" ++ key ++ "')"
  | unwritable base key => "Cannot set properties of " ++ base ++ " (setting '" ++ key ++ "')"
  | notFunction name => name ++ " is not a function"
  | notConstructor name => name ++ " is not a constructor"
  | uncloneable error => error.message
  | unserializable error => error.message
  | badJson fault => "JSON.parse: " ++ fault.message

end Complaint

end ScriptHost
