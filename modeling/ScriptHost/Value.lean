import ScriptHost.Number.Print
import ScriptHost.Number.Reading

/-!
The values of scripts. An object is known by a handle, which means something only to the heap that
gave it out.
-/

namespace ScriptHost

/-- The generation tells the objects apart that a place in a heap has held one after another. -/
structure ObjectId where
  arena : Nat
  index : Nat
  generation : UInt32
  deriving DecidableEq, Repr, Inhabited

inductive Value where
  | undefined
  | null
  | bool (b : Bool)
  | number (x : Float)
  | string (s : String)
  | object (id : ObjectId)
  deriving DecidableEq, Repr

namespace Value

instance : Inhabited Value := ⟨.undefined⟩

def isNullish : Value → Bool
  | undefined | null => true
  | _ => false

def object? : Value → Option ObjectId
  | object id => some id
  | _ => none

def truthy : Value → Bool
  | undefined | null => false
  | bool b => b
  | number x => x != 0.0 && !x.isNaN
  | string s => !s.isEmpty
  | object _ => true

def primitiveNumber? : Value → Option Float
  | undefined => some (0.0 / 0.0)
  | null => some 0.0
  | bool b => some (if b then 1.0 else 0.0)
  | number x => some x
  | string s => some (Number.ofText s)
  | object _ => none

def primitiveText? : Value → Option String
  | undefined => some "undefined"
  | null => some "null"
  | bool b => some (if b then "true" else "false")
  | number x => some (Number.text x)
  | string s => some s
  | object _ => none

/-- Equality without conversion: a number that is none differs from itself, both zeros are one. -/
def strictEquals : Value → Value → Bool
  | undefined, undefined => true
  | null, null => true
  | bool a, bool b => a == b
  | number x, number y => x == y
  | string s, string t => s == t
  | object a, object b => a == b
  | _, _ => false

end Value

inductive ErrorKind where
  | error
  | type
  | range
  | reference
  | grammar
  | dataClone
  deriving DecidableEq, Repr

namespace ErrorKind

def name : ErrorKind → String
  | error => "Error"
  | type => "TypeError"
  | range => "RangeError"
  | reference => "ReferenceError"
  | grammar => "SyntaxError"
  | dataClone => "DataCloneError"

def constructors : List ErrorKind :=
  [error, type, range, reference, grammar]

def all : List ErrorKind :=
  constructors ++ [dataClone]

def ofName? (s : String) : Option ErrorKind :=
  all.find? fun kind => kind.name == s

end ErrorKind

end ScriptHost
