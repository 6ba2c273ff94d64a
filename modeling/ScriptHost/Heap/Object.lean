import ScriptHost.Console
import ScriptHost.Scope
import ScriptHost.Source.Tree

/-!
Objects, and the slots they take of a budget.
-/

namespace ScriptHost

inductive Native where
  | console (level : LogLevel)
  | close
  | postMessage
  | portPostMessage (port : Nat)
  | errorConstructor (kind : ErrorKind)
  | jsonStringify
  | jsonParse
  deriving DecidableEq, Repr

inductive ObjectKind where
  | ordinary
  | array (items : Array Value)
  | function (code : Source.Function) (closure : ScopeId)
  | native (function : Native)
  | error (kind : ErrorKind)

structure HeapObject where
  kind : ObjectKind
  properties : Table Value

instance : Inhabited HeapObject := ⟨⟨.ordinary, []⟩⟩

/-- The slots of a stored value: one, and one more for every 64 bytes of text. -/
def Value.slots : Value → Nat
  | .string s => 1 + s.utf8ByteSize / 64
  | _ => 1

def slotsOf (values : List Value) : Nat :=
  values.foldr (fun value total => value.slots + total) 0

namespace HeapObject

def get? (o : HeapObject) (key : String) : Option Value :=
  o.properties.get? key

def put (o : HeapObject) (key : String) (value : Value) : HeapObject :=
  { o with properties := o.properties.put key value }

def items? (o : HeapObject) : Option (Array Value) :=
  match o.kind with
  | .array items => some items
  | _ => none

def mapItems (o : HeapObject) (f : Array Value → Array Value) : HeapObject :=
  match o with
  | ⟨.array items, properties⟩ => ⟨.array (f items), properties⟩
  | o => o

def isCallable (o : HeapObject) : Bool :=
  match o.kind with
  | .function .. => true
  | .native _ => true
  | _ => false

def items (o : HeapObject) : List Value :=
  match o.kind with
  | .array items => items.toList
  | _ => []

/-- The values held in the elements and properties of an object. -/
def values (o : HeapObject) : List Value :=
  o.items ++ o.properties.map Prod.snd

def slots (o : HeapObject) : Nat :=
  1 + slotsOf o.values

def closure? (o : HeapObject) : Option ScopeId :=
  match o.kind with
  | .function _ closure => some closure
  | _ => none

end HeapObject

end ScriptHost
