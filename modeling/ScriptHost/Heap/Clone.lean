import ScriptHost.Heap.Display
import ScriptHost.Json.Tree

/-!
Values copied out of a heap as JSON documents, and documents brought into one.
-/

namespace ScriptHost

inductive CloneError where
  | tooDeep
  | tooLarge
  | function
  deriving DecidableEq, Repr

def CloneError.message : CloneError → String
  | tooDeep => "value is nested too deeply or is cyclic"
  | tooLarge => "value is too large to serialize"
  | function => "function could not be cloned"

/-- Safe integers are written as such, and what is no finite number is null. -/
def Json.ofNumber (x : Float) : Json :=
  match Number.smallInteger? x with
  | some n => .integer n
  | none => if x.isFinite then .real x else .null

namespace Heap

/-- Cloning uses up an allowance of nodes and bytes. -/
abbrev Cloning := StateT Nat (Except CloneError)

def spend (cost : Nat) : Cloning Unit :=
  fun allowance =>
    if cost ≤ allowance then .ok ((), allowance - cost) else .error .tooLarge

def cloneCost : Value → Nat
  | .string s => 1 + s.utf8ByteSize
  | _ => 1

def cloneItems (clone : Value → Cloning Json) (found : Array Json) :
    List Value → Cloning (List Json)
  | [] => pure found.toList
  | item :: rest => do
      let json ← clone item
      cloneItems clone (found.push json) rest

def cloneMembers (clone : Value → Cloning Json) (found : List (String × Json)) :
    Table Value → Cloning (List (String × Json))
  | [] => pure found
  | (key, value) :: rest =>
      if value = .undefined then cloneMembers clone found rest
      else do
        spend key.utf8ByteSize
        let json ← clone value
        cloneMembers clone (Json.insert key json found) rest

def cloneObject (clone : Value → Cloning Json) (o : HeapObject) : Cloning Json :=
  match o.kind with
  | .array items => .list <$> cloneItems clone #[] items.toList
  | .ordinary => .object <$> cloneMembers clone [] o.properties
  | .error _ => .object <$> cloneMembers clone [] o.properties
  | .function .. => throw .function
  | .native _ => throw .function

/-- A value within which values nest less deeply than given. -/
def cloneWithin (h : Heap) : Nat → Value → Cloning Json
  | 0, _ => throw .tooDeep
  | room + 1, value => do
      spend (cloneCost value)
      match value with
      | .undefined => pure .null
      | .null => pure .null
      | .bool b => pure (.bool b)
      | .number x => pure (.ofNumber x)
      | .string s => pure (.text s)
      | .object id => cloneObject (cloneWithin h room) (h.object id)

def toJson (h : Heap) (value : Value) : Except CloneError Json :=
  (h.cloneWithin (nestingLimit + 1) value h.maxString).map Prod.fst

mutual

/-- The value of a document, whose lists and objects are new objects of the script. -/
def fromJson : Json → Step Value
  | .null => pure .null
  | .bool b => pure (.bool b)
  | .integer n => pure (.number (Float.ofInt n))
  | .real x => pure (.number x)
  | .text s => pure (.string s)
  | .list items => do
      let values ← fromItems #[] items
      .object <$> allocate ⟨.array values, []⟩
  | .object members => do
      let properties ← fromMembers #[] members
      .object <$> allocate ⟨.ordinary, properties.toList⟩

def fromItems (found : Array Value) : List Json → Step (Array Value)
  | [] => pure found
  | item :: rest => do
      let value ← fromJson item
      fromItems (found.push value) rest

def fromMembers (found : Array (String × Value)) :
    List (String × Json) → Step (Array (String × Value))
  | [] => pure found
  | (key, item) :: rest => do
      let value ← fromJson item
      fromMembers (found.push (key, value)) rest

end

end Heap

end ScriptHost
