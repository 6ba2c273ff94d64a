import ScriptHost.Json.Read
import ScriptHost.Json.Write
import ScriptHost.Run.Machine

/-!
Properties as scripts read and write them, the array methods, and the functions of the host.
-/

namespace ScriptHost.Run

def getProperty (base : Value) (key : String) : Run Value := do
  let h ← heap
  match h.property? base key with
  | some value => pure value
  | none => complain (.unreadable (h.display base) key)

/-- What is written to a property of a primitive is dropped. -/
def setProperty (base : Value) (key : String) (value : Value) : Run Unit := do
  match base with
  | .object id => do
      if ← onHeap (Heap.writeProperty id key value) then pure ()
      else complain .arrayLength
  | .undefined | .null => do complain (.unwritable ((← heap).display base) key)
  | .bool _ | .number _ | .string _ => pure ()

inductive ArrayMethod where
  | push
  | pop
  | join
  deriving DecidableEq, Repr

def ArrayMethod.ofName? (name : String) : Option ArrayMethod :=
  if name = "push" then some .push
  else if name = "pop" then some .pop
  else if name = "join" then some .join
  else none

/-- The method of an array that a name stands for; other values have none. -/
def arrayMethod? (h : Heap) (target : Value) (name : String) : Option (ObjectId × ArrayMethod) :=
  match target with
  | .object id =>
      if (h.object id).items?.isSome then (ArrayMethod.ofName? name).map (id, ·) else none
  | _ => none

def callArrayMethod (id : ObjectId) (method : ArrayMethod) (args : List Value) : Run Value := do
  match method with
  | .push => do
      let size ← onHeap (Heap.pushElements id args)
      pure (.number (Float.ofNat size))
  | .pop => onHeap (Heap.popElement id)
  | .join => do
      let h ← heap
      let separator := match args.head? with
        | none | some .undefined => ","
        | some value => h.display value
      string (h.join id separator)

def cloneMessage (value : Value) : Run Json := do
  match (← heap).toJson value with
  | .ok json => pure json
  | .error error => complain (.uncloneable error)

/-- The calls that go on record are those of port functions. -/
def record (function : Value) (native : Native) (args : List Value) : Run Unit :=
  match native with
  | .portPostMessage port => fun _ m => .ok () (m.post port function args)
  | _ => pure ()

def callNative (function : Native) (args : List Value) : Run Value := do
  let first := args.head?.getD .undefined
  match function with
  | .console level => do
      let h ← heap
      onHost fun host => host.writeLog ⟨level, " ".intercalate (args.map h.display)⟩
      pure .undefined
  | .close => do
      onHost Host.close
      pure .undefined
  | .postMessage => do
      let message ← cloneMessage first
      onHost fun host => host.postToParent message
      pure .undefined
  | .portPostMessage port => do
      let message ← cloneMessage first
      onHost fun host => host.postToPort port message
      pure .undefined
  | .errorConstructor kind => do
      let h ← heap
      let message := if first = .undefined then "" else h.display first
      unchecked (.text message)
      onHeap (Heap.allocateError kind message)
  | .jsonStringify => do
      let h ← heap
      if first = .undefined || h.isCallable first then pure .undefined
      else
        match h.toJson first with
        | .ok json => string json.write
        | .error error => complain (.unserializable error)
  | .jsonParse => do
      let h ← heap
      match Json.ofText (h.display first) with
      | .ok json => do
          unchecked json
          onHeap (Heap.fromJson json)
      | .error fault => complain (.badJson fault)

end ScriptHost.Run
