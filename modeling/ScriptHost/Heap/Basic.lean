import ScriptHost.Heap.Object
import ScriptHost.Limits
import ScriptHost.Termination

/-!
The heap: objects behind handles, and the budget of slots that scripts may fill.
-/

namespace ScriptHost

/-- The baseline is what the object took when the host made it, and zero for objects of scripts. -/
structure Slot where
  generation : UInt32
  baseline : Nat
  object : Option HeapObject

instance : Inhabited Slot := ⟨⟨0, 0, none⟩⟩

/--
The free places come last freed first. The slots used are those charged to scripts. The tombstone
stands for every object that a handle no longer reaches.
-/
structure Heap where
  arena : Nat
  places : Array Slot
  free : List Nat
  live : Nat
  used : Nat
  allocated : Nat
  maxSlots : Nat
  maxString : Nat
  tombstone : HeapObject

namespace Heap

/-- A step on the heap that the budget may forbid. -/
abbrev Step := EStateM TerminationReason Heap

def empty (arena : Nat) (limits : Limits) : Heap where
  arena := arena
  places := #[]
  free := []
  live := 0
  used := 0
  allocated := 0
  maxSlots := limits.heapSlots
  maxString := limits.longestString
  tombstone := ⟨.ordinary, []⟩

/-- The live object behind a handle. -/
def find? (h : Heap) (id : ObjectId) : Option HeapObject :=
  if id.arena = h.arena then
    match h.places[id.index]? with
    | some slot => if slot.generation = id.generation then slot.object else none
    | none => none
  else none

def isLive (h : Heap) (id : ObjectId) : Bool :=
  (h.find? id).isSome

/-- Whether a value is a primitive or a live object of this heap. -/
def owns (h : Heap) : Value → Bool
  | .object id => h.isLive id
  | _ => true

def object (h : Heap) (id : ObjectId) : HeapObject :=
  (h.find? id).getD h.tombstone

def update (h : Heap) (id : ObjectId) (f : HeapObject → HeapObject) : Heap :=
  if h.isLive id then
    { h with places := h.places.modify id.index fun slot =>
        { slot with object := slot.object.map f } }
  else
    { h with tombstone := f h.tombstone }

/-- Growing past the budget is refused; shrinking never is. -/
def charge (grow release : Nat) : Step Unit :=
  fun h =>
    let used := h.used + grow - release
    if release < grow ∧ h.maxSlots ≠ 0 ∧ h.maxSlots < used then .error .memoryLimit h
    else .ok () { h with used := used }

def place (h : Heap) (object : HeapObject) (baseline : Nat) : ObjectId × Heap :=
  match h.free with
  | index :: free =>
      let generation := (h.places[index]?.map Slot.generation).getD 0
      (⟨h.arena, index, generation⟩,
        { h with
          places := h.places.setIfInBounds index ⟨generation, baseline, some object⟩
          free := free
          live := h.live + 1
          allocated := h.allocated + 1 })
  | [] =>
      (⟨h.arena, h.places.size, 0⟩,
        { h with
          places := h.places.push ⟨0, baseline, some object⟩
          live := h.live + 1
          allocated := h.allocated + 1 })

/-- An object of the script, charged to it. -/
def allocate (object : HeapObject) : Step ObjectId := do
  charge object.slots 0
  modifyGet fun h => h.place object 0

/-- An object of the host, which is free. -/
def allocateHost (h : Heap) (object : HeapObject) : ObjectId × Heap :=
  h.place object object.slots

def setProperty (id : ObjectId) (key : String) (value : Value) : Step Unit := do
  let release := (((← get).object id).get? key).elim 0 Value.slots
  charge value.slots release
  modify fun h => h.update id fun o => o.put key value

def padded (items : Array Value) (size : Nat) : Array Value :=
  items ++ Array.replicate (size - items.size) Value.undefined

def elementChange (items : Array Value) (index : Nat) (value : Value) : Nat × Nat :=
  match items[index]? with
  | some old => (value.slots, old.slots)
  | none => (index - items.size + value.slots, 0)

/-- A write past the end fills the places in between. -/
def setElement (id : ObjectId) (index : Nat) (value : Value) : Step Unit := do
  match ((← get).object id).items? with
  | none => pure ()
  | some items => do
      let (grow, release) := elementChange items index value
      charge grow release
      modify fun h => h.update id fun o =>
        o.mapItems fun items => (padded items (index + 1)).setIfInBounds index value

def lengthChange (items : Array Value) (length : Nat) : Nat × Nat :=
  if length ≤ items.size then (0, slotsOf (items.toList.drop length))
  else (length - items.size, 0)

def setLength (id : ObjectId) (length : Nat) : Step Unit := do
  match ((← get).object id).items? with
  | none => pure ()
  | some items => do
      let (grow, release) := lengthChange items length
      charge grow release
      modify fun h => h.update id fun o =>
        o.mapItems fun items => (padded items length).take length

def pushElements (id : ObjectId) (values : List Value) : Step Nat := do
  charge (slotsOf values) 0
  modify fun h => h.update id fun o => o.mapItems fun items => items ++ values
  pure (((← get).object id).items?.elim 0 Array.size)

def popElement (id : ObjectId) : Step Value := do
  match ((← get).object id).items?.bind Array.back? with
  | none => pure .undefined
  | some last => do
      modify fun h => h.update id fun o => o.mapItems Array.pop
      modify fun h => { h with used := h.used - last.slots }
      pure last

def errorObject (kind : ErrorKind) (message : String) : HeapObject :=
  ⟨.error kind, [("name", .string kind.name), ("message", .string message)]⟩

def allocateError (kind : ErrorKind) (message : String) : Step Value :=
  .object <$> allocate (errorObject kind message)

def allocateHostError (h : Heap) (kind : ErrorKind) (message : String) : Value × Heap :=
  let (id, h) := h.allocateHost (errorObject kind message)
  (.object id, h)

def errorKind? (h : Heap) (value : Value) : Option ErrorKind :=
  match value.object?.bind h.find? with
  | some ⟨.error kind, _⟩ => some kind
  | _ => none

def isCallable (h : Heap) : Value → Bool
  | .object id => (h.object id).isCallable
  | _ => false

def typeOf (h : Heap) : Value → String
  | .undefined => "undefined"
  | .null => "object"
  | .bool _ => "boolean"
  | .number _ => "number"
  | .string _ => "string"
  | .object id => if (h.object id).isCallable then "function" else "object"

end Heap

end ScriptHost
