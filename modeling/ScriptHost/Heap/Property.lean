import ScriptHost.Heap.Display

/-!
Properties of values read and written by name. The elements of an array go by their positions, and
its length by the name of that property.
-/

namespace ScriptHost.Heap

def propertyOf (o : HeapObject) (key : String) : Value :=
  match o.items? with
  | none => (o.get? key).getD .undefined
  | some items =>
      if key = "length" then .number (Float.ofNat items.size)
      else
        match Number.readPosition? key with
        | some index => items[index]?.getD .undefined
        | none => (o.get? key).getD .undefined

def propertyOfText (s : String) (key : String) : Value :=
  if key = "length" then .number (Float.ofNat s.length)
  else
    match (Number.readPosition? key).bind fun index => s.toList[index]? with
    | some c => .string (String.ofList [c])
    | none => .undefined

/-- The property of a value; undefined and null have none. -/
def property? (h : Heap) (value : Value) (key : String) : Option Value :=
  match value with
  | .object id => some (propertyOf (h.object id) key)
  | .string s => some (propertyOfText s key)
  | .undefined | .null => none
  | .bool _ | .number _ => some .undefined

/-- The places that one write may open at the end of an array. -/
def maxGrowth : Nat := 65536

/-- Writes a property of an object, and tells whether the object can have it. -/
def writeProperty (id : ObjectId) (key : String) (value : Value) : Step Bool := do
  let h ← get
  match (h.object id).items? with
  | none => do
      setProperty id key value
      pure true
  | some items => do
      let limit := items.size + maxGrowth
      if key = "length" then
        match Number.position? (h.toNumber value) with
        | some length =>
            if length ≤ limit then do
              setLength id length
              pure true
            else pure false
        | none => pure false
      else
        match Number.readPosition? key with
        | some index =>
            if index < limit then do
              setElement id index value
              pure true
            else pure false
        | none => do
            setProperty id key value
            pure true

end ScriptHost.Heap
