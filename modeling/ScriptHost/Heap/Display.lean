import ScriptHost.Heap.Basic

/-!
Values as text. The text is cut off once it is longer than a string may be, so that whoever makes a
string of it can tell.
-/

namespace ScriptHost.Heap

/-- Values nested more deeply than this are taken for cyclic. -/
def nestingLimit : Nat := 64

/-- The text so far, and the number of values that may still be looked at. -/
structure Canvas where
  text : String
  visits : Nat

def Canvas.write (c : Canvas) (s : String) : Canvas :=
  { c with text := c.text ++ s }

def Canvas.isFull (c : Canvas) (limit : Nat) : Bool :=
  limit < c.text.utf8ByteSize

def nativeText : String := "function () \x7b [native code] \x7d"

def functionText (name : Option String) : String :=
  "function " ++ name.getD "" ++ "() \x7b [code] \x7d"

abbrev Painter := Value → Canvas → Canvas

/-- The elements of an array between commas; nothing is written for null and undefined. -/
def paintItems (limit : Nat) (paint : Painter) (first : Bool) : List Value → Canvas → Canvas
  | [], canvas => canvas
  | item :: rest, canvas =>
      if canvas.isFull limit then canvas
      else
        let canvas := if first then canvas else canvas.write ","
        paintItems limit paint false rest
          (if item.isNullish then canvas else paint item canvas)

def paintPart (paint : Painter) (part : Option Value) (visits : Nat) : Canvas :=
  match part with
  | some value => paint value ⟨"", visits⟩
  | none => ⟨"", visits⟩

/-- An error is shown by its name and, if there is one, its message. -/
def paintError (paint : Painter) (kind : ErrorKind) (o : HeapObject) (canvas : Canvas) : Canvas :=
  let name :=
    if (o.get? "name").isSome then paintPart paint (o.get? "name") canvas.visits
    else ⟨kind.name, canvas.visits⟩
  let message := paintPart paint (o.get? "message") name.visits
  let canvas : Canvas := ⟨canvas.text ++ name.text, message.visits⟩
  if message.text.isEmpty then canvas else (canvas.write ": ").write message.text

def paintObject (limit : Nat) (paint : Painter) (o : HeapObject) (canvas : Canvas) : Canvas :=
  match o.kind with
  | .ordinary => canvas.write "[object Object]"
  | .array items => paintItems limit paint true items.toList canvas
  | .function code _ => canvas.write (functionText code.name)
  | .native _ => canvas.write nativeText
  | .error kind => paintError paint kind o canvas

/-- A value within which objects nest at most as deeply as given. -/
def paint (h : Heap) (room : Nat) (value : Value) (canvas : Canvas) : Canvas :=
  if canvas.isFull h.maxString || canvas.visits = 0 then canvas
  else
    let canvas := { canvas with visits := canvas.visits - 1 }
    match value with
    | .object id =>
        match room with
        | 0 => canvas
        | room + 1 => paintObject h.maxString (paint h room) (h.object id) canvas
    | primitive => canvas.write (primitive.primitiveText?.getD "")

/-- The text of a value, which is cut off if it is too long for a string. -/
def display (h : Heap) (value : Value) : String :=
  (h.paint (nestingLimit + 1) value ⟨"", h.maxString⟩).text

def toNumber (h : Heap) (value : Value) : Float :=
  match value.primitiveNumber? with
  | some x => x
  | none => Number.ofText (h.display value)

/-- Objects become text, and primitives stay as they are. -/
def toPrimitive (h : Heap) : Value → Value
  | .object id => .string (h.display (.object id))
  | primitive => primitive

def propertyKey (h : Heap) : Value → String
  | .number x => Number.text x
  | other => h.display other

/-- The element of an array that an index stands for, if it stands for an element. -/
def element? (h : Heap) (id : ObjectId) (key : Value) : Option Value :=
  match (h.object id).items? with
  | none => none
  | some items =>
      let index := match key with
        | .number x => Number.position? x
        | .string s => Number.readPosition? s
        | _ => none
      index.map fun index => items[index]?.getD .undefined

def joinItems (h : Heap) (separator : String) (first : Bool) : List Value → String → String
  | [], joined => joined
  | item :: rest, joined =>
      if h.maxString < joined.utf8ByteSize then joined
      else
        let joined := if first then joined else joined ++ separator
        joinItems h separator false rest
          (if item.isNullish then joined else joined ++ h.display item)

/-- The elements of an array between separators, cut off if they are too long for a string. -/
def join (h : Heap) (id : ObjectId) (separator : String) : String :=
  match (h.object id).items? with
  | none => ""
  | some items => h.joinItems separator true items.toList ""

end ScriptHost.Heap
