import ScriptHost.Run.Machine

/-!
Operators on values.
-/

namespace ScriptHost

namespace Heap

/-- The order of two values: that of their texts if both are texts, and of numbers otherwise. -/
def compare? (h : Heap) (left right : Value) : Option Ordering :=
  match h.toPrimitive left, h.toPrimitive right with
  | .string s, .string t => some (compare s t)
  | a, b =>
      let x := h.toNumber a
      let y := h.toNumber b
      if x < y then some .lt
      else if y < x then some .gt
      else if x == y then some .eq
      else none

def looseEquals (h : Heap) (left right : Value) : Bool :=
  if left.isNullish || right.isNullish then left.isNullish && right.isNullish
  else
    match left, right with
    | .object a, .object b => a == b
    | _, _ =>
        match h.toPrimitive left, h.toPrimitive right with
        | .string s, .string t => s == t
        | a, b => h.toNumber a == h.toNumber b

end Heap

def Value.isText : Value → Bool
  | .string _ => true
  | _ => false

namespace Run

/-- Texts are joined if either side is a text, and numbers are added otherwise. -/
def add (left right : Value) : Run Value := do
  let h ← heap
  let left := h.toPrimitive left
  let right := h.toPrimitive right
  if left.isText || right.isText then
    let text := h.display left
    let more := h.display right
    if h.maxString < text.utf8ByteSize + more.utf8ByteSize then complain .stringLength
    else pure (.string (text ++ more))
  else pure (.number (h.toNumber left + h.toNumber right))

def binary (op : Source.BinaryOp) (left right : Value) : Run Value := do
  let h ← heap
  match op with
  | .add => add left right
  | .subtract => pure (.number (h.toNumber left - h.toNumber right))
  | .multiply => pure (.number (h.toNumber left * h.toNumber right))
  | .divide => pure (.number (h.toNumber left / h.toNumber right))
  | .remainder => pure (.number (Number.remainder (h.toNumber left) (h.toNumber right)))
  | .less => pure (.bool (h.compare? left right == some .lt))
  | .greater => pure (.bool (h.compare? left right == some .gt))
  | .lessEqual => pure (.bool ((h.compare? left right).any (·.isLE)))
  | .greaterEqual => pure (.bool ((h.compare? left right).any (·.isGE)))
  | .strictEqual => pure (.bool (left.strictEquals right))
  | .strictNotEqual => pure (.bool (!left.strictEquals right))
  | .equal => pure (.bool (h.looseEquals left right))
  | .notEqual => pure (.bool (!h.looseEquals left right))

end Run

end ScriptHost
