import ScriptHost.Run.Evaluator

/-!
Whole runs: a program, or a handler of the global object called with an event.
-/

namespace ScriptHost

/-- How a run ended; the line of a throw counts from the beginning of the text. -/
inductive Completion where
  | normal (value : Value)
  | returned (value : Value)
  | thrown (value : Value) (line : Nat)
  | terminated (reason : TerminationReason)
  | starved
  deriving DecidableEq, Repr

namespace Run

/-- A loop ends what breaks it off, and there is no statement to break off outside of loops. -/
def finish : EStateM.Result Abrupt Machine Value → Completion × Machine
  | .ok value m => (.normal value, m)
  | .error (.returned value) m => (.returned value, m)
  | .error (.thrown value) m => (.thrown value m.throwLine, m)
  | .error (.terminated reason) m => (.terminated reason, m)
  | .error .starved m => (.starved, m)
  | .error .broke m => (.normal .undefined, m)
  | .error .continued m => (.normal .undefined, m)

def completion : Run Value := fun _ m => .ok m.completion m

def globalFrame : Run Frame := do
  let s ← setting
  pure ⟨s.globalScope, .object s.globalObject⟩

def program (body : Source.Program) : Run Value := do
  let frame ← globalFrame
  Evaluator.full.execStatements body frame
  completion

/--
One safe point comes first, so a pending exception is thrown even where there is no handler. The
event is made only if there is one.
-/
def dispatch (handler : String) (event : Heap.Step Value) : Run Value := do
  safePoint
  let s ← setting
  let h ← heap
  let listener := ((h.object s.globalObject).get? handler).getD .undefined
  if h.isCallable listener then do
    let event ← onHeap event
    Evaluator.full.call listener (.object s.globalObject) [event] handler
  else pure .undefined

end Run

def Machine.runProgram (m : Machine) (s : Setting) (body : Source.Program) : Completion × Machine :=
  Run.finish (Run.program body s m)

def Machine.dispatch (m : Machine) (s : Setting) (handler : String) (event : Heap.Step Value) :
    Completion × Machine :=
  Run.finish (Run.dispatch handler event s m)

end ScriptHost
