import ScriptHost.GlobalScope
import ScriptHost.Heap.Collect
import ScriptHost.Run.Program
import ScriptHost.Source.Program
import ScriptHost.Source.Unit

/-!
The environment that the scripts of a worker share. It is made at the first run, and what the runs
before left behind is collected before the next.
-/

namespace ScriptHost

inductive UsageError where
  | notInitialized
  | wrongWorkerKind (expected actual : WorkerKind)
  | foreignValue
  deriving DecidableEq, Repr

def UsageError.message : UsageError → String
  | notInitialized => "script environment is not initialized"
  | wrongWorkerKind expected actual =>
      "operation requires a " ++ expected.name ++ " worker, but this one is " ++ actual.name
  | foreignValue => "value belongs to another script environment"

/-- Only one exception can be pending. -/
structure Environment where
  heap : Heap
  scopes : Scopes
  global : Option GlobalScope
  pending : Option Value
  maxCallDepth : Nat

/-- What decides when a run has to stop: the answers to its polls, and how many it may make. -/
structure Oversight where
  answer : Nat → Nat → Option TerminationReason
  horizon : Nat

namespace Environment

def new (arena : Nat) (limits : Limits) : Environment where
  heap := .empty arena limits
  scopes := .empty
  global := none
  pending := none
  maxCallDepth := limits.callDepth

def isInitialized (e : Environment) : Bool :=
  e.global.isSome

/-- The global scope is built once. -/
def ensureGlobal (e : Environment) (host : Host) : GlobalScope × Environment × Host :=
  match e.global with
  | some global => (global, e, host)
  | none =>
      let (global, heap, scopes) := GlobalScope.build e.heap e.scopes host
      (global, { e with heap := heap, scopes := scopes, global := some global },
        host.attachWrapper)

def inject (e : Environment) (value : Value) : Except UsageError Environment :=
  if !e.isInitialized then .error .notInitialized
  else if !e.heap.owns value then .error .foreignValue
  else .ok { e with pending := some value }

/-- The error object is not charged to the script. -/
def createError (e : Environment) (kind : ErrorKind) (message : String) :
    Except UsageError (Value × Environment) :=
  if !e.isInitialized then .error .notInitialized
  else
    let (value, heap) := e.heap.allocateHostError kind message
    .ok (value, { e with heap := heap })

def describe (e : Environment) (value : Value) : String :=
  if e.heap.owns value then e.heap.display value else "<foreign value>"

def collectGarbage (e : Environment) (global : GlobalScope) : Environment :=
  if e.heap.wantsCollection then
    let roots := .object global.object :: e.pending.toList
    { e with heap := (e.heap.collect e.scopes roots [global.scope]).2 }
  else e

def setting (e : Environment) (global : GlobalScope) (oversight : Oversight) : Setting where
  answer := oversight.answer
  horizon := oversight.horizon
  maxCallDepth := e.maxCallDepth
  globalObject := global.object
  globalScope := global.scope

/-- A run of the machine that ends with the environment and the host changed. -/
def execute (e : Environment) (host : Host) (run : Machine → Completion × Machine) :
    Completion × Environment × Host :=
  let global := e.global
  let maxCallDepth := e.maxCallDepth
  let (completion, m) := run (.start e.heap e.scopes e.pending host)
  (completion, ⟨m.heap, m.scopes, global, m.pending, maxCallDepth⟩, m.host)

/-- An error that the script is charged for. -/
def parseFailure (e : Environment) (fault : Source.Fault) (line : Nat) :
    Completion × Environment :=
  match Heap.allocateError .grammar fault.message e.heap with
  | .ok value heap => (.thrown value line, { e with heap := heap })
  | .error reason heap => (.terminated reason, { e with heap := heap })

def absolute (source : SourceUnit) : Completion → Completion
  | .thrown value line => .thrown value (source.absoluteLine line)
  | other => other

def run (e : Environment) (host : Host) (source : SourceUnit) (oversight : Oversight) :
    Completion × Environment × Host :=
  let (global, e, host) := e.ensureGlobal host
  let e := e.collectGarbage global
  match Source.parse source.text with
  | .error fault =>
      let (completion, e) := e.parseFailure fault (source.absoluteLine fault.line)
      (completion, e, host)
  | .ok program =>
      let setting := e.setting global oversight
      let (completion, e, host) := e.execute host fun m => m.runProgram setting program
      (absolute source completion, e, host)

def dispatch (e : Environment) (host : Host) (oversight : Oversight) (handler : String)
    (event : Heap.Step Value) : Completion × Environment × Host :=
  let (global, e, host) := e.ensureGlobal host
  let e := e.collectGarbage global
  let setting := e.setting global oversight
  e.execute host fun m => m.dispatch setting handler event

/-- The event of a message whose payload could not be read has no data. -/
def messageEvent (data : Option Json) : Heap.Step Value := do
  let data ← match data with
    | some json => Heap.fromJson json
    | none => pure .null
  .object <$> Heap.allocate ⟨.ordinary, [("data", data)]⟩

/-- The port belongs to the host, and the event around it to the script. -/
def connectEvent (port : Nat) : Heap.Step Value := do
  let post ← modifyGet fun h => h.allocateHost ⟨.native (.portPostMessage port), []⟩
  let port ← modifyGet fun h => h.allocateHost ⟨.ordinary, [("postMessage", .object post)]⟩
  let ports ← Heap.allocate ⟨.array #[.object port], []⟩
  .object <$> Heap.allocate ⟨.ordinary, [("ports", .object ports), ("source", .object port)]⟩

def dispatchMessage (e : Environment) (host : Host) (oversight : Oversight)
    (data : Option Json) : Completion × Environment × Host :=
  e.dispatch host oversight "onmessage" (messageEvent data)

def dispatchConnect (e : Environment) (host : Host) (oversight : Oversight) (port : Nat) :
    Completion × Environment × Host :=
  e.dispatch host oversight "onconnect" (connectEvent port)

end Environment

end ScriptHost
