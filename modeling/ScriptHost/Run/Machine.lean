import ScriptHost.Gauge
import ScriptHost.Heap.Property
import ScriptHost.Host
import ScriptHost.Run.Complaint
import ScriptHost.Watch

/-!
The machine that runs scripts: its state, the ways a computation ends early, and the safe points at
which a run may be cut off.
-/

namespace ScriptHost

/--
What a run takes as given: the answer to each poll, by the number of polls before it and of log
events waiting; the horizon, beyond which no poll is made; the limit on nested calls; and the
global object and scope.
-/
structure Setting where
  answer : Nat → Nat → Option TerminationReason
  horizon : Nat
  maxCallDepth : Nat
  globalObject : ObjectId
  globalScope : ScopeId

/-- A starved run has come to its horizon. -/
inductive Abrupt where
  | thrown (value : Value)
  | terminated (reason : TerminationReason)
  | starved
  | returned (value : Value)
  | broke
  | continued
  deriving DecidableEq, Repr

/-- Nothing in a script can stop the machine from stopping. -/
def Abrupt.isFinal : Abrupt → Bool
  | terminated _ => true
  | starved => true
  | _ => false

/-- What scripts have made of their surroundings, and after how many polls. -/
structure World where
  heap : Heap
  scopes : Scopes
  pending : Option Value
  host : Host
  polls : Nat

structure Halt where
  reason : TerminationReason
  world : World

/-- A call of the function that posts to a port. -/
structure Posting where
  port : Nat
  function : Value
  args : List Value
  world : World

/--
The terminations of a run, the calls of port functions, and the texts and documents that became
values without a check of their length are kept for the record, latest first.
-/
structure Machine where
  heap : Heap
  scopes : Scopes
  pending : Option Value
  host : Host
  completion : Value
  line : Nat
  throwLine : Nat
  nesting : Gauge
  calls : Gauge
  polls : Nat
  halts : List Halt
  posts : List Posting
  unchecked : List Json

namespace Machine

def start (heap : Heap) (scopes : Scopes) (pending : Option Value) (host : Host) : Machine where
  heap := heap
  scopes := scopes
  pending := pending
  host := host
  completion := .undefined
  line := 1
  throwLine := 1
  nesting := .zero
  calls := .zero
  polls := 0
  halts := []
  posts := []
  unchecked := []

def world (m : Machine) : World :=
  ⟨m.heap, m.scopes, m.pending, m.host, m.polls⟩

def halt (m : Machine) (reason : TerminationReason) : Machine :=
  { m with halts := ⟨reason, m.world⟩ :: m.halts }

def post (m : Machine) (port : Nat) (function : Value) (args : List Value) : Machine :=
  { m with posts := ⟨port, function, args, m.world⟩ :: m.posts }

def note (m : Machine) (json : Json) : Machine :=
  { m with unchecked := json :: m.unchecked }

end Machine

abbrev Run := ReaderT Setting (EStateM Abrupt Machine)

namespace Run

variable {α : Type}

def heap : Run Heap := fun _ m => .ok m.heap m

def scopes : Run Scopes := fun _ m => .ok m.scopes m

def setting : Run Setting := fun s m => .ok s m

def globalThis : Run Value := fun s m => .ok (.object s.globalObject) m

def onHeap (step : Heap.Step α) : Run α :=
  fun _ m =>
    match step m.heap with
    | .ok a heap => .ok a { m with heap := heap }
    | .error reason heap => .error (.terminated reason) ({ m with heap := heap }.halt reason)

def onScopes (f : Scopes → α × Scopes) : Run α :=
  fun _ m =>
    match f m.scopes with
    | (a, scopes) => .ok a { m with scopes := scopes }

def onHost (f : Host → Host) : Run Unit :=
  fun _ m => .ok () { m with host := f m.host }

def attempt (run : Run α) : Run (Except Abrupt α) :=
  fun s m =>
    match run s m with
    | .ok a m => .ok (.ok a) m
    | .error abrupt m => .ok (.error abrupt) m

/-- The line of the present statement becomes that of the throw. -/
def raise (value : Value) : Run α :=
  fun _ m => .error (.thrown value) { m with throwLine := m.line }

def unchecked (json : Json) : Run Unit :=
  fun _ m => .ok () (m.note json)

def complain (complaint : Complaint) : Run α := do
  unchecked (.text complaint.message)
  let error ← onHeap (Heap.allocateError complaint.kind complaint.message)
  raise error

/-- A poll, and the pending exception if the poll lets the run go on. -/
def safePoint : Run Unit :=
  fun s m =>
    if s.horizon ≤ m.polls then .error .starved m
    else
      let answer := s.answer m.polls m.host.logged
      let m := { m with polls := m.polls + 1 }
      match answer with
      | some reason => .error (.terminated reason) (m.halt reason)
      | none =>
          match m.pending with
          | some value => raise value s { m with pending := none }
          | none => .ok () m

/-- A string that a script makes, if it is not too long. -/
def string (text : String) : Run Value := do
  if (← heap).maxString < text.utf8ByteSize then complain .stringLength
  else pure (.string text)

def nestingLimit : Nat := 512

/-- One level deeper, which is refused at the nesting limit. -/
def nested (run : Run α) : Run α :=
  fun s m =>
    if nestingLimit ≤ m.nesting.level then complain .stackOverflow s m
    else
      match run s { m with nesting := m.nesting.enter } with
      | .ok a m => .ok a { m with nesting := m.nesting.leave }
      | .error abrupt m => .error abrupt { m with nesting := m.nesting.leave }

/-- Whatever the computation completes with is forgotten. -/
def aside (run : Run α) : Run α :=
  fun s m =>
    let completion := m.completion
    match run s { m with completion := .undefined } with
    | .ok a m => .ok a { m with completion := completion }
    | .error abrupt m => .error abrupt { m with completion := completion }

/-- The body of a function, after which the line is that of the call again. -/
def inCall (run : Run α) : Run α :=
  fun s m =>
    let line := m.line
    match aside run s { m with calls := m.calls.enter } with
    | .ok a m => .ok a { m with calls := m.calls.leave, line := line }
    | .error abrupt m => .error abrupt { m with calls := m.calls.leave, line := line }

def checkCallDepth : Run Unit :=
  fun s m => if s.maxCallDepth ≤ m.calls.level then complain .stackOverflow s m else .ok () m

def setLine (line : Nat) : Run Unit :=
  fun _ m => .ok () { m with line := line }

def setCompletion (value : Value) : Run Unit :=
  fun _ m => .ok () { m with completion := value }

def repeatFor (round : Run Bool) : Nat → Run Unit
  | 0 => throw .starved
  | rounds + 1 => do
      if ← round then repeatFor round rounds else pure ()

/-- Rounds, each of which begins with a safe point, until one says to stop. -/
def repeatWhile (round : Run Bool) : Run Unit :=
  fun s m => repeatFor (do safePoint; round) (s.horizon - m.polls + 1) s m

end Run

end ScriptHost
