import ScriptHost.Environment
import ScriptHost.Guard
import ScriptHost.Json.Read

/-!
Workers: an environment and its host, under a guard that may forbid every further run.
-/

namespace ScriptHost

inductive Outcome where
  | value (value : Value)
  | thrown (value : Value) (message : String) (line : Nat)
  | terminated (reason : TerminationReason)
  | suppressed
  | unfinished
  deriving DecidableEq, Repr

/-- Whether an uncaught exception is also reported. -/
inductive ErrorPolicy where
  | propagate
  | report
  deriving DecidableEq, Repr

structure Report where
  value : Value
  kind : Option ErrorKind
  message : String
  origin : String
  line : Nat
  deriving DecidableEq, Repr

/-- A worker without a list of reports keeps none. -/
structure Worker where
  environment : Environment
  host : Host
  budget : Option Nat
  reports : Option (Array Report)

def Outcome.text : Outcome → String
  | thrown _ message _ => "Uncaught " ++ message
  | terminated reason => reason.description
  | _ => ""

def Outcome.handle? : Outcome → Option Value
  | value v => some v
  | thrown v _ _ => some v
  | _ => none

namespace Worker

def new (arena : Nat) (host : Host) (limits : Limits) (reporting : Bool) : Worker where
  environment := .new arena limits
  host := host
  budget := limits.budget
  reports := if reporting then some #[] else none

def oversight (w : Worker) (guard : Guard) (around : Surroundings) : Oversight :=
  let watch := Watch.start w.budget (around.clock 0)
  { answer := fun polls logged =>
      ((watch.after polls).poll (guard.shouldTerminate || around.stopAsked polls logged)
        (around.clock (polls + 1))).1
    horizon := around.horizon }

def report (w : Worker) (value : Value) (message origin : String) (line : Nat) : Worker :=
  let kind := w.environment.heap.errorKind? value
  { w with reports := w.reports.map fun reports =>
      reports.push ⟨value, kind, message, origin, line⟩ }

def classify (w : Worker) (completion : Completion) (origin : String) (policy : ErrorPolicy) :
    Outcome × Worker :=
  match completion with
  | .normal value => (.value value, w)
  | .returned value => (.value value, w)
  | .thrown value line =>
      let message := w.environment.describe value
      (.thrown value message line,
        if policy = .report then w.report value message origin line else w)
  | .terminated reason => (.terminated reason, w)
  | .starved => (.unfinished, w)

def evaluate (w : Worker) (guard : Guard) (around : Surroundings) (source : SourceUnit)
    (policy : ErrorPolicy) : Outcome × Worker :=
  if guard.forbidden then (.suppressed, w)
  else
    let oversight := w.oversight guard around
    let ⟨environment, host, budget, reports⟩ := w
    let (completion, environment, host) := environment.run host source oversight
    classify ⟨environment, host, budget, reports⟩ completion source.origin policy

def ensureGlobal (w : Worker) : Worker :=
  let (_, environment, host) := w.environment.ensureGlobal w.host
  { w with environment := environment, host := host }

def createError (w : Worker) (kind : ErrorKind) (message : String) :
    Except UsageError (Value × Worker) := do
  let w := w.ensureGlobal
  let (value, environment) ← w.environment.createError kind message
  pure (value, { w with environment := environment })

def inject (w : Worker) (value : Value) : Except UsageError Worker := do
  let environment ← w.environment.inject value
  pure { w with environment := environment }

def describe (w : Worker) (value : Value) : String :=
  w.environment.describe value

def requireKind (w : Worker) (expected : WorkerKind) : Except UsageError Unit :=
  if w.host.kind = expected then .ok ()
  else .error (.wrongWorkerKind expected w.host.kind)

/-- A payload that is no document is thrown at the script as an error. -/
def decode (w : Worker) (payload : List UInt8) : Except UsageError (Option Json × Worker) :=
  match Json.ofBytes payload with
  | .ok data => .ok (some data, w)
  | .error fault => do
      let (error, environment) ← w.environment.createError .dataClone
        ("Failed to deserialize message: " ++ fault.message)
      let environment ← environment.inject error
      pure (none, { w with environment := environment })

def deliver (w : Worker) (guard : Guard) (around : Surroundings) (payload : List UInt8) :
    Except UsageError (Outcome × Worker) := do
  w.requireKind .dedicated
  if guard.forbidden then pure (.suppressed, w)
  else do
    let (data, w) ← w.ensureGlobal.decode payload
    let oversight := w.oversight guard around
    let location := w.host.location
    let (completion, environment, host) :=
      w.environment.dispatchMessage w.host oversight data
    pure (classify { w with environment := environment, host := host } completion location .report)

def connect (w : Worker) (guard : Guard) (around : Surroundings) :
    Except UsageError (Outcome × Worker) := do
  w.requireKind .shared
  if guard.forbidden then pure (.suppressed, w)
  else
    match w.host.connect? with
    | none => pure (.suppressed, w)
    | some (port, host) => do
        let oversight := w.oversight guard around
        let location := host.location
        let (completion, environment, host) :=
          w.environment.dispatchConnect host oversight port
        pure (classify { w with environment := environment, host := host } completion location
          .report)

end Worker

end ScriptHost
