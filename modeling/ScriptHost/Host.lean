import ScriptHost.Channel
import ScriptHost.Console
import ScriptHost.Json.Tree

/-!
What a worker is given by its host, and what comes back from it: log events, messages and the wish
to close.
-/

namespace ScriptHost

inductive WorkerKind where
  | dedicated
  | shared
  deriving DecidableEq, Repr

def WorkerKind.name : WorkerKind → String
  | dedicated => "dedicated"
  | shared => "shared"

/-- A dedicated worker has one parent, a shared one any number of ports. -/
inductive Role where
  | dedicated (parent : Channel Json)
  | shared (name : String) (ports : Array (Channel Json))

def Role.kind : Role → WorkerKind
  | dedicated _ => .dedicated
  | shared .. => .shared

structure Host where
  location : String
  env : List (String × String)
  log : Option (Channel LogEvent)
  closing : Bool
  wrappers : Nat
  role : Role

namespace Host

def new (location : String) (env : List (String × String)) (logged : Bool) (role : Role) : Host where
  location := location
  env := env
  log := if logged then some .new else none
  closing := false
  wrappers := 0
  role := role

def kind (h : Host) : WorkerKind :=
  h.role.kind

def writeLog (h : Host) (event : LogEvent) : Host :=
  { h with log := h.log.map fun channel => (channel.send event).2 }

def logged (h : Host) : Nat :=
  h.log.elim 0 fun channel => channel.waiting.size

def close (h : Host) : Host :=
  { h with closing := true }

def attachWrapper (h : Host) : Host :=
  { h with wrappers := h.wrappers + 1 }

def postToParent (h : Host) (message : Json) : Host :=
  match h with
  | ⟨location, env, log, closing, wrappers, .dedicated parent⟩ =>
      ⟨location, env, log, closing, wrappers, .dedicated (parent.send message).2⟩
  | h => h

def postToPort (h : Host) (port : Nat) (message : Json) : Host :=
  match h with
  | ⟨location, env, log, closing, wrappers, .shared name ports⟩ =>
      ⟨location, env, log, closing, wrappers,
        .shared name (ports.modify port fun channel => (channel.send message).2)⟩
  | h => h

/-- A new port and its number, for a shared worker. -/
def connect? (h : Host) : Option (Nat × Host) :=
  match h.role with
  | .shared name ports => some (ports.size, { h with role := .shared name (ports.push .new) })
  | .dedicated _ => none

def connections? (h : Host) : Option Nat :=
  match h.role with
  | .shared _ ports => some ports.size
  | .dedicated _ => none

end Host

end ScriptHost
