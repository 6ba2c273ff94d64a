import ScriptHost.Worker

/-!
Sessions: what a host asks of a worker, one thing after another, and what it sees of it.
-/

namespace ScriptHost

/-- A value a host offers to a worker: any at all, or one that the worker has given out lately. -/
inductive Offer where
  | value (value : Value)
  | given (n : Nat)
  deriving DecidableEq, Repr

namespace Offer

def resolve (given : List Value) : Offer → Value
  | .value v => v
  | .given n => given[n]?.getD .undefined

/-- Whether the offer is no handle but one that the worker has given out. -/
def isOwn : Offer → Bool
  | .value v => v.object?.isNone
  | .given _ => true

end Offer

inductive Operation where
  | evaluate (source : SourceUnit) (policy : ErrorPolicy)
  | deliver (payload : List UInt8)
  | connect
  | createError (kind : ErrorKind) (message : String)
  | inject (offer : Offer)
  | describe (offer : Offer)

def Operation.offer? : Operation → Option Offer
  | inject offer => some offer
  | describe offer => some offer
  | _ => none

inductive Reply where
  | outcome (outcome : Outcome)
  | created (error : Value)
  | injected
  | described (text : String)
  | refused (misuse : UsageError)
  deriving DecidableEq, Repr

namespace Reply

def isRun : Reply → Bool
  | outcome .suppressed => false
  | outcome _ => true
  | _ => false

/-- The values given out since the latest run began, once there has been this reply. -/
def given (before : List Value) : Reply → List Value
  | outcome .suppressed => before
  | outcome o => o.handle?.toList
  | created error => before ++ [error]
  | _ => before

end Reply

structure Turn where
  guard : Guard
  stopAsked : Nat → Nat → Bool
  horizon : Nat
  operation : Operation

def Turn.around (t : Turn) (clock : Nat → Nat) : Surroundings :=
  ⟨clock, t.stopAsked, t.horizon⟩

structure Event where
  reply : Reply
  host : Host
  reports : List Report

namespace Worker

/-- The reports go to the host as they come. -/
def takeReports (w : Worker) : List Report × Worker :=
  ((w.reports.map Array.toList).getD [], { w with reports := w.reports.map fun _ => #[] })

/-- Misuse leaves the worker as it was. -/
def reply (w : Worker) : Except UsageError (Reply × Worker) → Reply × Worker
  | .ok result => result
  | .error misuse => (.refused misuse, w)

def perform (w : Worker) (given : List Value) (guard : Guard) (around : Surroundings) :
    Operation → Reply × Worker
  | .evaluate source policy => (w.evaluate guard around source policy).map .outcome id
  | .deliver payload => w.reply ((w.deliver guard around payload).map (·.map .outcome id))
  | .connect => w.reply ((w.connect guard around).map (·.map .outcome id))
  | .createError kind message => w.reply ((w.createError kind message).map (·.map .created id))
  | .inject offer => w.reply ((w.inject (offer.resolve given)).map (.injected, ·))
  | .describe offer => (.described (w.describe (offer.resolve given)), w)

end Worker

structure Session where
  worker : Worker
  given : List Value

namespace Session

def start (arena : Nat) (host : Host) (limits : Limits) (reporting : Bool) : Session where
  worker := .new arena host limits reporting
  given := []

def turn (s : Session) (clock : Nat → Nat) (t : Turn) : Event × Session :=
  let (reply, worker) := s.worker.perform s.given t.guard (t.around clock) t.operation
  let (reports, worker) := worker.takeReports
  (⟨reply, worker.host, reports⟩, ⟨worker, reply.given s.given⟩)

def after (s : Session) (clocks : Nat → Nat → Nat) : List Turn → Session
  | [] => s
  | t :: turns => after (s.turn (clocks 0) t).2 (fun n => clocks (n + 1)) turns

def events (s : Session) (clocks : Nat → Nat → Nat) : List Turn → List Event
  | [] => []
  | t :: turns =>
      (s.turn (clocks 0) t).1 :: events (s.turn (clocks 0) t).2 (fun n => clocks (n + 1)) turns

end Session

end ScriptHost
