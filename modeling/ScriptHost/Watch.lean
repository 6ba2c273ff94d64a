import ScriptHost.Termination

/-!
The watch over a run: a request to stop is seen at every poll, the clock only at every 128th.
-/

namespace ScriptHost

structure Watch where
  deadline : Option Nat
  ticks : UInt32
  deriving DecidableEq, Repr

namespace Watch

def clockInterval : UInt32 := 128

def start (budget : Option Nat) (now : Nat) : Watch :=
  ⟨budget.map (now + ·), 0⟩

def expired (w : Watch) (now : Nat) : Bool :=
  w.deadline.any (· ≤ now)

/-- The answer to a poll: why the run has to stop, if it has to. -/
def poll (w : Watch) (stop : Bool) (now : Nat) : Option TerminationReason × Watch :=
  if stop then (some .terminated, w)
  else
    let ticks := w.ticks + 1
    let w := { w with ticks := ticks }
    if ticks % clockInterval ≠ 0 then (none, w)
    else if w.expired now then (some .wallClockTimeout, w)
    else (none, w)

/-- The watch after polls that answered nothing. -/
def after (w : Watch) (polls : Nat) : Watch :=
  { w with ticks := w.ticks + UInt32.ofNat polls }

end Watch

/--
What goes on around a run: what the clock shows at each poll, the first reading being that at the
start, and whether another thread has asked the run to stop by then. The latter may depend on the
number of log events that wait to be received. No run goes on beyond the horizon.
-/
structure Surroundings where
  clock : Nat → Nat
  stopAsked : Nat → Nat → Bool
  horizon : Nat

end ScriptHost
