/-!
The limits a worker runs under.
-/

namespace ScriptHost

/-- A zero lifts the limit on heap slots, string length and time, but forbids all calls. -/
structure Limits where
  heapSlots : Nat := 1000000
  stringLength : Nat := 16 * 1024 * 1024
  callDepth : Nat := 128
  wallClockMs : Nat := 30000
  deriving DecidableEq, Repr

namespace Limits

def budget (l : Limits) : Option Nat :=
  if l.wallClockMs = 0 then none else some l.wallClockMs

def longestString (l : Limits) : Nat :=
  if l.stringLength = 0 then UInt64.size - 1 else l.stringLength

end Limits

end ScriptHost
