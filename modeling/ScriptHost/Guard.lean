/-!
The guard that forbids a worker to run. It may be used from any thread at any time.
-/

namespace ScriptHost

/-- A soft ban lets the present run finish; the other kind also asks it to stop. -/
inductive ForbidMode where
  | soft
  | terminate
  deriving DecidableEq, Repr

structure Guard where
  forbidden : Bool
  terminationRequested : Bool
  shouldTerminate : Bool
  deriving DecidableEq, Repr

namespace Guard

def new : Guard := ⟨false, false, false⟩

def forbid (g : Guard) : ForbidMode → Guard
  | .soft => { g with forbidden := true }
  | .terminate => ⟨true, true, true⟩

end Guard

end ScriptHost
