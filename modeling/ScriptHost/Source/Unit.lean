/-!
Source units: a text and where it comes from.
-/

namespace ScriptHost

def anonymousOrigin : String := "about:blank"

def lastLine : Nat := UInt32.size - 1

structure SourceUnit where
  text : String
  origin : String
  startLine : Nat
  deriving DecidableEq, Repr

namespace SourceUnit

def anonymous (text : String) : SourceUnit :=
  ⟨text, anonymousOrigin, 1⟩

/-- Lines count from one. -/
def ofOrigin (text origin : String) (startLine : Nat) : SourceUnit :=
  ⟨text, origin, max startLine 1⟩

def absoluteLine (s : SourceUnit) (line : Nat) : Nat :=
  min (s.startLine + (line - 1)) lastLine

end SourceUnit

end ScriptHost
