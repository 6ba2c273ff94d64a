/-!
How deeply something is nested, and how deeply it has ever been.
-/

namespace ScriptHost

structure Gauge where
  level : Nat
  peak : Nat
  deriving DecidableEq, Repr

namespace Gauge

def zero : Gauge := ⟨0, 0⟩

def enter (g : Gauge) : Gauge := ⟨g.level + 1, max g.peak (g.level + 1)⟩

def leave (g : Gauge) : Gauge := ⟨g.level - 1, g.peak⟩

@[simp] theorem level_enter (g : Gauge) : g.enter.level = g.level + 1 := rfl

@[simp] theorem peak_enter (g : Gauge) : g.enter.peak = max g.peak (g.level + 1) := rfl

@[simp] theorem level_leave (g : Gauge) : g.leave.level = g.level - 1 := rfl

@[simp] theorem peak_leave (g : Gauge) : g.leave.peak = g.peak := rfl

end Gauge

end ScriptHost
