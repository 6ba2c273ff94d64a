import ScriptHost.Proofs.Run.Lines
import ScriptHost.Proofs.Session.Operations

/-!
The line that an uncaught exception of a source unit is reported with.
-/

namespace ScriptHost

namespace Environment

/-- How a source unit ends on a machine with these books, its lines as they are in the text. -/
def completionWith (b : Bookkeeping) (e : Environment) (host : Host) (source : SourceUnit)
    (oversight : Oversight) : Completion :=
  let (global, e, host) := e.ensureGlobal host
  let e := e.collectGarbage global
  match Source.parse source.text with
  | .error fault => (e.parseFailure fault fault.line).1
  | .ok program =>
      let setting := e.setting global oversight
      (e.execute host fun m => Run.finish (Run.programWith b program setting m)).1

variable (e : Environment) (host : Host) (source : SourceUnit) (oversight : Oversight)

theorem absolute_parseFailure (fault : Source.Fault) :
    (e.parseFailure fault (source.absoluteLine fault.line)).1 =
      absolute source (e.parseFailure fault fault.line).1 := by
  unfold parseFailure
  cases Heap.allocateError .grammar fault.message e.heap <;> rfl

theorem run_completion :
    (e.run host source oversight).1 =
      absolute source (e.completionWith .latest host source oversight) := by
  unfold run completionWith
  cases Source.parse source.text with
  | error fault => exact absolute_parseFailure _ source fault
  | ok program =>
    dsimp only
    rw [Run.programWith_latest]
    rfl

/-- Books make no difference to how a source unit ends, but to a line that is in doubt. -/
theorem completionWith_agrees {b : Bookkeeping} (hb : b.Plain) :
    (e.completionWith .doubtful host source oversight).Agrees
      (e.completionWith b host source oversight) := by
  unfold completionWith
  cases Source.parse source.text with
  | error fault => exact .same _
  | ok program => exact (Run.programWith_follows hb program _ _ _ (.refl _)).finish

end Environment

namespace Worker

variable {w : Worker} {source : SourceUnit} {policy : ErrorPolicy} {v : Value} {message : String}
  {line : Nat}

theorem thrown_classify {completion : Completion} {origin : String}
    (h : (w.classify completion origin policy).1 = .thrown v message line) :
    completion = .thrown v line := by
  cases completion with
  | thrown v' line' =>
    obtain ⟨rfl, -, rfl⟩ := Outcome.thrown.inj h
    rfl
  | _ => exact nomatch h

theorem thrown_absolute {completion : Completion}
    (h : Environment.absolute source completion = .thrown v line) :
    ∃ within, completion = .thrown v within ∧ line = source.absoluteLine within := by
  cases completion with
  | thrown v' within =>
    obtain ⟨rfl, rfl⟩ := Completion.thrown.inj h
    exact ⟨within, rfl, rfl⟩
  | _ => exact nomatch h

/--
The line of an uncaught exception is that of the innermost statement under way when it was thrown,
unless it was in doubt: because a statement inside that one had written another line, or because
another exception was thrown in a finalizer on the way out.
-/
theorem thrown_line {guard : Guard} {around : Surroundings}
    (hthrown : (w.evaluate guard around source policy).1 = .thrown v message line) :
    let completionWith (b : Bookkeeping) :=
      w.environment.completionWith b w.host source (w.oversight guard around)
    ∃ innermost, completionWith .lexical = .thrown v innermost ∧
      (line = source.absoluteLine innermost ∨ completionWith .doubtful = .thrown v 0) := by
  intro completionWith
  have hlatest : ∃ within, completionWith .latest = .thrown v within ∧
      line = source.absoluteLine within := by
    rw [evaluate_eq] at hthrown
    split at hthrown
    · exact nomatch hthrown
    · exact thrown_absolute ((w.environment.run_completion w.host source _).symm.trans
        (thrown_classify hthrown))
  have hagrees {b : Bookkeeping} (hb : b.Plain) :
      (completionWith .doubtful).Agrees (completionWith b) :=
    w.environment.completionWith_agrees w.host source (w.oversight guard around) hb
  obtain ⟨within, hwithin, hline⟩ := hlatest
  obtain ⟨certain, hcertain, hlatest⟩ :=
    (hagrees Bookkeeping.latest_plain).thrown_left hwithin
  obtain ⟨innermost, hinnermost, hlexical⟩ :=
    (hagrees Bookkeeping.lexical_plain).thrown_right hcertain
  refine ⟨innermost, hinnermost, ?_⟩
  by_cases hdoubt : certain = 0
  · exact .inr (hdoubt ▸ hcertain)
  · rw [hlexical.resolve_left hdoubt, ← hlatest.resolve_left hdoubt]
    exact .inl hline

section Examples

def lineWorker : Worker :=
  .new 0 (.new "worker" [] true (.dedicated .new)) { wallClockMs := 0 } true

def quiet : Surroundings := ⟨fun _ => 0, fun _ _ => false, 100⟩

/-- Exceptions are caught in a function, in each round of a loop, before one gets away. -/
theorem thrown_line_loop :
    let source := SourceUnit.ofOrigin ("function f(n) \x7b\n  try \x7b throw n; \x7d " ++
      "catch (e) \x7b return e; \x7d\n\x7d\nfor (let i = 0; i < 2; i++) \x7b\n  f(i);\n" ++
      "  try \x7b\n    if (f(i)) throw i;\n  \x7d finally \x7b i; \x7d\n\x7d") "unit.js" 10
    (lineWorker.evaluate .new quiet source .report).1 = .thrown (.number 1.0) "1" 16 ∧
      lineWorker.environment.completionWith .lexical lineWorker.host source
        (lineWorker.oversight .new quiet) = .thrown (.number 1.0) 7 := by
  intro source
  have hthrown : (lineWorker.evaluate .new quiet source .report).1 =
      .thrown (.number 1.0) "1" 16 := by decide +kernel
  have hcertain : lineWorker.environment.completionWith .doubtful lineWorker.host source
      (lineWorker.oversight .new quiet) ≠ .thrown (.number 1.0) 0 := by decide +kernel
  obtain ⟨innermost, hinnermost, hline⟩ := thrown_line hthrown
  have hline : 16 = min (10 + (innermost - 1)) lastLine := hline.resolve_right hcertain
  obtain rfl : innermost = 7 := by
    unfold lastLine at hline
    simp only [UInt32.size] at hline
    omega
  exact ⟨hthrown, hinnermost⟩

/-- The test of a loop throws after a round of it, and a finalizer catches an exception. -/
theorem line_overwritten :
    let loop := SourceUnit.anonymous
      "let i = 0;\nwhile (i < 1 || missing) \x7b\n  i = i + 1;\n\x7d"
    let finalizer := SourceUnit.anonymous ("try \x7b\n  throw 1;\n\x7d finally \x7b\n" ++
      "  try \x7b\n    throw 2;\n  \x7d catch (e) \x7b\x7d\n\x7d")
    let innermost (source : SourceUnit) := lineWorker.environment.completionWith .lexical
      lineWorker.host source (lineWorker.oversight .new quiet)
    (lineWorker.evaluate .new quiet loop .report).1 =
        .thrown (.object ⟨0, 19, 0⟩) "ReferenceError: missing is not defined" 3 ∧
      innermost loop = .thrown (.object ⟨0, 19, 0⟩) 2 ∧
      (lineWorker.evaluate .new quiet finalizer .report).1 = .thrown (.number 1.0) "1" 5 ∧
      innermost finalizer = .thrown (.number 1.0) 2 := by
  decide +kernel

end Examples

end Worker

end ScriptHost
