import ScriptHost.Proofs.Run.Enclosure
import ScriptHost.Proofs.Session.Upholding
import ScriptHost.Proofs.Source.Texts

/-!
Loops in the course of a session. All functions that scripts can come by are parts of programs that
were parsed, or belong to the host.
-/

namespace ScriptHost

/-! ## Runs -/

/-- The computation does not end by leaving a loop, and the heap is enclosed. -/
def Run.Settled {α : Type} (r : EStateM.Result Abrupt Machine α) : Prop :=
  (Run.left r).heap.Enclosed ∧ ∀ m, r ≠ .error .broke m ∧ r ≠ .error .continued m

theorem Run.Ends.left {α : Type} {n : Nat} {r : EStateM.Result Abrupt Machine α}
    (h : Run.Ends n r) : (Run.left r).heap.Enclosed := by
  cases r with
  | ok a m => exact h
  | error e m => exact h.1

theorem Run.Ends.settled {α : Type} {r : EStateM.Result Abrupt Machine α} (h : Run.Ends 0 r) :
    Run.Settled r := by
  refine ⟨h.left, fun m => ⟨?_, ?_⟩⟩ <;> rintro rfl <;> exact absurd h.2 (Nat.lt_irrefl 0)

theorem Run.Confined.upholds {α : Type} {n : Nat} {x : Run α} (hx : Run.Confined n x) :
    Run.Upholds Heap.Enclosed x :=
  fun s m hm => (hx s m hm).left

/-! ## Sessions -/

namespace Session

theorem upholds_enclosed : Environment.Upholds Heap.Enclosed where
  build scopes host hh :=
    GlobalScope.build_all (fun _ => .plain rfl) (fun _ _ => .plain rfl) (fun _ _ _ ho => ho) hh
      scopes host
  tidied scopes roots live hh := Heap.All.tidied hh scopes roots live
  error kind message hh := Heap.Guards.allocateError kind message _ hh
  hostError _ _ hh := Heap.All.allocateHost hh (.plain rfl)
  program hparse := (Run.confined_program (Source.parse_enclosed hparse)).upholds
  message _ := (Run.confined_dispatch "onmessage" (.messageEvent _)).upholds
  connect port := (Run.confined_dispatch "onconnect" (.connectEvent port)).upholds

theorem enclosed_after {s : Session} (hs : s.worker.environment.heap.Enclosed)
    (clocks : Nat → Nat → Nat) (turns : List Turn) :
    (s.after clocks turns).worker.environment.heap.Enclosed :=
  upholds_enclosed.after hs clocks turns

/--
What leaves a loop stands in one of the same function. So no program, function or handler ends by
leaving a loop, whatever the polls answer, if the functions of the heap come from programs, as they
do all through a session.
-/
theorem loops_left_inside (s : Setting) (m : Machine) (hm : m.heap.Enclosed) :
    (∀ source program, Source.parse source = .ok program →
      (∀ stmt ∈ program, stmt.Enclosed 0) ∧ Run.Settled (Run.program program s m)) ∧
    (∀ depth code, Source.Function.Enclosed code →
      (∀ frame, Run.Settled ((Evaluator.ofDepth depth).execStatements code.body frame s m)) ∧
      ∀ closure this args,
        Run.Settled ((Evaluator.ofDepth depth).callScript code closure this args s m)) ∧
    (∀ depth function this args name,
      Run.Settled ((Evaluator.ofDepth depth).call function this args name s m)) ∧
    (∀ handler data, Run.Settled (Run.dispatch handler (Environment.messageEvent data) s m)) ∧
    (∀ handler port, Run.Settled (Run.dispatch handler (Environment.connectEvent port) s m)) ∧
    ∀ arena host limits reporting clocks turns,
      ((start arena host limits reporting).after clocks turns).worker.environment.heap.Enclosed := by
  refine ⟨fun source program hparse => ?_, fun depth code hcode => ?_,
    fun depth function this args name => ?_, fun handler data => ?_, fun handler port => ?_,
    fun arena host limits reporting clocks turns => ?_⟩
  · have hprogram := Source.parse_enclosed hparse
    exact ⟨hprogram, (Run.confined_program hprogram s m hm).settled⟩
  · have hself := Evaluator.Confined.ofDepth depth
    refine ⟨fun frame => ?_, fun closure this args => ?_⟩
    · exact (hself.execStatements frame hcode.body s m hm).settled
    · exact (hself.callScript hcode closure this args s m hm).settled
  · have hself := Evaluator.Confined.ofDepth depth
    exact (hself.call function this args name s m hm).settled
  · exact (Run.confined_dispatch handler (.messageEvent data) s m hm).settled
  · exact (Run.confined_dispatch handler (.connectEvent port) s m hm).settled
  · have hempty : (Heap.empty arena limits).Enclosed := .empty (.plain rfl) arena limits
    exact enclosed_after (s := start arena host limits reporting) hempty clocks turns

section Examples

/-- A function that leaves its loop is called in another. -/
theorem loops_left_inside_call :
    let s : Setting := ⟨fun _ _ => none, 100, 128, ⟨0, 0, 0⟩, 0⟩
    let m := Machine.start (.empty 0 {}) Scopes.empty.openGlobal.2 none
      (.new "" [] true (.dedicated .new))
    let source := "for (;;) \x7b (function () \x7b while (true) break \x7d)(); break \x7d"
    m.heap.Enclosed ∧ ∃ program, Source.parse source = .ok program ∧
      (∀ stmt ∈ program, stmt.Enclosed 0) ∧ Run.Settled (Run.program program s m) := by
  intro s m source
  have hm : m.heap.Enclosed := .empty (.plain rfl) 0 {}
  have hparses : (Source.parse source).isOk = true := by decide +kernel
  cases hparse : Source.parse source with
  | error fault => exact nomatch hparse ▸ hparses
  | ok program => exact ⟨hm, program, rfl, (loops_left_inside s m hm).1 source program hparse⟩

end Examples

end Session

end ScriptHost
