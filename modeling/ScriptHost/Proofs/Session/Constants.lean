import ScriptHost.Proofs.Run.Constants
import ScriptHost.Proofs.Session.Injection

/-!
Constants in the course of a session, and within each of its runs.
-/

namespace ScriptHost

open Source (Expr Stmt)

variable {lost : ScopeId → String → Prop}

namespace Environment

variable {e e' : Environment} {g : GlobalScope} {host host' : Host} {ps : List Posting}

theorem extends_build (heap : Heap) (scopes : Scopes) (host : Host) :
    scopes.Extends lost (GlobalScope.build heap scopes host).2.2 := by
  have hopened : scopes.Extends lost scopes.openGlobal.2 := Scopes.extends_push rfl rfl
  unfold GlobalScope.build
  generalize GlobalScope.properties host heap = made
  exact hopened

/-- What a run starts with, once the global scope is there and the heap is tidied up. -/
theorem extends_prepared (e : Environment) (host : Host) :
    e.scopes.Extends lost
      ((e.ensureGlobal host).2.1.collectGarbage (e.ensureGlobal host).1).scopes := by
  have hbuilt : e.scopes.Extends lost (GlobalScope.build e.heap e.scopes host).2.2 :=
    extends_build e.heap e.scopes host
  rw [collectGarbage_eq]
  unfold ensureGlobal
  generalize GlobalScope.build e.heap e.scopes host = made at hbuilt ⊢
  cases e.global with
  | some global => exact .refl _
  | none => exact hbuilt

theorem scopes_parseFailure (e : Environment) (fault : Source.Fault) (line : Nat) :
    (e.parseFailure fault line).2.scopes = e.scopes := by
  unfold parseFailure
  split <;> rfl

theorem Opened.extends_perform (ho : e.Opened g) (host : Host) (oversight : Oversight)
    (task : Task) :
    e.scopes.Extends lost
      (e.execute host fun m => task.perform m (e.setting g oversight)).2.1.scopes :=
  Run.spares_task (m := .start e.heap e.scopes e.pending host) (s := e.setting g oversight) ho.kind
    task

theorem Orderly.extends_task (ho : e.Orderly) (host : Host) (oversight : Oversight)
    (task : Task) :
    let ready := (e.ensureGlobal host).2.1.collectGarbage (e.ensureGlobal host).1
    e.scopes.Extends lost (ready.execute (e.ensureGlobal host).2.2 fun m =>
      task.perform m (ready.setting (e.ensureGlobal host).1 oversight)).2.1.scopes :=
  (e.extends_prepared host).trans
    ((ho.ensureGlobal host).collectGarbage.extends_perform _ oversight task)

theorem Orderly.extends_stage (ho : e.Orderly) (h : Stage e host ps e' host') :
    e.scopes.Extends lost e'.scopes := by
  cases h with
  | ensured =>
    have hprepared : e.scopes.Extends lost _ := e.extends_prepared host
    rw [collectGarbage_eq] at hprepared
    exact hprepared
  | created hcreate =>
    obtain ⟨-, -, rfl⟩ := createError_ok hcreate
    exact .refl _
  | injected hinject =>
    obtain ⟨-, -, rfl⟩ := inject_ok hinject
    exact .refl _
  | ran source oversight =>
    unfold Environment.run
    cases Source.parse source.text with
    | error fault =>
      exact (scopes_parseFailure _ fault _).symm ▸ e.extends_prepared host
    | ok program => exact ho.extends_task host oversight (.program program)
  | messaged oversight data => exact ho.extends_task host oversight (.message "onmessage" data)
  | @connected port host' oversight _ =>
    exact ho.extends_task host' oversight (.connect "onconnect" port)

end Environment

namespace Session

theorem extends_after {s : Session} (hs : s.worker.environment.Orderly)
    (clocks : Nat → Nat → Nat) (turns : List Turn) :
    s.worker.environment.scopes.Extends lost (s.after clocks turns).worker.environment.scopes := by
  induction turns generalizing s clocks with
  | nil => exact .refl _
  | cons t turns ih =>
    have hturn := (s.advances_turn (clocks 0) t).stages.keep
      (P := fun _ e _ => e.Orderly ∧ s.worker.environment.scopes.Extends lost e.scopes)
      (fun h ho => ⟨ho.1.stage h, ho.2.trans (ho.1.extends_stage h)⟩) [] ⟨hs, .refl _⟩
    exact hturn.2.trans (ih hturn.1 _)

/--
Constants stay as they are from each turn of a session to all later ones, and while an expression is
evaluated, whatever it calls. While the statements of a body run, one becomes a variable where the
body has its variables, and no global ones, and gives a value to a variable of that name.
-/
theorem constants_kept (depth : Nat) (s : Setting) (m : Machine) :
    (∀ arena host limits reporting clocks turns clocks' more,
      let earlier := (start arena host limits reporting).after clocks turns
      earlier.worker.environment.scopes.Extends (fun _ _ => False)
        (earlier.after clocks' more).worker.environment.scopes) ∧
    (∀ e frame, m.scopes.Extends (fun _ _ => False)
      (Run.left ((Evaluator.ofDepth depth).eval e frame s m)).scopes) ∧
    ∀ body frame owner, m.scopes.Within owner frame →
      m.scopes.Extends (fun id name => id = owner ∧ m.scopes.kind? owner ≠ some .global ∧
          ∃ stmt ∈ body, stmt.Assigns name)
        (Run.left ((Evaluator.ofDepth depth).execEach frame body s m)).scopes := by
  refine ⟨fun arena host limits reporting clocks turns clocks' more => ?_,
    fun e frame => ?_, fun body frame owner hwithin => ?_⟩
  · exact extends_after (orderly_after (.inl ⟨rfl, rfl⟩) clocks turns) clocks' more
  · exact (Evaluator.Spares.ofDepth depth).eval e frame s m (.refl _)
  · have hframe : m.scopes.Allows (fun id name => id = owner ∧
        m.scopes.kind? owner ≠ some .global ∧ ∃ stmt ∈ body, stmt.Assigns name)
        (fun name => ∃ stmt ∈ body, stmt.Assigns name) frame :=
      ⟨owner, hwithin, fun hlocal name hname => ⟨rfl, hlocal, hname⟩⟩
    exact (Evaluator.Spares.ofDepth depth).execEach hframe
      (fun stmt hstmt name hname => ⟨stmt, hstmt, hname⟩) s m (.refl _)

section Examples

/-- The scope of a function with one constant, inside the global one. -/
def constantScope : Scopes :=
  (Scopes.empty.openGlobal.2.openChild .function 0).2.bind 1 "x" ⟨.string "1", false⟩

/-- An assignment in the function of a constant, in a block of its own. -/
theorem constants_kept_assignment :
    let s : Setting := ⟨fun _ _ => none, 100, 128, ⟨0, 0, 0⟩, 0⟩
    let m := Machine.start (.empty 0 {}) constantScope none (.new "" [] true (.dedicated .new))
    let body := [Stmt.mk 1 (.block [.mk 1 (.expression (.assign none (.name "x") (.string "2")))])]
    m.scopes.Within 1 ⟨1, .undefined⟩ ∧
      (Run.left (Evaluator.full.execEach ⟨1, .undefined⟩ body s m)).scopes.own? 1 "x" =
        some ⟨.string "1", false⟩ := by
  intro s m body
  have hwithin : m.scopes.Within 1 ⟨1, .undefined⟩ := by
    unfold Scopes.Within
    rw [Scopes.innermost?_eq]
    rfl
  have hown : m.scopes.own? 1 "x" = some ⟨.string "1", false⟩ := by decide +kernel
  refine ⟨hwithin, ?_⟩
  have hkept := ((constants_kept Run.nestingLimit s m).2.2 body ⟨1, .undefined⟩ 1 hwithin).constant
    1 "x" (.string "1") hown
  refine hkept.resolve_right ?_
  rintro ⟨⟨-, -, stmt, hstmt, hassigns⟩, -⟩
  obtain rfl := List.mem_singleton.1 hstmt
  cases hassigns with
  | block hinner h =>
    obtain rfl := List.mem_singleton.1 hinner
    exact nomatch h

/-- A variable of the same name in a block of the function takes the place of the constant. -/
theorem constant_replaced :
    let s : Setting := ⟨fun _ _ => none, 100, 128, ⟨0, 0, 0⟩, 0⟩
    let m := Machine.start (.empty 0 {}) constantScope none (.new "" [] true (.dedicated .new))
    let body := [Stmt.mk 1 (.block [.mk 1 (.declare .variable [("x", some (.string "2"))])])]
    let source := "function f() \x7b const x = 1; \x7b var x = 2; \x7d return x; \x7d f()"
    let turn : Turn := ⟨.new, fun _ _ => false, 100, .evaluate (.anonymous source) .propagate⟩
    let host := Host.new "worker" [] true (.dedicated .new)
    m.scopes.own? 1 "x" = some ⟨.string "1", false⟩ ∧
      (Run.left (Evaluator.full.execEach ⟨1, .undefined⟩ body s m)).scopes.own? 1 "x" =
        some ⟨.string "2", true⟩ ∧
      ((start 0 host { wallClockMs := 0 } true).after (fun _ _ => 0) [turn]).given =
        [.number 2.0] := by
  decide +kernel

end Examples

end Session

end ScriptHost
