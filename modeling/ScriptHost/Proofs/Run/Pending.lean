import ScriptHost.Proofs.Coupling.Law
import ScriptHost.Proofs.Run.Hoisting

/-!
Runs that begin with an exception pending. It is thrown at the first safe point, before anything of
the script has run but the declarations of its functions.
-/

namespace ScriptHost

namespace Run

variable {s : Setting} {m n : Machine} {v : Value} {e : Abrupt}

theorem safePoint_raises (hpending : m.pending = some v) (hhorizon : m.polls < s.horizon)
    (hanswer : s.answer m.polls m.host.logged = none) :
    safePoint s m =
      .error (.thrown v)
        { m with polls := m.polls + 1, pending := none, throwLine := m.line } := by
  unfold safePoint
  rw [if_neg (Nat.not_le.2 hhorizon)]
  simp only [hanswer, hpending]
  rfl

/-- No run gets past a safe point while an exception is pending. -/
theorem safePoint_stops (s : Setting) (hpending : m.pending = some v) :
    ∃ e n, safePoint s m = .error e n ∧
      (n.pending = some v ∧ e.isFinal = true ∨ n.pending = none ∧ e = .thrown v) := by
  by_cases hhorizon : s.horizon ≤ m.polls
  · exact ⟨.starved, m, if_pos hhorizon, .inl ⟨hpending, rfl⟩⟩
  · cases hanswer : s.answer m.polls m.host.logged with
    | none =>
        exact ⟨_, _, safePoint_raises hpending (Nat.not_le.1 hhorizon) hanswer, .inr ⟨rfl, rfl⟩⟩
    | some reason =>
        refine ⟨.terminated reason, { m with polls := m.polls + 1 }.halt reason, ?_,
          .inl ⟨hpending, rfl⟩⟩
        unfold safePoint
        rw [if_neg hhorizon]
        simp only [hanswer]

theorem exec_stops {self : Evaluator} {first : Source.Stmt} {frame : Frame}
    (hlevel : m.nesting.level = 0)
    (hstop : safePoint s { m with line := first.line, nesting := m.nesting.enter } = .error e n) :
    self.deeper.exec first frame s m = .error e { n with nesting := n.nesting.leave } := by
  have hbelow : ¬ nestingLimit ≤ m.nesting.level := by
    rw [hlevel]
    exact Nat.not_le.2 (Nat.succ_pos 511)
  have hstmt : self.execStmt first frame s { m with nesting := m.nesting.enter } = .error e n := by
    unfold Evaluator.execStmt
    rw [bind_ok (rfl : setLine first.line s { m with nesting := m.nesting.enter } = .ok () _)]
    exact bind_error hstop
  change nested (self.execStmt first frame) s m = _
  rw [nested_below _ s hbelow, hstmt]
  rfl

/-- What comes before the first safe point of a program is the declaration of its functions. -/
theorem program_stops {first : Source.Stmt} {rest : Source.Program} {h : Heap}
    (hkind : m.scopes.kind? s.globalScope = some .global) (hlevel : m.nesting.level = 0)
    (hhoist : Heap.hoist ⟨s.globalObject, s.globalScope⟩ (Source.declared (first :: rest)) m.heap =
      .ok () h)
    (hstop : safePoint s { m with heap := h, line := first.line, nesting := m.nesting.enter } =
      .error e n) :
    program (first :: rest) s m = .error e { n with nesting := n.nesting.leave } := by
  have hdeclared := (hoist_global hkind (.object s.globalObject) (first :: rest)).trans
    (onHeap_ok hhoist s)
  have hfirst : Evaluator.full.exec first ⟨s.globalScope, .object s.globalObject⟩ s
      { m with heap := h } = .error e { n with nesting := n.nesting.leave } :=
    exec_stops (m := { m with heap := h }) hlevel hstop
  have hbody : Evaluator.full.execStatements (first :: rest)
      ⟨s.globalScope, .object s.globalObject⟩ s m =
        .error e { n with nesting := n.nesting.leave } := by
    unfold Evaluator.execStatements
    rw [bind_ok hdeclared]
    exact bind_error hfirst
  unfold program
  rw [bind_ok (rfl : globalFrame s m = .ok _ m)]
  exact bind_error hbody

theorem program_undeclared {body : Source.Program} {reason : TerminationReason} {h : Heap}
    (hkind : m.scopes.kind? s.globalScope = some .global)
    (hhoist : Heap.hoist ⟨s.globalObject, s.globalScope⟩ (Source.declared body) m.heap =
      .error reason h) :
    program body s m = .error (.terminated reason) ({ m with heap := h }.halt reason) := by
  have hbody : Evaluator.full.execStatements body ⟨s.globalScope, .object s.globalObject⟩ s m =
      .error (.terminated reason) ({ m with heap := h }.halt reason) :=
    bind_error ((hoist_global hkind (.object s.globalObject) body).trans (onHeap_error hhoist s))
  unfold program
  rw [bind_ok (rfl : globalFrame s m = .ok _ m)]
  exact bind_error hbody

theorem dispatch_stops {handler : String} {event : Heap.Step Value}
    (hstop : safePoint s m = .error e n) : dispatch handler event s m = .error e n :=
  bind_error hstop

end Run

namespace Machine

variable {s : Setting} {m : Machine} {v : Value}

theorem runProgram_raises {first : Source.Stmt} {rest : Source.Program} {h : Heap}
    (hkind : m.scopes.kind? s.globalScope = some .global) (hlevel : m.nesting.level = 0)
    (hpending : m.pending = some v) (hhorizon : m.polls < s.horizon)
    (hanswer : s.answer m.polls m.host.logged = none)
    (hhoist : Heap.hoist ⟨s.globalObject, s.globalScope⟩ (Source.declared (first :: rest)) m.heap =
      .ok () h) :
    m.runProgram s (first :: rest) =
      (.thrown v first.line,
        { m with
          heap := h
          pending := none
          line := first.line
          throwLine := first.line
          nesting := m.nesting.enter.leave
          polls := m.polls + 1 }) := by
  have hstop := Run.safePoint_raises (s := s)
    (m := { m with heap := h, line := first.line, nesting := m.nesting.enter })
    hpending hhorizon hanswer
  rw [runProgram, Run.program_stops hkind hlevel hhoist hstop]
  rfl

theorem runProgram_undeclared {body : Source.Program} {reason : TerminationReason} {h : Heap}
    (hkind : m.scopes.kind? s.globalScope = some .global)
    (hhoist : Heap.hoist ⟨s.globalObject, s.globalScope⟩ (Source.declared body) m.heap =
      .error reason h) :
    m.runProgram s body = (.terminated reason, { m with heap := h }.halt reason) := by
  rw [runProgram, Run.program_undeclared hkind hhoist]
  rfl

theorem dispatch_raises (hpending : m.pending = some v) (hhorizon : m.polls < s.horizon)
    (hanswer : s.answer m.polls m.host.logged = none) (handler : String)
    (event : Heap.Step Value) :
    m.dispatch s handler event =
      (.thrown v m.line,
        { m with polls := m.polls + 1, pending := none, throwLine := m.line }) := by
  rw [dispatch, Run.dispatch_stops (Run.safePoint_raises hpending hhorizon hanswer)]
  rfl

/-- What was pending is so at the end of a run, or has been thrown out of it. -/
def Spent (before : Option Value) (r : Completion × Machine) : Prop :=
  r.2.pending = before ∨
    r.2.pending = none ∧ ∃ v line, before = some v ∧ r.1 = .thrown v line

theorem spent_of_stop {e : Abrupt} {n : Machine}
    (h : n.pending = some v ∧ e.isFinal = true ∨ n.pending = none ∧ e = .thrown v) :
    Spent (some v) (Run.finish (.error e n)) := by
  rcases h with ⟨hpending, -⟩ | ⟨hpending, rfl⟩
  · refine .inl ?_
    rw [Run.finish_left]
    exact hpending
  · exact .inr ⟨hpending, v, n.throwLine, rfl, rfl⟩

theorem spent_program (hkind : m.scopes.kind? s.globalScope = some .global)
    (hlevel : m.nesting.level = 0) (hpending : m.pending = some v) (body : Source.Program) :
    Spent (some v) (m.runProgram s body) := by
  cases hhoist : Heap.hoist ⟨s.globalObject, s.globalScope⟩ (Source.declared body) m.heap with
  | error reason h =>
      rw [runProgram_undeclared hkind hhoist]
      exact .inl hpending
  | ok _ h =>
      cases body with
      | nil => exact .inl hpending
      | cons first rest =>
          obtain ⟨e, n, hstop, hend⟩ := Run.safePoint_stops s
            (m := { m with heap := h, line := first.line, nesting := m.nesting.enter }) hpending
          rw [runProgram, Run.program_stops hkind hlevel hhoist hstop]
          exact spent_of_stop hend

theorem spent_dispatch (hpending : m.pending = some v) (s : Setting) (handler : String)
    (event : Heap.Step Value) : Spent (some v) (m.dispatch s handler event) := by
  obtain ⟨e, n, hstop, hend⟩ := Run.safePoint_stops s hpending
  rw [dispatch, Run.dispatch_stops hstop]
  exact spent_of_stop hend

theorem pending_complain {α : Type} (complaint : Complaint) (s : Setting) (m : Machine) :
    (Run.left (Run.complain complaint s m : EStateM.Result Abrupt Machine α)).pending =
      m.pending := by
  rw [Run.complain_eq]
  cases Heap.allocateError complaint.kind complaint.message m.heap <;> rfl

/-- Nothing that a script does makes an exception pending. -/
theorem idle_law : Law fun m => m.pending = none where
  books _ _ := id
  nesting _ _ := id
  polls _ _ := id
  halt _ _ := id
  spend _ _ := rfl
  allocate _ _ _ := id
  write _ _ _ := id
  openChild _ _ _ := id
  bind _ _ _ _ := id
  host _ _ _ := id
  portCall s m port function args _ hm := by
    rw [Run.portCall_eq]
    split
    · exact hm
    · exact (pending_complain _ s (m.post port function args)).trans hm

theorem spent_perform (hkind : m.scopes.kind? s.globalScope = some .global)
    (hlevel : m.nesting.level = 0) (task : Task) : Spent m.pending (task.perform m s) := by
  cases hpending : m.pending with
  | none => exact .inl (idle_law.perform hpending s task fun _ _ _ _ hn _ => hn)
  | some v =>
      cases task with
      | program body => exact spent_program hkind hlevel hpending body
      | message handler data => exact spent_dispatch hpending s handler _
      | connect handler port => exact spent_dispatch hpending s handler _

end Machine

end ScriptHost
