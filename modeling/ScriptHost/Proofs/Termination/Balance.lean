import ScriptHost.Proofs.Heap.Refusal
import ScriptHost.Proofs.Run.Keeping
import ScriptHost.Proofs.Run.Rules
import ScriptHost.Proofs.Termination.Depth

/-!
The levels of nesting and of calls are the same after a computation as before it, however it ends,
and never more than their limits. What would go deeper ends with an error that a script can catch.
-/

namespace ScriptHost

open Source (Expr Stmt)

variable {α β : Type}

/-- A machine before and after a computation within which calls nest up to a limit. -/
structure Machine.Balances (limit : Nat) (m n : Machine) : Prop where
  nesting : n.nesting.level = m.nesting.level
  calls : n.calls.level = m.calls.level
  deepest : n.nesting.peak ≤ max m.nesting.peak Run.nestingLimit
  farthest : n.calls.peak ≤ max m.calls.peak limit

namespace Machine.Balances

variable {limit : Nat} {l m n : Machine}

theorem of_gauges (hnesting : n.nesting = m.nesting) (hcalls : n.calls = m.calls) :
    m.Balances limit n := by
  refine ⟨by rw [hnesting], by rw [hcalls], ?_, ?_⟩
  · rw [hnesting]
    exact Nat.le_max_left _ _
  · rw [hcalls]
    exact Nat.le_max_left _ _

theorem trans (hm : l.Balances limit m) (hn : m.Balances limit n) : l.Balances limit n := by
  obtain ⟨hnesting, hcalls, hdeepest, hfarthest⟩ := hm
  obtain ⟨hnesting', hcalls', hdeepest', hfarthest'⟩ := hn
  exact ⟨hnesting'.trans hnesting, hcalls'.trans hcalls, by omega, by omega⟩

theorem leave (hm : m.nesting.level < Run.nestingLimit)
    (hn : { m with nesting := m.nesting.enter }.Balances limit n) :
    m.Balances limit { n with nesting := n.nesting.leave } := by
  obtain ⟨hnesting, hcalls, hdeepest, hfarthest⟩ := hn
  simp only [Gauge.level_enter, Gauge.peak_enter] at hnesting hdeepest
  refine ⟨?_, hcalls, ?_, hfarthest⟩
  · rw [Gauge.level_leave, hnesting]
    rfl
  · rw [Gauge.peak_leave]
    omega

theorem endCall (hm : m.calls.level < limit)
    (hn : { m with calls := m.calls.enter }.Balances limit n) (line : Nat) :
    m.Balances limit { n with calls := n.calls.leave, line := line } := by
  obtain ⟨hnesting, hcalls, hdeepest, hfarthest⟩ := hn
  simp only [Gauge.level_enter, Gauge.peak_enter] at hcalls hfarthest
  refine ⟨hnesting, ?_, hdeepest, ?_⟩
  · rw [Gauge.level_leave, hcalls]
    rfl
  · rw [Gauge.peak_leave]
    omega

end Machine.Balances

namespace Run

/-- Balance wherever the limit on calls and their level are as given. -/
def Balanced (P : Nat → Nat → Prop) (x : Run α) : Prop :=
  ∀ (s : Setting) (m : Machine), P s.maxCallDepth m.calls.level →
    m.Balances s.maxCallDepth (left (x s m))

namespace Balanced

variable {P : Nat → Nat → Prop} {x : Run α} {f : α → Run β}

theorem of_gauges (hsame : ∀ s m, ((left (x s m)).nesting, (left (x s m)).calls) =
    (m.nesting, m.calls)) : Balanced P x := by
  intro s m _
  obtain ⟨hnesting, hcalls⟩ := Prod.mk.inj (hsame s m)
  exact .of_gauges hnesting hcalls

theorem pure (a : α) : Balanced P (pure a) :=
  of_gauges fun _ _ => rfl

theorem error (e : Abrupt) : Balanced P (throw e : Run α) :=
  of_gauges fun _ _ => rfl

theorem bind (hx : Balanced P x) (hf : ∀ a, Balanced P (f a)) : Balanced P (x >>= f) := by
  intro s m hm
  have hfirst := hx s m hm
  cases h : x s m with
  | ok a n =>
    rw [h] at hfirst
    rw [bind_ok h]
    refine hfirst.trans (hf a s n ?_)
    rw [show n.calls.level = m.calls.level from hfirst.calls]
    exact hm
  | error e n =>
    rw [h] at hfirst
    rw [bind_error h]
    exact hfirst

theorem onHeap (step : Heap.Step α) : Balanced P (onHeap step) := by
  intro s m _
  rcases left_onHeap step s m with hleft | ⟨reason, hleft⟩
  · rw [hleft]
    exact .of_gauges rfl rfl
  · rw [hleft]
    exact .of_gauges rfl rfl

theorem raise (value : Value) : Balanced P (raise value : Run α) :=
  of_gauges fun _ _ => rfl

theorem complain (complaint : Complaint) : Balanced P (complain complaint : Run α) :=
  bind (of_gauges fun _ _ => rfl) fun _ => (onHeap _).bind fun _ => raise _

theorem attempt (hx : Balanced P x) : Balanced P (attempt x) := by
  intro s m hm
  have hleft := hx s m hm
  cases h : x s m with
  | ok a n =>
    rw [h] at hleft
    rw [attempt_ok h]
    exact hleft
  | error e n =>
    rw [h] at hleft
    rw [attempt_error h]
    exact hleft

theorem aside (hx : Balanced P x) : Balanced P (aside x) := by
  intro s m hm
  rw [aside_eq, left_mapState]
  have hinner := hx s { m with completion := .undefined } hm
  exact ⟨hinner.nesting, hinner.calls, hinner.deepest, hinner.farthest⟩

theorem safePoint : Balanced P safePoint := by
  intro s m _
  unfold Run.safePoint
  split
  · exact .of_gauges rfl rfl
  · dsimp only
    split
    · exact .of_gauges rfl rfl
    · split
      · exact .of_gauges rfl rfl
      · exact .of_gauges rfl rfl

theorem checkCallDepth : Balanced P checkCallDepth := by
  intro s m hm
  unfold Run.checkCallDepth
  split
  · exact complain _ s m hm
  · exact .of_gauges rfl rfl

theorem repeatFor {round : Run Bool} (hround : Balanced P round) (rounds : Nat) :
    Balanced P (repeatFor round rounds) := by
  induction rounds with
  | zero => exact error _
  | succ rounds ih =>
    refine hround.bind fun goesOn => ?_
    split
    · exact ih
    · exact pure _

theorem repeatWhile {round : Run Bool} (hround : Balanced P round) :
    Balanced P (repeatWhile round) :=
  fun s m => (safePoint.bind fun _ => hround).repeatFor (s.horizon - m.polls + 1) s m

theorem assignName (name : String) (value : Value) (frame : Frame) :
    Balanced P (assignName name value frame) := by
  refine bind (of_gauges fun _ _ => rfl) fun scopes => ?_
  split
  · split
    · exact of_gauges fun _ _ => rfl
    · exact complain _
  · exact bind (of_gauges fun _ _ => rfl) fun s => onHeap _

theorem alikeThroughout (P : Nat → Nat → Prop) :
    AlikeThroughout fun α x _ => @Balanced α P x where
  pure := pure
  bind := bind
  heap := of_gauges fun _ _ => rfl
  scopes := of_gauges fun _ _ => rfl
  setting := of_gauges fun _ _ => rfl
  onHeap step _ := onHeap step
  onHost _ := of_gauges fun _ _ => rfl
  unchecked _ := of_gauges fun _ _ => rfl
  raise := raise
  record function native args := by
    cases native <;> exact of_gauges fun _ _ => rfl
  assignName := assignName
  error := error
  attempt := attempt
  aside := aside
  repeatWhile := repeatWhile
  safePoint := safePoint
  globalThis := of_gauges fun _ _ => rfl
  setLine _ := of_gauges fun _ _ => rfl
  setCompletion _ := of_gauges fun _ _ => rfl
  openChild _ _ := of_gauges fun _ _ => rfl
  bindName _ _ _ := of_gauges fun _ _ => rfl

/-! ### One level deeper -/

theorem nested (hx : Balanced P x) : Balanced P (nested x) := by
  intro s m hm
  by_cases hlimit : nestingLimit ≤ m.nesting.level
  · rw [Run.nested, if_pos hlimit]
    exact complain _ s m hm
  · rw [nested_below x s hlimit, left_mapState]
    exact (hx s { m with nesting := m.nesting.enter } hm).leave (Nat.lt_of_not_le hlimit)

/-- The body of a function, provided that the call was allowed for. -/
theorem inCall (hx : Balanced (fun _ _ => True) x) :
    Balanced (fun limit level => level < limit) (inCall x) := by
  intro s m hm
  rw [inCall_eq, left_mapState]
  exact (hx.aside s { m with calls := m.calls.enter } trivial).endCall hm m.line

end Balanced

end Run

namespace Evaluator

open Run

variable {self : Evaluator}

abbrev Balanced (self : Evaluator) : Prop :=
  self.AlikeThroughout (fun α x _ => @Run.Balanced α (fun _ _ => True) x) self

theorem callScript_refused (self : Evaluator) (code : Source.Function) (closure : ScopeId)
    (this : Value) (args : List Value) {s : Setting} {m : Machine}
    (hm : s.maxCallDepth ≤ m.calls.level) :
    self.callScript code closure this args s m = complain .stackOverflow s m := by
  have hcheck : checkCallDepth s m = complain .stackOverflow s m := if_pos hm
  rw [complain_eq] at hcheck ⊢
  split at hcheck
  · exact bind_error hcheck
  · exact bind_error hcheck

theorem Balanced.callScript (h : self.Balanced) (code : Source.Function) (closure : ScopeId)
    (this : Value) (args : List Value) :
    Run.Balanced (fun _ _ => True) (self.callScript code closure this args) := by
  have hbelow {α : Type} {x : Run α} (hx : Run.Balanced (fun _ _ => True) x) :
      Run.Balanced (fun limit level => level < limit) x := fun s m _ => hx s m trivial
  have hself : self.AlikeThroughout
      (fun α x _ => @Run.Balanced α (fun limit level => level < limit) x) self :=
    ⟨Run.Balanced.alikeThroughout _, fun e frame => hbelow (h.eval e frame),
      fun stmt frame => hbelow (h.exec stmt frame)⟩
  intro s m _
  by_cases hlimit : s.maxCallDepth ≤ m.calls.level
  · rw [callScript_refused self code closure this args hlimit]
    exact Run.Balanced.complain (P := fun _ _ => True) _ s m trivial
  · refine hself.callScript .checkCallDepth code (fun frame => ?_) closure this args s m
      (Nat.lt_of_not_le hlimit)
    exact (h.execStatements frame code.body).inCall

theorem Balanced.alike (h : self.Balanced) :
    self.Alike (fun α x _ => @Run.Balanced α (fun _ _ => True) x) self :=
  AlikeThroughout.alike h h.callScript

theorem balanced_ofDepth (depth : Nat) : (ofDepth depth).Balanced := by
  have hsteps := Run.Balanced.alikeThroughout fun _ _ => True
  induction depth with
  | zero => exact ⟨hsteps, fun _ _ => .complain _, fun _ _ => .complain _⟩
  | succ depth ih =>
    refine ⟨hsteps, fun e frame => (ih.alike.evalExpr frame e).nested, fun stmt frame => ?_⟩
    refine Run.Balanced.nested (.bind (hsteps.setLine _) fun _ => .bind .safePoint fun _ => ?_)
    exact ih.execKind frame stmt.kind

end Evaluator

/-! ## Whole runs -/

namespace Run.Balanced

theorem program (body : Source.Program) : Balanced (fun _ _ => True) (program body) := by
  refine bind (of_gauges fun _ _ => rfl) fun frame => ?_
  refine ((Evaluator.balanced_ofDepth nestingLimit).execStatements frame body).bind fun _ => ?_
  exact of_gauges fun _ _ => rfl

theorem dispatch (handler : String) (event : Heap.Step Value) :
    Balanced (fun _ _ => True) (dispatch handler event) := by
  have hsteps := alikeThroughout fun _ _ => True
  refine safePoint.bind fun _ => bind hsteps.setting fun s => bind hsteps.heap fun h => ?_
  dsimp only
  split
  · refine (onHeap event).bind fun event => ?_
    exact (Evaluator.balanced_ofDepth nestingLimit).alike.call _ _ _ handler
  · exact pure _

theorem task (task : Task) : Balanced (fun _ _ => True) task.run := by
  cases task with
  | program body => exact program body
  | message handler data => exact dispatch handler _
  | connect handler port => exact dispatch handler _

end Run.Balanced

/-! ## Beyond the limits -/

/-- A throw of the error that stands for a stack that is too deep, or no memory for that error. -/
inductive Run.Overflows (m : Machine) : EStateM.Result Abrupt Machine α → Prop
  | thrown {error : Value} {n : Machine} :
      Heap.allocateError .range "Maximum call stack size exceeded" m.heap = .ok error n.heap →
      Overflows m (.error (.thrown error) n)
  | terminated {n : Machine} :
      Heap.allocateError .range "Maximum call stack size exceeded" m.heap =
        .error .memoryLimit n.heap →
      Overflows m (.error (.terminated .memoryLimit) n)

/-- An operand that is evaluated before anything else in the expression. -/
inductive Source.Expr.Leads : Expr → Expr → Prop
  | unary {op : Source.UnaryOp} {operand : Expr} :
      (op = .typeOf → ∀ name, operand ≠ .name name) → Leads operand (.unary op operand)
  | binary {op : Source.BinaryOp} {left right : Expr} : Leads left (.binary op left right)
  | logical {op : Source.LogicalOp} {left right : Expr} : Leads left (.logical op left right)
  | conditional {test consequent alternate : Expr} :
      Leads test (.conditional test consequent alternate)
  | array {first : Expr} {rest : List Expr} : Leads first (.array (first :: rest))
  | object {key : String} {first : Expr} {rest : List (String × Expr)} :
      Leads first (.object ((key, first) :: rest))
  | assign {target value : Expr} : Leads value (.assign none target value)
  | compound {op : Source.BinaryOp} {target value : Expr} :
      Leads target (.assign (some op) target value)
  | update {increment before : Bool} {target : Expr} : Leads target (.update increment before target)
  | member {object : Expr} {property : String} : Leads object (.member object property)
  | index {object key : Expr} : Leads object (.index object key)
  | callMember {object : Expr} {property : String} {args : List Expr} :
      Leads object (.call (.member object property) args)
  | callIndex {object key : Expr} {args : List Expr} : Leads object (.call (.index object key) args)
  | call {callee : Expr} {args : List Expr} : callee.isAssignable = false →
      Leads callee (.call callee args)
  | construct {callee : Expr} {args : List Expr} : Leads callee (.construct callee args)

/-- First operands of first operands, so many levels down. -/
inductive Source.Expr.Descends : Expr → Nat → Prop
  | here (e : Expr) : Descends e 0
  | down {first e : Expr} {n : Nat} : first.Leads e → Descends first n → Descends e (n + 1)

theorem Heap.allocateError_refused {h k : Heap} {kind : ErrorKind} {message : String}
    {reason : TerminationReason} (hno : allocateError kind message h = .error reason k) :
    reason = .memoryLimit := by
  simp only [allocateError, Functor.map, EStateM.map] at hno
  cases hallocate : allocate (errorObject kind message) h with
  | ok id l =>
    rw [hallocate] at hno
    cases hno
  | error reason' l =>
    rw [hallocate] at hno
    obtain ⟨rfl, -⟩ := EStateM.Result.error.inj hno
    exact (allocate_refused hallocate).1

namespace Run.Overflows

variable {s : Setting} {m : Machine} {x : Run α}

theorem complain (s : Setting) (m : Machine) :
    Overflows m (complain .stackOverflow s m : EStateM.Result Abrupt Machine α) := by
  rw [complain_eq]
  cases h : Heap.allocateError Complaint.stackOverflow.kind Complaint.stackOverflow.message m.heap with
  | ok error heap => exact .thrown h
  | error reason heap =>
    obtain rfl := Heap.allocateError_refused h
    exact .terminated h

theorem bind {f : α → Run β} (hx : Overflows m (x s m)) : Overflows m ((x >>= f) s m) := by
  generalize h : x s m = r at hx
  cases hx with
  | thrown herror => 
    rw [bind_error h]
    exact .thrown herror
  | terminated herror =>
    rw [bind_error h]
    exact .terminated herror

theorem leave {r : EStateM.Result Abrupt Machine α}
    (hr : Overflows { m with nesting := m.nesting.enter } r) :
    Overflows m (mapState (fun n => { n with nesting := n.nesting.leave }) r) := by
  cases hr with
  | thrown herror => exact .thrown herror
  | terminated herror => exact .terminated herror

end Run.Overflows

namespace Evaluator

open Run

variable {s : Setting} {m : Machine}

theorem evalExpr_of_leads {first e : Expr} (he : first.Leads e) (self : Evaluator)
    (frame : Frame) : ∃ rest : Value → Run Value,
      self.evalExpr e frame = self.eval first frame >>= rest := by
  cases he with
  | @unary op _ hname =>
    cases op with
    | typeOf =>
      cases first with
      | name name => exact absurd rfl (hname rfl name)
      | _ => exact ⟨_, rfl⟩
    | negate | plus | not => exact ⟨_, rfl⟩
  | array => exact ⟨_, bind_assoc _ _ _⟩
  | object => exact ⟨_, bind_assoc _ _ _⟩
  | call hcallee =>
    cases first with
    | name | member | index => cases hcallee
    | _ => exact ⟨_, rfl⟩
  | _ => exact ⟨_, rfl⟩

theorem overflows_of_descends {e : Expr} {n : Nat} (he : e.Descends n) (depth : Nat)
    (frame : Frame) (s : Setting) {m : Machine} (hm : nestingLimit ≤ m.nesting.level + n) :
    Overflows m ((ofDepth depth).eval e frame s m) := by
  induction n generalizing e depth m with
  | zero =>
    rw [levels.eval_refused depth e frame hm]
    exact .complain s m
  | succ n ih =>
    cases depth with
    | zero => exact .complain s m
    | succ depth =>
      by_cases hlimit : nestingLimit ≤ m.nesting.level
      · rw [levels.eval_refused (depth + 1) e frame hlimit]
        exact .complain s m
      · change Overflows m (Run.nested ((ofDepth depth).evalExpr e frame) s m)
        cases he with
        | down hfirst hdescends =>
        obtain ⟨rest, heval⟩ := evalExpr_of_leads hfirst (ofDepth depth) frame
        have hdeeper := ih hdescends depth (m := { m with nesting := m.nesting.enter }) (by
          rw [Gauge.level_enter]
          omega)
        rw [nested_below _ s hlimit, heval]
        exact (Overflows.bind hdeeper).leave

theorem execGuarded_thrown {self : Evaluator} {block : List Stmt} {frame : Frame} {s : Setting}
    {m n : Machine} {v : Value} (hblock : self.execBlock block frame s m = .error (.thrown v) n)
    (param : Option String) (handler : List Stmt) :
    self.execGuarded block param (some handler) frame s m =
      attempt (self.execHandler param v handler frame) s n := by
  unfold execGuarded
  rw [bind_ok (attempt_error hblock)]

/--
Every expression, statement and call leaves the levels as it found them, whatever way it ends, and
in a whole run they stay within their limits. What would go beyond a limit throws an error, or ends
for want of the memory for it, and so does an expression whose first operands reach that far. A
handler for what a block throws runs at the levels that the block was entered at.
-/
theorem levels_balanced (s : Setting) (depth : Nat) :
    let self := ofDepth depth
    (∀ e frame m, Machine.Balances s.maxCallDepth m (left (self.eval e frame s m))) ∧
    (∀ stmt frame m, Machine.Balances s.maxCallDepth m (left (self.exec stmt frame s m))) ∧
    (∀ code closure this args m,
      Machine.Balances s.maxCallDepth m (left (self.callScript code closure this args s m))) ∧
    (∀ (task : Task) heap scopes pending host,
      let n := (task.perform (.start heap scopes pending host) s).2
      n.nesting.level = 0 ∧ n.calls.level = 0 ∧ n.nesting.peak ≤ 512 ∧
        n.calls.peak ≤ s.maxCallDepth) ∧
    (∀ e frame m n, e.Descends n → 512 ≤ m.nesting.level + n →
      Overflows m (self.eval e frame s m)) ∧
    (∀ stmt frame m, 512 ≤ m.nesting.level → Overflows m (self.exec stmt frame s m)) ∧
    (∀ code closure this args m, s.maxCallDepth ≤ m.calls.level →
      Overflows m (self.callScript code closure this args s m)) ∧
    ∀ block param handler frame m v n, self.execBlock block frame s m = .error (.thrown v) n →
      n.nesting.level = m.nesting.level ∧ n.calls.level = m.calls.level ∧
        self.execGuarded block param (some handler) frame s m =
          attempt (self.execHandler param v handler frame) s n := by
  intro self
  have hself : self.Balanced := balanced_ofDepth depth
  refine ⟨fun e frame m => hself.eval e frame s m trivial,
    fun stmt frame m => hself.exec stmt frame s m trivial,
    fun code closure this args m => hself.callScript code closure this args s m trivial,
    fun task heap scopes pending host => ?_,
    fun e frame m n he hm => overflows_of_descends he depth frame s hm,
    fun stmt frame m hm => ?_, fun code closure this args m hm => ?_,
    fun block param handler frame m v n hblock => ?_⟩
  · obtain ⟨hnesting, hcalls, hdeepest, hfarthest⟩ :=
      Run.Balanced.task task s (.start heap scopes pending host) trivial
    rw [Task.perform_eq, finish_left]
    exact ⟨hnesting, hcalls, by simpa [Machine.start, Gauge.zero, nestingLimit] using hdeepest,
      by simpa [Machine.start, Gauge.zero] using hfarthest⟩
  · rw [levels.exec_refused depth stmt frame hm]
    exact .complain s m
  · rw [callScript_refused self code closure this args hm]
    exact .complain s m
  · have hleft := hself.execBlock frame block s m trivial
    rw [hblock] at hleft
    exact ⟨hleft.nesting, hleft.calls, execGuarded_thrown hblock param handler⟩

/-- A sum that goes one level too deep, in a block with a handler, where no calls are allowed for. -/
theorem levels_balanced_sum :
    let s : Setting := ⟨fun _ _ => none, 1, 0, ⟨1, 0, 0⟩, 0⟩
    let machine (level : Nat) : Machine :=
      { Machine.start (.empty 1 {}) Scopes.empty.openGlobal.2 none (.new "" [] false (.shared "" #[]))
        with nesting := ⟨level, level⟩ }
    let self := ofDepth 3
    let frame : Frame := ⟨0, .undefined⟩
    let sum : Expr := .binary .add (.bool true) .null
    let block : List Stmt := [.mk 1 (.expression sum)]
    Overflows (machine 511) (self.eval sum frame s (machine 511)) ∧
      Overflows (machine 512) (self.exec (.mk 1 .empty) frame s (machine 512)) ∧
      Overflows (machine 0) (self.callScript (.mk none [] []) 0 .undefined [] s (machine 0)) ∧
      ∃ v n, self.execBlock block frame s (machine 510) = .error (.thrown v) n ∧
        n.nesting.level = 510 ∧ n.calls.level = 0 ∧
        self.execGuarded block (some "e") (some []) frame s (machine 510) =
          attempt (self.execHandler (some "e") v [] frame) s n := by
  intro s machine self frame sum block
  obtain ⟨-, -, -, -, hdeep, hstatement, hcall, hcaught⟩ := levels_balanced s 3
  have hblock : ∃ v n, self.execBlock block frame s (machine 510) = .error (.thrown v) n :=
    ⟨_, _, rfl⟩
  obtain ⟨v, n, hthrown⟩ := hblock
  obtain ⟨hnesting, hcalls, hguarded⟩ := hcaught block (some "e") [] frame _ v n hthrown
  exact ⟨hdeep sum frame _ 1 (.down .binary (.here _)) (Nat.le_refl 512),
    hstatement _ frame _ (Nat.le_refl 512), hcall _ 0 .undefined [] _ (Nat.le_refl 0),
    v, n, hthrown, hnesting, hcalls, hguarded⟩

end Evaluator

end ScriptHost
