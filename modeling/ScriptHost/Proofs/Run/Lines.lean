import ScriptHost.Proofs.Run.Keeping

/-!
The line that an exception is reported with. The machine has one line for all statements under way
and one for all exceptions on their way. Beside it stand machines that keep other books of lines:
they run alike, but for the lines themselves.
-/

namespace ScriptHost

open Source (Expr Stmt StmtKind)

variable {α β : Type}

/--
What becomes of the line after a statement, and of the line of a throw after a finalizer that ran
through: from what it was before and what it is by then.
-/
structure Bookkeeping where
  afterStatement : Nat → Nat → Nat
  afterFinalizer : Nat → Nat → Nat

namespace Bookkeeping

/-- What was written last stays. -/
def latest : Bookkeeping where
  afterStatement _ now := now
  afterFinalizer _ now := now

/--
The line is always that of the innermost statement under way, and the line of a throw that of the
exception on its way.
-/
def lexical : Bookkeeping where
  afterStatement before _ := before
  afterFinalizer before _ := before

/-- What was there before, or zero if that is gone: lines are counted from one. -/
def agreed (before now : Nat) : Nat :=
  if now = before then before else 0

/-- A line that another one was written over is in doubt. -/
def doubtful : Bookkeeping where
  afterStatement := agreed
  afterFinalizer := agreed

/-- Nothing is written but what was there before or is there by then. -/
structure Plain (b : Bookkeeping) : Prop where
  afterStatement : ∀ before now,
    b.afterStatement before now = before ∨ b.afterStatement before now = now
  afterFinalizer : ∀ before now,
    b.afterFinalizer before now = before ∨ b.afterFinalizer before now = now

theorem latest_plain : latest.Plain :=
  ⟨fun _ _ => .inr rfl, fun _ _ => .inr rfl⟩

theorem lexical_plain : lexical.Plain :=
  ⟨fun _ _ => .inl rfl, fun _ _ => .inl rfl⟩

theorem agreed_cases (before now : Nat) :
    agreed before now = 0 ∨ now = before ∧ agreed before now = before := by
  by_cases h : now = before
  · exact .inr ⟨h, if_pos h⟩
  · exact .inl (if_neg h)

end Bookkeeping

/-! ## Machines with other books -/

namespace Run

def settingLine (after : Nat → Nat → Nat) (run : Run α) : Run α :=
  fun s m => mapState (fun n => { n with line := after m.line n.line }) (run s m)

/-- An exception that the computation ends with has a line of its own. -/
def settingThrowLine (after : Nat → Nat → Nat) (run : Run α) : Run α :=
  fun s m =>
    match run s m with
    | .ok a n => .ok a { n with throwLine := after m.throwLine n.throwLine }
    | .error abrupt n => .error abrupt n

theorem settingLine_now (x : Run α) : settingLine (fun _ now => now) x = x := by
  funext s m
  unfold settingLine
  cases x s m <;> rfl

theorem settingThrowLine_now (x : Run α) : settingThrowLine (fun _ now => now) x = x := by
  funext s m
  unfold settingThrowLine
  cases x s m <;> rfl

end Run

namespace Evaluator

open Run

def execAttemptWith (b : Bookkeeping) (self : Evaluator) (block : List Stmt)
    (param : Option String) (handler finalizer : Option (List Stmt)) (frame : Frame) :
    Run Unit := do
  let ending ← self.execGuarded block param handler frame
  match finalizer with
  | some finalizer =>
      if isFinal ending then pure ()
      else settingThrowLine b.afterFinalizer (aside (self.execBlock finalizer frame))
  | none => pure ()
  match ending with
  | .ok () => pure ()
  | .error abrupt => throw abrupt

def execKindWith (b : Bookkeeping) (self : Evaluator) (kind : StmtKind) (frame : Frame) :
    Run Unit :=
  match kind with
  | .attempt block param handler finalizer =>
      self.execAttemptWith b block param handler finalizer frame
  | kind => self.execKind kind frame

def execStmtWith (b : Bookkeeping) (self : Evaluator) (stmt : Stmt) (frame : Frame) : Run Unit :=
  settingLine b.afterStatement do
    setLine stmt.line
    safePoint
    self.execKindWith b stmt.kind frame

def deeperWith (b : Bookkeeping) (self : Evaluator) : Evaluator where
  eval := fun e frame => nested (self.evalExpr e frame)
  exec := fun stmt frame => nested (self.execStmtWith b stmt frame)

def ofDepthWith (b : Bookkeeping) : Nat → Evaluator
  | 0 => exhausted
  | depth + 1 => deeperWith b (ofDepthWith b depth)

theorem execKindWith_latest (self : Evaluator) (kind : StmtKind) (frame : Frame) :
    self.execKindWith .latest kind frame = self.execKind kind frame := by
  cases kind with
  | attempt block param handler finalizer =>
    refine bind_congr fun ending => ?_
    cases finalizer with
    | none => rfl
    | some finalizer =>
      have hfinalizer := settingThrowLine_now (aside (self.execBlock finalizer frame))
      dsimp only
      split
      · rfl
      · exact congrArg (· >>= _) hfinalizer
  | _ => rfl

theorem ofDepthWith_latest (depth : Nat) : ofDepthWith .latest depth = ofDepth depth := by
  induction depth with
  | zero => rfl
  | succ depth ih =>
    have hexec (stmt : Stmt) (frame : Frame) :
        (ofDepth depth).execStmtWith .latest stmt frame =
          (ofDepth depth).execStmt stmt frame := by
      unfold execStmtWith execStmt
      rw [execKindWith_latest]
      exact settingLine_now _
    rw [ofDepthWith, ih, ofDepth, deeperWith, deeper]
    simp only [hexec]

end Evaluator

namespace Run

def programWith (b : Bookkeeping) (body : Source.Program) : Run Value := do
  let frame ← globalFrame
  (Evaluator.ofDepthWith b nestingLimit).execStatements body frame
  completion

theorem programWith_latest (body : Source.Program) : programWith .latest body = program body := by
  unfold programWith program
  rw [Evaluator.ofDepthWith_latest]
  rfl

end Run

/-! ## Doubt -/

/-- The same machine, but for lines that are in doubt in the first one. -/
structure Machine.Agrees (m m' : Machine) : Prop where
  rest : m' = { m with line := m'.line, throwLine := m'.throwLine }
  line : m.line = 0 ∨ m'.line = m.line
  throwLine : m.throwLine = 0 ∨ m'.throwLine = m.throwLine

theorem Machine.Agrees.refl (m : Machine) : m.Agrees m :=
  ⟨rfl, .inr rfl, .inr rfl⟩

namespace Run

inductive Agree : EStateM.Result Abrupt Machine α → EStateM.Result Abrupt Machine α → Prop
  | ok {a : α} {m m' : Machine} : m.Agrees m' → Agree (.ok a m) (.ok a m')
  | error {e : Abrupt} {m m' : Machine} : m.Agrees m' → Agree (.error e m) (.error e m')

theorem Agree.mapState {f g : Machine → Machine} {r r' : EStateM.Result Abrupt Machine α}
    (h : Agree r r') (hf : ∀ m m', m.Agrees m' → (f m).Agrees (g m')) :
    Agree (mapState f r) (mapState g r') := by
  cases h with
  | ok hm => exact .ok (hf _ _ hm)
  | error hm => exact .error (hf _ _ hm)

def Follows (x y : Run α) : Prop :=
  ∀ s m m', m.Agrees m' → Agree (x s m) (y s m')

/-- A computation for which lines make no difference, and which leaves them as they are. -/
def Blind (x : Run α) : Prop :=
  ∀ s m line throwLine, x s { m with line := line, throwLine := throwLine } =
    mapState (fun n => { n with line := line, throwLine := throwLine }) (x s m)

theorem Blind.follows {x : Run α} (hx : Blind x) : Follows x x := by
  intro s m m' hm
  have hleft := hx s m m.line m.throwLine
  have hright := hx s m m'.line m'.throwLine
  rw [← hm.rest] at hright
  rw [hleft, hright]
  cases x s m with
  | ok a n => exact .ok ⟨rfl, hm.line, hm.throwLine⟩
  | error e n => exact .error ⟨rfl, hm.line, hm.throwLine⟩

namespace Follows

variable {x y : Run α}

theorem bind {f g : α → Run β} (hx : Follows x y) (hf : ∀ a, Follows (f a) (g a)) :
    Follows (x >>= f) (y >>= g) := by
  intro s m m' hm
  have hends := hx s m m' hm
  generalize hrx : x s m = rx, hry : y s m' = ry at hends
  cases hends with
  | ok hn =>
    rw [bind_ok hrx, bind_ok hry]
    exact hf _ s _ _ hn
  | error hn =>
    rw [bind_error hrx, bind_error hry]
    exact .error hn

theorem attempt (hx : Follows x y) : Follows (attempt x) (attempt y) := by
  intro s m m' hm
  have hends := hx s m m' hm
  generalize hrx : x s m = rx, hry : y s m' = ry at hends
  cases hends with
  | ok hn =>
    rw [attempt_ok hrx, attempt_ok hry]
    exact .ok hn
  | error hn =>
    rw [attempt_error hrx, attempt_error hry]
    exact .ok hn

theorem onHeap (step : Heap.Step α) : Follows (onHeap step) (onHeap step) := by
  refine Blind.follows fun s m line throwLine => ?_
  unfold Run.onHeap
  dsimp only
  cases step m.heap <;> rfl

theorem raise (value : Value) : Follows (raise value : Run α) (raise value) :=
  fun _ _ _ hm => .error ⟨congrArg (fun n : Machine => { n with throwLine := n.line }) hm.rest,
    hm.line, hm.line⟩

theorem complain (complaint : Complaint) :
    Follows (complain complaint : Run α) (complain complaint) :=
  (Blind.follows fun _ _ _ _ => rfl).bind fun _ => (onHeap _).bind raise

theorem safePoint : Follows safePoint safePoint := by
  intro s m m' hm
  obtain ⟨line, throwLine, rfl⟩ : ∃ line throwLine,
      m' = { m with line := line, throwLine := throwLine } := ⟨_, _, hm.rest⟩
  unfold Run.safePoint
  dsimp only
  split
  · exact .error hm
  · split
    · exact .error ⟨rfl, hm.line, hm.throwLine⟩
    · split
      · exact raise _ s _ _ ⟨rfl, hm.line, hm.throwLine⟩
      · exact .ok ⟨rfl, hm.line, hm.throwLine⟩

theorem checkCallDepth : Follows checkCallDepth checkCallDepth := by
  intro s m m' hm
  have hcalls : m'.calls = m.calls := by rw [hm.rest]
  unfold Run.checkCallDepth
  rw [hcalls]
  split
  · exact complain _ s m m' hm
  · exact .ok hm

/-- A computation that begins and ends with a change to the machine. -/
theorem around {x' y' : Run α} (hx : Follows x y) (enter : Machine → Machine)
    (leave : Machine → Machine → Machine)
    (hx' : ∀ s m, x' s m = mapState (leave m) (x s (enter m)))
    (hy' : ∀ s m, y' s m = mapState (leave m) (y s (enter m)))
    (henter : ∀ m m', m.Agrees m' → (enter m).Agrees (enter m'))
    (hleave : ∀ m m', m.Agrees m' → ∀ n n', n.Agrees n' → (leave m n).Agrees (leave m' n')) :
    Follows x' y' := by
  intro s m m' hm
  rw [hx', hy']
  exact (hx s _ _ (henter m m' hm)).mapState (hleave m m' hm)

theorem aside (hx : Follows x y) : Follows (aside x) (aside y) := by
  refine hx.around (fun m => { m with completion := .undefined })
    (fun m n => { n with completion := m.completion }) (aside_eq x) (aside_eq y) ?_ ?_
  · exact fun m m' hm =>
      ⟨congrArg (fun n : Machine => { n with completion := .undefined }) hm.rest, hm.line,
        hm.throwLine⟩
  · intro m m' hm n n' hn
    refine ⟨?_, hn.line, hn.throwLine⟩
    rw [hn.rest, hm.rest]

theorem inCall (hx : Follows x y) : Follows (inCall x) (inCall y) := by
  refine hx.aside.around (fun m => { m with calls := m.calls.enter })
    (fun m n => { n with calls := n.calls.leave, line := m.line }) (inCall_eq x) (inCall_eq y) ?_ ?_
  · exact fun m m' hm =>
      ⟨congrArg (fun n : Machine => { n with calls := n.calls.enter }) hm.rest, hm.line,
        hm.throwLine⟩
  · exact fun m m' hm n n' hn =>
      ⟨congrArg (fun k : Machine => { k with calls := k.calls.leave, line := m'.line }) hn.rest,
        hm.line, hn.throwLine⟩

theorem nested (hx : Follows x y) : Follows (nested x) (nested y) := by
  intro s m m' hm
  have hlevel : m'.nesting.level = m.nesting.level := by rw [hm.rest]
  by_cases hlimit : nestingLimit ≤ m.nesting.level
  · rw [Run.nested, if_pos hlimit, Run.nested, if_pos (hlevel ▸ hlimit)]
    exact complain _ s m m' hm
  · rw [nested_below x s hlimit, nested_below y s (hlevel ▸ hlimit)]
    refine (hx s _ _ ?_).mapState fun n n' hn => ?_
    · exact ⟨congrArg (fun n : Machine => { n with nesting := n.nesting.enter }) hm.rest, hm.line,
        hm.throwLine⟩
    · exact ⟨congrArg (fun n : Machine => { n with nesting := n.nesting.leave }) hn.rest, hn.line,
        hn.throwLine⟩

theorem repeatFor {x y : Run Bool} (hx : Follows x y) (rounds : Nat) :
    Follows (repeatFor x rounds) (repeatFor y rounds) := by
  induction rounds with
  | zero => exact Blind.follows fun _ _ _ _ => rfl
  | succ rounds ih =>
    refine hx.bind fun goesOn => ?_
    split
    · exact ih
    · exact Blind.follows fun _ _ _ _ => rfl

theorem repeatWhile {x y : Run Bool} (hx : Follows x y) :
    Follows (repeatWhile x) (repeatWhile y) := by
  intro s m m' hm
  have hpolls : m'.polls = m.polls := by rw [hm.rest]
  unfold Run.repeatWhile
  rw [hpolls]
  exact (safePoint.bind fun _ => hx).repeatFor _ s m m' hm

theorem assignName (name : String) (value : Value) (frame : Frame) :
    Follows (assignName name value frame) (assignName name value frame) := by
  refine bind (Blind.follows fun _ _ _ _ => rfl) fun scopes => ?_
  split
  · split
    · exact Blind.follows fun _ _ _ _ => rfl
    · exact complain _
  · exact bind (Blind.follows fun _ _ _ _ => rfl) fun s => onHeap _

theorem setLine (line : Nat) : Follows (setLine line) (setLine line) :=
  fun _ _ _ hm => .ok ⟨congrArg (fun n : Machine => { n with line := line }) hm.rest, .inr rfl,
    hm.throwLine⟩

theorem alikeThroughout : AlikeThroughout fun α => @Follows α where
  pure _ := Blind.follows fun _ _ _ _ => rfl
  bind := bind
  heap := Blind.follows fun _ _ _ _ => rfl
  scopes := Blind.follows fun _ _ _ _ => rfl
  setting := Blind.follows fun _ _ _ _ => rfl
  onHeap step _ := onHeap step
  onHost _ := Blind.follows fun _ _ _ _ => rfl
  unchecked _ := Blind.follows fun _ _ _ _ => rfl
  raise := raise
  record function native args := by
    cases native <;> exact Blind.follows fun _ _ _ _ => rfl
  assignName := assignName
  error _ := Blind.follows fun _ _ _ _ => rfl
  attempt := attempt
  aside := aside
  repeatWhile := repeatWhile
  safePoint := safePoint
  globalThis := Blind.follows fun _ _ _ _ => rfl
  setLine := setLine
  setCompletion _ := Blind.follows fun _ _ _ _ => rfl
  openChild _ _ := Blind.follows fun _ _ _ _ => rfl
  bindName _ _ _ := Blind.follows fun _ _ _ _ => rfl

/-! ### What is in doubt -/

/-- Lines that agree, or are in doubt, before and after are so once the books are made up. -/
theorem agreed_or {before before' now now' : Nat} {after : Nat → Nat → Nat}
    (hafter : ∀ before now, after before now = before ∨ after before now = now)
    (hbefore : before = 0 ∨ before' = before) (hnow : now = 0 ∨ now' = now) :
    Bookkeeping.agreed before now = 0 ∨
      after before' now' = Bookkeeping.agreed before now := by
  have hkept (line : Nat) : after line line = line := (hafter line line).elim id id
  rcases Bookkeeping.agreed_cases before now with hdoubt | ⟨hsame, hagreed⟩
  · exact .inl hdoubt
  · rw [hagreed]
    rcases hbefore with hzero | hbefore
    · exact .inl hzero
    · rcases hnow with hzero | hnow
      · exact .inl (hsame.symm.trans hzero)
      · rw [hbefore, hnow, hsame, hkept]
        exact .inr rfl

theorem settingLine {after : Nat → Nat → Nat} {x y : Run α} (hx : Follows x y)
    (hafter : ∀ before now, after before now = before ∨ after before now = now) :
    Follows (settingLine Bookkeeping.agreed x) (settingLine after y) :=
  fun s m m' hm => (hx s m m' hm).mapState fun _ n' hn =>
    ⟨congrArg (fun n : Machine => { n with line := after m'.line n'.line }) hn.rest,
      agreed_or hafter hm.line hn.line, hn.throwLine⟩

theorem settingThrowLine {after : Nat → Nat → Nat} {x y : Run α} (hx : Follows x y)
    (hafter : ∀ before now, after before now = before ∨ after before now = now) :
    Follows (settingThrowLine Bookkeeping.agreed x) (settingThrowLine after y) := by
  intro s m m' hm
  have hends := hx s m m' hm
  unfold Run.settingThrowLine
  generalize x s m = rx, y s m' = ry at hends
  cases hends with
  | @ok a n n' hn =>
    exact .ok ⟨congrArg (fun k : Machine =>
        { k with throwLine := after m'.throwLine n'.throwLine }) hn.rest, hn.line,
      agreed_or hafter hm.throwLine hn.throwLine⟩
  | error hn => exact .error hn

end Follows

end Run

namespace Evaluator

open Run

variable {b : Bookkeeping} {self other : Evaluator}

theorem execAttemptWith_follows (hb : b.Plain)
    (h : self.AlikeThroughout (fun α => @Run.Follows α) other) (block : List Stmt)
    (param : Option String) (handler finalizer : Option (List Stmt)) (frame : Frame) :
    Run.Follows (self.execAttemptWith .doubtful block param handler finalizer frame)
      (other.execAttemptWith b block param handler finalizer frame) := by
  refine (h.execGuarded frame block param handler).bind fun ending => ?_
  cases finalizer with
  | none => exact h.steps.ended ending
  | some finalizer =>
    dsimp only
    split
    · exact h.steps.ended ending
    · exact ((h.execBlock frame finalizer).aside.settingThrowLine hb.afterFinalizer).bind fun _ =>
        h.steps.ended ending

theorem execStmtWith_follows (hb : b.Plain)
    (h : self.AlikeThroughout (fun α => @Run.Follows α) other) (stmt : Stmt) (frame : Frame) :
    Run.Follows (self.execStmtWith .doubtful stmt frame) (other.execStmtWith b stmt frame) := by
  refine Run.Follows.settingLine ?_ hb.afterStatement
  refine (Run.Follows.setLine stmt.line).bind fun _ => Run.Follows.safePoint.bind fun _ => ?_
  cases stmt.kind with
  | attempt block param handler finalizer =>
    exact execAttemptWith_follows hb h block param handler finalizer frame
  | _ =>
    dsimp only [execKindWith]
    exact h.execKind frame _

/-- At every depth of nesting, what is not in doubt is what other books say. -/
theorem ofDepthWith_follows (hb : b.Plain) (depth : Nat) :
    (ofDepthWith .doubtful depth).AlikeThroughout (fun α => @Run.Follows α)
      (ofDepthWith b depth) := by
  induction depth with
  | zero => exact ⟨Run.Follows.alikeThroughout, fun _ _ => .complain _, fun _ _ => .complain _⟩
  | succ depth ih =>
    have halike := ih.alike fun code =>
      ih.callScript .checkCallDepth code fun frame => (ih.execStatements frame code.body).inCall
    exact ⟨Run.Follows.alikeThroughout, fun e frame => (halike.evalExpr frame e).nested,
      fun stmt frame => (execStmtWith_follows hb ih stmt frame).nested⟩

end Evaluator

namespace Run

theorem programWith_follows {b : Bookkeeping} (hb : b.Plain) (body : Source.Program) :
    Follows (programWith .doubtful body) (programWith b body) := by
  have hglobal : Follows globalFrame globalFrame := Blind.follows fun _ _ _ _ => rfl
  have hcompletion : Follows completion completion := Blind.follows fun _ _ _ _ => rfl
  refine hglobal.bind fun frame => ?_
  exact ((Evaluator.ofDepthWith_follows hb _).execStatements frame body).bind fun _ => hcompletion

end Run

/-- The same end, unless it is a throw whose line is in doubt in the first one. -/
inductive Completion.Agrees : Completion → Completion → Prop
  | same (c : Completion) : Agrees c c
  | doubt (v : Value) (line : Nat) : Agrees (.thrown v 0) (.thrown v line)

namespace Completion.Agrees

variable {c c' : Completion} {v : Value} {line : Nat}

theorem thrown_right (h : c.Agrees c') (hthrown : c = .thrown v line) :
    ∃ line', c' = .thrown v line' ∧ (line = 0 ∨ line' = line) := by
  cases h with
  | same => exact ⟨line, hthrown, .inr rfl⟩
  | doubt v' line' =>
    obtain ⟨rfl, rfl⟩ := thrown.inj hthrown
    exact ⟨line', rfl, .inl rfl⟩

theorem thrown_left (h : c.Agrees c') (hthrown : c' = .thrown v line) :
    ∃ line', c = .thrown v line' ∧ (line' = 0 ∨ line = line') := by
  cases h with
  | same => exact ⟨line, hthrown, .inr rfl⟩
  | doubt v' line' =>
    obtain ⟨rfl, rfl⟩ := thrown.inj hthrown
    exact ⟨0, rfl, .inl rfl⟩

end Completion.Agrees

namespace Run

theorem Agree.finish {r r' : EStateM.Result Abrupt Machine Value} (h : Agree r r') :
    (finish r).1.Agrees (finish r').1 := by
  cases h with
  | ok => exact .same _
  | @error e n n' hn =>
    cases e with
    | thrown v =>
      change (Completion.thrown v n.throwLine).Agrees (.thrown v n'.throwLine)
      rcases hn.throwLine with hdoubt | hsame
      · rw [hdoubt]
        exact .doubt v n'.throwLine
      · rw [hsame]
        exact .same _
    | _ => exact .same _

end Run

/-! ## The innermost statement -/

namespace Evaluator

open Run

theorem bindParams_keeps {P : Nat → Prop} (scope : ScopeId) (params : List String)
    (args : List Value) : Keeps (fun _ => P) (bindParams scope params args) := by
  induction params generalizing args with
  | nil => exact .pure ()
  | cons param params ih => exact Keeps.bind (fun _ _ hm => hm) fun _ => ih _

/-- A call goes back to the line that it was made on, whatever the body does. -/
theorem callScript_keeps {P : Nat → Prop} (self : Evaluator) (code : Source.Function)
    (closure : ScopeId) (this : Value) (args : List Value) :
    Keeps (fun _ => P) (self.callScript code closure this args) := by
  have hbody (frame : Frame) : Keeps (fun _ => P) (do
      let ending ← attempt (inCall (self.execStatements code.body frame))
      functionResult ending) :=
    (Keeps.inCall fun line _ _ hline => hline).attempt.bind .functionResult
  refine Keeps.checkCallDepth.bind fun _ => Keeps.safePoint.bind fun _ => ?_
  refine Keeps.bind (fun _ _ hm => hm) fun scope => (bindParams_keeps _ _ _).bind fun _ => ?_
  split
  · exact Keeps.bind (fun _ _ hm => hm) fun this => hbody ⟨scope, this⟩
  · exact hbody ⟨scope, this⟩

theorem assignName_keeps {P : Nat → Prop} (name : String) (value : Value) (frame : Frame) :
    Keeps (fun _ => P) (assignName name value frame) := by
  refine Keeps.bind (fun _ _ hm => hm) fun scopes => ?_
  split
  · split
    · exact fun _ _ hm => hm
    · exact .complain _
  · exact Keeps.bind (fun _ _ hm => hm) fun s => .onHeap _

theorem ofDepthWith_keeps (b : Bookkeeping) (P : Nat → Prop) (depth : Nat) :
    (ofDepthWith b depth).Alike (fun α x _ => @Keeps α (fun _ => P) x) (ofDepthWith b depth) := by
  have hsteps := Keeps.alike (assignName_keeps (P := P))
  induction depth with
  | zero => exact ⟨hsteps, fun _ _ => .complain _, callScript_keeps exhausted⟩
  | succ depth ih =>
    exact ⟨hsteps, fun e frame => (ih.evalExpr frame e).nested, callScript_keeps _⟩

/--
Where each statement has its own line, the line of the statement around is there again after a
statement, as it is after an expression: it is the line of the innermost statement under way.
-/
theorem lexical_line (depth : Nat) (frame : Frame) (line : Nat) :
    (∀ e, Keeps (fun _ now => now = line) ((ofDepthWith .lexical depth).eval e frame)) ∧
      ∀ stmt, Keeps (fun _ now => now = line) ((ofDepthWith .lexical depth).exec stmt frame) := by
  refine ⟨fun e => (ofDepthWith_keeps .lexical (· = line) depth).eval e frame, fun stmt => ?_⟩
  cases depth with
  | zero => exact .complain _
  | succ depth =>
    refine Keeps.nested fun s m hm => ?_
    unfold execStmtWith settingLine
    rw [left_mapState]
    exact hm

end Evaluator

end ScriptHost
