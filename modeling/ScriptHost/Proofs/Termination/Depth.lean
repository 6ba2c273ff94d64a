import ScriptHost.Proofs.Coupling.Lockstep

/-!
The limit on nesting bounds the recursion of the evaluator: an evaluator for more levels than the
limit allows for comes to the same.
-/

namespace ScriptHost

open Source (Expr Stmt)

/-- Two runs at the same level of nesting, which is the stage. -/
def levels : Lockstep where
  Stage := Nat
  Later v w := v = w
  Good w m := m.nesting.level = w
  Over _ p q := ∃ e m m', p = some (e, m) ∧ q = some (e, m') ∧ m.world = m'.world
  refl _ := rfl
  trans := Eq.trans
  good _ _ hnesting hm := hnesting ▸ hm
  over_grow := by
    rintro _ _ _ p' q' ⟨e, m, m', rfl, rfl, hsame⟩ hp hq
    rcases hp with hp | rfl
    · exact nomatch hp
    · rcases hq with hq | rfl
      · exact nomatch hq
      · exact ⟨e, m, m', rfl, rfl, hsame⟩
  over_still := by
    rintro _ _ _ b b' ⟨e, m, m', rfl, rfl, hsame⟩
    exact ⟨e, m.withBooks b, m'.withBooks b', rfl, rfl, hsame⟩

namespace levels

variable {s : Setting} {w : Nat} {α : Type}

theorem safePoint (w : Nat) :
    levels.coupling.Follows s s w levels.coupling.Same Run.safePoint Run.safePoint := by
  rintro v - m _ ⟨rfl, hm⟩
  unfold Run.safePoint
  split
  · exact .final rfl ⟨_, _, _, rfl, rfl, rfl⟩
  · cases s.answer m.polls m.host.logged with
    | some reason => exact .final rfl ⟨_, _, _, rfl, rfl, rfl⟩
    | none =>
      cases m.pending with
      | none => exact .ok rfl ⟨rfl, hm⟩ rfl
      | some value => exact .abrupt rfl ⟨rfl, hm⟩ (.thrown (.refl_eq value))

theorem elementary : levels.coupling.Elementary s s :=
  Lockstep.elementary rfl (fun _ _ _ => ⟨_, _, _, rfl, rfl, rfl⟩) safePoint fun _ _ _ h =>
    h.repeatWhile rfl (fun _ _ _ hst => congrArg Machine.polls hst.1)
      (fun _ m _ hst => ⟨_, m, _, rfl, rfl, congrArg Machine.world hst.1⟩) safePoint

theorem common (w : Nat) : levels.coupling.Common s s w :=
  ⟨elementary.keeps, rfl, rfl, trivial⟩

theorem nested {T : Nat → α → α → Prop} (hT : ∀ a b, T (w + 1) a b → T w a b) {x y : Run α}
    (h : levels.coupling.Follows s s (w + 1) T x y) :
    levels.coupling.Follows s s w T (Run.nested x) (Run.nested y) := by
  rintro _ rfl m _ ⟨rfl, hm⟩
  by_cases hlimit : Run.nestingLimit ≤ m.nesting.level
  · unfold Run.nested
    rw [if_pos hlimit, if_pos hlimit]
    exact elementary.complain .stackOverflow w rfl m m ⟨rfl, hm⟩
  · have hentered : { m with nesting := m.nesting.enter }.nesting.level = w + 1 :=
      congrArg Nat.succ hm
    have hleft {n : Machine} (hn : n.nesting.level = w + 1) :
        { n with nesting := n.nesting.leave }.nesting.level = w := congrArg Nat.pred hn
    have hends := h (w + 1) rfl _ _ ⟨rfl, hentered⟩
    rw [Run.nested_below x s hlimit, Run.nested_below y s hlimit]
    generalize x s { m with nesting := m.nesting.enter } = r at hends ⊢
    generalize y s { m with nesting := m.nesting.enter } = r' at hends ⊢
    cases hends with
    | ok hv hst ht =>
      obtain rfl := hv
      obtain ⟨rfl, hn⟩ := hst
      exact .ok rfl ⟨rfl, hleft hn⟩ (hT _ _ ht)
    | abrupt hv hst he =>
      obtain rfl := hv
      obtain ⟨rfl, hn⟩ := hst
      exact .abrupt rfl ⟨rfl, hleft hn⟩ he
    | final hv hover =>
      obtain ⟨e, n, n', hfinal, hfinal', hsame⟩ := hover
      refine .final rfl ⟨e, { n with nesting := n.nesting.leave },
        { n' with nesting := n'.nesting.leave }, ?_, ?_, hsame⟩
      · rw [Run.final?_mapState, hfinal]
        rfl
      · rw [Run.final?_mapState, hfinal']
        rfl

theorem eval_refused (depth : Nat) (e : Expr) (f : Frame) {m : Machine}
    (hm : Run.nestingLimit ≤ m.nesting.level) :
    (Evaluator.ofDepth depth).eval e f s m = Run.complain .stackOverflow s m := by
  cases depth with
  | zero => rfl
  | succ depth => exact if_pos hm

theorem exec_refused (depth : Nat) (stmt : Stmt) (f : Frame) {m : Machine}
    (hm : Run.nestingLimit ≤ m.nesting.level) :
    (Evaluator.ofDepth depth).exec stmt f s m = Run.complain .stackOverflow s m := by
  cases depth with
  | zero => rfl
  | succ depth => exact if_pos hm

theorem refused (depth depth' : Nat) {w : Nat} (hw : Run.nestingLimit ≤ w) :
    levels.coupling.Scene s s w (Evaluator.ofDepth depth) (Evaluator.ofDepth depth') := by
  refine ⟨common w, ?_, ?_⟩
  · rintro _ rfl e f f' hf _ rfl m _ ⟨rfl, hm⟩
    have hlimit : Run.nestingLimit ≤ m.nesting.level := hm ▸ hw
    rw [eval_refused depth e f hlimit, eval_refused depth' e f' hlimit]
    exact elementary.complain .stackOverflow w rfl m m ⟨rfl, hm⟩
  · rintro _ rfl stmt f f' hf _ rfl m _ ⟨rfl, hm⟩
    have hlimit : Run.nestingLimit ≤ m.nesting.level := hm ▸ hw
    rw [exec_refused depth stmt f hlimit, exec_refused depth' stmt f' hlimit]
    exact elementary.complain .stackOverflow w rfl m m ⟨rfl, hm⟩

/-- Evaluators for all the levels that are left run alike. -/
theorem scene (depth depth' w : Nat) (hdepth : Run.nestingLimit ≤ w + depth)
    (hdepth' : Run.nestingLimit ≤ w + depth') :
    levels.coupling.Scene s s w (Evaluator.ofDepth depth) (Evaluator.ofDepth depth') := by
  induction depth generalizing w depth' with
  | zero => exact refused 0 depth' hdepth
  | succ depth ih =>
    cases depth' with
    | zero => exact refused (depth + 1) 0 hdepth'
    | succ depth' =>
      have hnext := ih depth' (w + 1) (by omega) (by omega)
      refine ⟨common w, ?_, ?_⟩
      · rintro _ rfl e f f' hf
        exact nested (fun _ _ => id) (hnext.evalExpr e ⟨hf.scope, trivial, hf.this⟩)
      · rintro _ rfl stmt f f' hf
        exact nested (fun _ _ => id) (hnext.execStmt stmt ⟨hf.scope, trivial, hf.this⟩)

end levels

namespace Run

/-- How a computation ended, and the world it left behind. -/
def ending {α : Type} : EStateM.Result Abrupt Machine α → Except Abrupt α × World
  | .ok a m => (.ok a, m.world)
  | .error e m => (.error e, m.world)

theorem ending_eq {α : Type} {w : Nat} {T : Nat → α → α → Prop} (hT : ∀ v a b, T v a b → a = b)
    {r r' : EStateM.Result Abrupt Machine α} (h : levels.coupling.Ends w T r r') :
    ending r = ending r' := by
  cases h with
  | ok _ hst ht =>
    obtain ⟨rfl, -⟩ := hst
    rw [hT _ _ _ ht]
  | abrupt _ hst he =>
    obtain ⟨rfl, -⟩ := hst
    rw [Abrupt.Matches.eq_of_eq he]
  | final _ hover =>
    obtain ⟨e, m, m', hfinal, hfinal', hsame⟩ := hover
    rw [final?_eq_some hfinal, final?_eq_some hfinal']
    exact congrArg (Prod.mk _) hsame

end Run

namespace Evaluator

variable {depth : Nat} {m : Machine}

/-- The depth of the evaluator never shows: the limit on nesting is met before. -/
theorem eval_ofDepth (hdepth : Run.nestingLimit ≤ depth) (e : Expr) (f : Frame) (s : Setting)
    (hm : m.nesting.level = 0) :
    Run.ending ((ofDepth depth).eval e f s m) = Run.ending (full.eval e f s m) := by
  have hscene := levels.scene depth Run.nestingLimit 0 (by omega) (Nat.le_add_left _ _) (s := s)
  have hframe : levels.coupling.Frames (0 : Nat) f f := ⟨rfl, trivial, .refl_eq _⟩
  exact Run.ending_eq (fun _ _ _ hv => Value.Matches.eq_of_eq hv)
    (hscene.evalHere e hframe (0 : Nat) rfl m m ⟨rfl, hm⟩)

theorem exec_ofDepth (hdepth : Run.nestingLimit ≤ depth) (stmt : Stmt) (f : Frame) (s : Setting)
    (hm : m.nesting.level = 0) :
    Run.ending ((ofDepth depth).exec stmt f s m) = Run.ending (full.exec stmt f s m) := by
  have hscene := levels.scene depth Run.nestingLimit 0 (by omega) (Nat.le_add_left _ _) (s := s)
  have hframe : levels.coupling.Frames (0 : Nat) f f := ⟨rfl, trivial, .refl_eq _⟩
  exact Run.ending_eq (fun _ _ _ => id)
    (hscene.execHere stmt hframe (0 : Nat) rfl m m ⟨rfl, hm⟩)

end Evaluator

end ScriptHost
