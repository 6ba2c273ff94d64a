import ScriptHost.Environment
import ScriptHost.Proofs.Coupling.Statements

/-!
Whole runs between coupled machines: programs, and handlers called with an event.
-/

namespace ScriptHost

/-- What a machine is started for. -/
inductive Task where
  | program (body : Source.Program)
  | message (handler : String) (data : Option Json)
  | connect (handler : String) (port : Nat)

namespace Task

def run : Task → Run Value
  | program body => Run.program body
  | message handler data => Run.dispatch handler (Environment.messageEvent data)
  | connect handler port => Run.dispatch handler (Environment.connectEvent port)

def perform (m : Machine) (s : Setting) : Task → Completion × Machine
  | program body => m.runProgram s body
  | message handler data => m.dispatch s handler (Environment.messageEvent data)
  | connect handler port => m.dispatch s handler (Environment.connectEvent port)

theorem perform_eq (m : Machine) (s : Setting) (task : Task) :
    task.perform m s = Run.finish (task.run s m) := by
  cases task <;> rfl

end Task

theorem Run.nested_below {α : Type} (x : Run α) (s : Setting) {m : Machine}
    (hm : ¬ nestingLimit ≤ m.nesting.level) :
    nested x s m = mapState (fun n => { n with nesting := n.nesting.leave })
      (x s { m with nesting := m.nesting.enter }) := by
  unfold nested
  rw [if_neg hm]
  cases x s { m with nesting := m.nesting.enter } <;> rfl

theorem Run.heap_safePoint {s : Setting} {m m' : Machine} {a : Unit}
    (h : Run.safePoint s m = .ok a m') : m'.heap = m.heap := by
  unfold safePoint at h
  split at h
  · exact nomatch h
  · dsimp only at h
    split at h
    · exact nomatch h
    · split at h
      · exact nomatch h
      · obtain ⟨-, rfl⟩ := EStateM.Result.ok.inj h
        rfl

namespace Coupling

variable {K : Coupling} {s s' : Setting} {w : K.Stage}

/-- A level of nesting makes no difference to the coupling. -/
def Nests (K : Coupling) (s s' : Setting) : Prop :=
  ∀ {α β : Type} (w : K.Stage) (T : K.Stage → α → β → Prop) (x : Run α) (y : Run β),
    K.Follows s s' w T x y → K.Follows s s' w T (Run.nested x) (Run.nested y)

theorem nests (hk : K.Keeps s s')
    (hlevel : ∀ v m m', K.State v m m' → m.nesting.level = m'.nesting.level)
    (henter : ∀ v m m', K.State v m m' →
      K.State v { m with nesting := m.nesting.enter } { m' with nesting := m'.nesting.enter })
    (hleave : ∀ v m m', K.State v m m' →
      K.State v { m with nesting := m.nesting.leave } { m' with nesting := m'.nesting.leave })
    (hover : ∀ v p q, K.Over v p q →
      K.Over v (p.map (Prod.map id fun m => { m with nesting := m.nesting.leave }))
        (q.map (Prod.map id fun m => { m with nesting := m.nesting.leave }))) :
    K.Nests s s' := by
  intro α β w T x y h v hv m m' hst
  by_cases hlimit : Run.nestingLimit ≤ m.nesting.level
  · have hlimit' : Run.nestingLimit ≤ m'.nesting.level := hlevel v m m' hst ▸ hlimit
    unfold Run.nested
    rw [if_pos hlimit, if_pos hlimit']
    exact hk.complain .stackOverflow v hv m m' hst
  · have hlimit' : ¬ Run.nestingLimit ≤ m'.nesting.level := hlevel v m m' hst ▸ hlimit
    rw [Run.nested_below x s hlimit, Run.nested_below y s' hlimit']
    exact (h v hv _ _ (henter v m m' hst)).mapState (fun u _ => hleave u) fun u _ => hover u

theorem Scene.deeper {self self' : Evaluator} (h : K.Scene s s' w self self')
    (hn : K.Nests s s') : K.Scene s s' w self.deeper self'.deeper :=
  ⟨h.toCommon, fun v hv e _ _ hf => hn v _ _ _ ((h.later hv).evalExpr e hf),
    fun v hv stmt _ _ hf => hn v _ _ _ ((h.later hv).execStmt stmt hf)⟩

namespace Common

theorem ofDepth (hc : K.Common s s' w) (hn : K.Nests s s') (depth : Nat) :
    K.Scene s s' w (Evaluator.ofDepth depth) (Evaluator.ofDepth depth) := by
  induction depth with
  | zero =>
    exact ⟨hc, fun _ _ _ _ _ _ => hc.keeps.complain .stackOverflow,
      fun _ _ _ _ _ _ => hc.keeps.complain .stackOverflow⟩
  | succ depth ih => exact ih.deeper hn

theorem full (hc : K.Common s s' w) (hn : K.Nests s s') :
    K.Scene s s' w Evaluator.full Evaluator.full :=
  hc.ofDepth hn Run.nestingLimit

theorem completion : K.Follows s s' w K.Value Run.completion Run.completion :=
  fun v _ _ _ hst => .ok (K.refl v) hst (K.books hst).completion

theorem program (hc : K.Common s s' w) (hn : K.Nests s s') (body : Source.Program) :
    K.Follows s s' w K.Value (Run.program body) (Run.program body) := by
  have hframe : K.Frames w ⟨s.globalScope, .object s.globalObject⟩
      ⟨s'.globalScope, .object s'.globalObject⟩ :=
    ⟨hc.globalScope, hc.opened, .object hc.globalObject⟩
  refine Follows.setting ?_
  exact ((hc.full hn).execStatements body hframe).bind fun _ _ _ _ _ => completion

/-- The event is made in the heap that the run started with. -/
theorem dispatch (hc : K.Common s s' w) (hn : K.Nests s s') (handler : String)
    {event event' : Heap.Step ScriptHost.Value} {m m' : Machine} (hst : K.State w m m')
    (hevent : ∀ v, K.Later w v → ∀ n n', K.State v n n' → n.heap = m.heap → n'.heap = m'.heap →
      K.Ends v K.Value (Run.onHeap event s n) (Run.onHeap event' s' n')) :
    K.Ends w K.Value (Run.dispatch handler event s m) (Run.dispatch handler event' s' m') := by
  refine (hc.keeps.safePoint w w (K.refl w) m m' hst).bindAt fun t ht _ _ _ n n' hst' hok hok' => ?_
  have hm := K.heap hst'
  have hlistener := Heap.Matches.getD_undefined ((hc.later ht).globalProperty_rel hm handler)
  rw [Run.bind_ok (rfl : Run.setting s n = .ok s n), Run.bind_ok (rfl : Run.heap s n = .ok n.heap n),
    Run.bind_ok (rfl : Run.setting s' n' = .ok s' n'),
    Run.bind_ok (rfl : Run.heap s' n' = .ok n'.heap n')]
  simp only [hm.isCallable_eq hlistener]
  split
  · refine (hevent t ht n n' hst' (Run.heap_safePoint hok) (Run.heap_safePoint hok')).bind
      fun q hq v v' hv => ?_
    have hcq := hc.later (K.trans ht hq)
    exact (hcq.full hn).call (Scene.value_later hq hlistener) (.object hcq.globalObject)
      (.cons hv .nil) handler
  · exact .ok (K.refl t) hst' (.primitive rfl)

/-! ## Events -/

theorem messageEvent (hc : K.Common s s' w) (data : Option Json) :
    K.Follows s s' w K.Value (Run.onHeap (Environment.messageEvent data))
      (Run.onHeap (Environment.messageEvent data)) := by
  have hevent (t : K.Stage) (v v' : ScriptHost.Value) (hv : K.Value t v v') :
      K.Follows s s' t K.Value
        (Run.onHeap (.object <$> Heap.allocate ⟨.ordinary, [("data", v)]⟩))
        (Run.onHeap (.object <$> Heap.allocate ⟨.ordinary, [("data", v')]⟩)) := by
    rw [Run.onHeap_map, Run.onHeap_map]
    have hdata := Table.matches_cons "data" hv .nil
    exact Follows.object_matches _ rfl (hc.keeps.allocate rfl (.of .ordinary hdata))
  cases data with
  | none => exact hevent w .null .null (.primitive rfl)
  | some json =>
    simp only [Environment.messageEvent, Run.onHeap_bind]
    exact (hc.keeps.fromJson w json).bind fun t _ => hevent t

theorem taskAt (hc : K.Common s s' w) (hn : K.Nests s s') (task : Task) {m m' : Machine}
    (hst : K.State w m m')
    (hconnect : ∀ handler port, task = .connect handler port → ∀ v, K.Later w v → ∀ n n',
      K.State v n n' → n.heap = m.heap → n'.heap = m'.heap →
      K.Ends v K.Value (Run.onHeap (Environment.connectEvent port) s n)
        (Run.onHeap (Environment.connectEvent port) s' n')) :
    K.Ends w K.Value (task.run s m) (task.run s' m') := by
  cases task with
  | program body => exact hc.program hn body w (K.refl w) m m' hst
  | message handler data =>
    exact hc.dispatch hn handler hst fun v hv n n' hst' _ _ =>
      hc.messageEvent data v hv n n' hst'
  | connect handler port => exact hc.dispatch hn handler hst (hconnect handler port rfl)

theorem task (hc : K.Common s s' w) (hn : K.Nests s s')
    (hconnect : ∀ port, K.Follows s s' w K.Value (Run.onHeap (Environment.connectEvent port))
      (Run.onHeap (Environment.connectEvent port))) (task : Task) :
    K.Follows s s' w K.Value task.run task.run := fun _ hv _ _ hst =>
  (hc.later hv).taskAt hn task hst fun _ port _ u hu n n' hst' _ _ =>
    hconnect port u (K.trans hv hu) n n' hst'

end Common

theorem Elementary.connectEvent (hk : K.Elementary s s') (port : Nat) :
    K.Follows s s' w K.Value (Run.onHeap (Environment.connectEvent port))
      (Run.onHeap (Environment.connectEvent port)) := by
  simp only [Environment.connectEvent, Run.onHeap_bind, Run.onHeap_map]
  refine (hk.allocateHost (.of .native .nil)).bind fun t ht post post' hpost => ?_
  have hmethod := Table.matches_cons "postMessage" (Value.Matches.object hpost) .nil
  refine (hk.allocateHost (.of .ordinary hmethod)).bind fun r hr port port' hport => ?_
  refine (hk.allocate (.of (.array (.cons (.object hport) .nil)) .nil)).bind
    fun q hq ports ports' hports => ?_
  exact Follows.object_matches _ rfl (hk.allocate (.of .ordinary
    (Table.matches_cons "ports" (.object hports)
      (Table.matches_cons "source" (.object (K.named hq _ _ hport)) .nil))))

end Coupling

end ScriptHost
