import ScriptHost.Proofs.Run.Pending
import ScriptHost.Proofs.Session.Environment
import ScriptHost.Proofs.Session.Stages

/-!
Environments from one run to the next: the global scope stays what it is, and an exception that is
pending waits for the first safe point of a run.
-/

namespace ScriptHost

namespace Scopes

variable {s : Scopes} {i : ScopeId} {kind : ScopeKind}

theorem kind?_openChild (h : s.kind? i = some kind) (other : ScopeKind) (around : ScopeId) :
    (s.openChild other around).2.kind? i = some kind := by
  obtain ⟨scope, hscope, hkind⟩ := Option.map_eq_some_iff.1 h
  have hlt : i < s.entries.size := (Array.getElem?_eq_some_iff.1 hscope).1
  have hsame : (s.openChild other around).2.get? i = some scope :=
    (Array.getElem?_push_lt hlt).trans (Array.getElem?_eq_getElem hlt ▸ hscope)
  rw [kind?, hsame, Option.map_some, hkind]

theorem kind?_bind (h : s.kind? i = some kind) (target : ScopeId) (name : String) (b : Binding) :
    (s.bind target name b).kind? i = some kind := by
  rw [← h]
  unfold kind? get? bind
  rw [Array.getElem?_modify]
  split
  · rw [Option.map_map]
    rfl
  · rfl

end Scopes

theorem GlobalScope.kind?_build (heap : Heap) (scopes : Scopes) (host : Host) :
    (build heap scopes host).2.2.kind? (build heap scopes host).1.scope = some .global := by
  unfold build
  generalize properties host heap = made
  have hnew : (scopes.openGlobal).2.get? scopes.size = some ⟨.global, [], none⟩ :=
    Array.getElem?_push_size
  exact congrArg (Option.map Scope.kind) hnew

namespace Environment

variable {e e' : Environment} {g : GlobalScope} {host host' : Host} {v : Value}
  {oversight : Oversight}

theorem ensureGlobal_eq (hglobal : e.global = some g) (host : Host) :
    e.ensureGlobal host = (g, e, host) := by
  unfold ensureGlobal
  rw [hglobal]

/-! ## The global scope stays what it is -/

structure Opened (e : Environment) (g : GlobalScope) : Prop where
  global : e.global = some g
  kind : e.scopes.kind? g.scope = some .global

/-- An exception can be pending only where there is a global scope. -/
def Orderly (e : Environment) : Prop :=
  e.global = none ∧ e.pending = none ∨ ∃ g, e.Opened g

theorem Orderly.ensureGlobal (ho : e.Orderly) (host : Host) :
    (e.ensureGlobal host).2.1.Opened (e.ensureGlobal host).1 := by
  refine ⟨e.global_ensureGlobal host, ?_⟩
  rcases ho with ⟨hnone, -⟩ | ⟨g, hg⟩
  · have hkind := GlobalScope.kind?_build e.heap e.scopes host
    unfold Environment.ensureGlobal
    generalize GlobalScope.build e.heap e.scopes host = made at hkind ⊢
    rw [hnone]
    exact hkind
  · rw [ensureGlobal_eq hg.global]
    exact hg.kind

theorem Opened.collectGarbage (ho : e.Opened g) : (e.collectGarbage g).Opened g := by
  rw [collectGarbage_eq]
  exact ⟨ho.global, ho.kind⟩

theorem Opened.parseFailure (ho : e.Opened g) (fault : Source.Fault) (line : Nat) :
    (e.parseFailure fault line).2.Opened g := by
  unfold Environment.parseFailure
  split <;> exact ⟨ho.global, ho.kind⟩

theorem global_law (i : ScopeId) : Machine.Law fun m => m.scopes.kind? i = some .global :=
  .of_memory (Q := fun _ c => c.kind? i = some .global) (fun _ _ _ _ => id) (fun _ _ _ _ => id)
    (fun _ _ kind j h => Scopes.kind?_openChild h kind j)
    fun _ _ j name b h => Scopes.kind?_bind h j name b

theorem Opened.perform (ho : e.Opened g) (host : Host) (s : Setting) (task : Task) :
    (e.execute host fun m => task.perform m s).2.1.Opened g :=
  ⟨ho.global, (global_law g.scope).perform (m := .start e.heap e.scopes e.pending host) ho.kind s
    task fun _ _ _ _ hn _ => hn⟩

theorem Orderly.run (ho : e.Orderly) (host : Host) (source : SourceUnit) (oversight : Oversight) :
    (e.run host source oversight).2.1.Opened (e.ensureGlobal host).1 := by
  have hready := (ho.ensureGlobal host).collectGarbage
  unfold Environment.run
  cases Source.parse source.text with
  | error fault => exact hready.parseFailure fault _
  | ok program => exact hready.perform _ _ (.program program)

theorem Orderly.stage (ho : e.Orderly) {ps : List Posting} (h : Stage e host ps e' host') :
    e'.Orderly := by
  cases h with
  | ensured => exact .inr ⟨_, ho.ensureGlobal host⟩
  | created hcreate =>
      obtain ⟨-, -, rfl⟩ := createError_ok hcreate
      exact ho.imp_right fun ⟨g, hg⟩ => ⟨g, hg.global, hg.kind⟩
  | injected hinject =>
      obtain ⟨hinit, -, rfl⟩ := inject_ok hinject
      rcases ho with ⟨hnone, -⟩ | ⟨g, hg⟩
      · rw [isInitialized, hnone] at hinit
        exact nomatch hinit
      · exact .inr ⟨g, hg.global, hg.kind⟩
  | ran source oversight => exact .inr ⟨_, ho.run host source oversight⟩
  | messaged oversight data =>
      exact .inr ⟨_, (ho.ensureGlobal host).collectGarbage.perform _ _ (.message "onmessage" data)⟩
  | @connected port host' oversight _ =>
      exact .inr ⟨_, (ho.ensureGlobal host').collectGarbage.perform _ _ (.connect "onconnect" port)⟩

/-! ## Runs with an exception pending -/

section Runs

variable {source : SourceUnit} {first : Source.Stmt} {rest : Source.Program} {heap : Heap}

theorem pending_parseFailure (e : Environment) (fault : Source.Fault) (line : Nat) :
    (e.parseFailure fault line).2.pending = e.pending := by
  unfold Environment.parseFailure
  split <;> rfl

theorem pending_ensureGlobal (e : Environment) (host : Host) :
    (e.ensureGlobal host).2.1.pending = e.pending := by
  unfold Environment.ensureGlobal
  split <;> rfl

theorem pending_prepared (e : Environment) (host : Host) :
    ((e.ensureGlobal host).2.1.collectGarbage (e.ensureGlobal host).1).pending = e.pending := by
  rw [collectGarbage_eq]
  exact e.pending_ensureGlobal host

theorem execute_eq {run : Machine → Completion × Machine} {c : Completion} {m : Machine}
    (hrun : run (.start e.heap e.scopes e.pending host) = (c, m)) :
    e.execute host run = (c, ⟨m.heap, m.scopes, e.global, m.pending, e.maxCallDepth⟩, m.host) := by
  unfold execute
  dsimp only
  rw [hrun]

theorem Opened.run_eq (ho : e.Opened g) {body : Source.Program}
    (hparse : Source.parse source.text = .ok body) :
    e.run host source oversight =
      ((e.collectGarbage g).execute host fun m =>
        m.runProgram ((e.collectGarbage g).setting g oversight) body).map (absolute source) id := by
  unfold Environment.run
  rw [ensureGlobal_eq ho.global, hparse]
  rfl

/-- The collection before a run may as well have been made earlier. -/
theorem run_collectGarbage (hglobal : e.global = some g) :
    (e.collectGarbage g).run host source oversight = e.run host source oversight := by
  have hagain : (e.collectGarbage g).collectGarbage g = e.collectGarbage g := by
    have htidy := e.heap.wantsCollection_tidied e.scopes (.object g.object :: e.pending.toList)
      [g.scope]
    rw [e.collectGarbage_eq g]
    exact if_neg (Bool.eq_false_iff.1 htidy)
  have hkept : (e.collectGarbage g).global = some g := (e.collectGarbage_eq g).symm ▸ hglobal
  unfold Environment.run
  rw [ensureGlobal_eq hglobal, ensureGlobal_eq hkept]
  dsimp only
  rw [hagain]

theorem Opened.dispatch_eq (ho : e.Opened g) (handler : String) (event : Heap.Step Value) :
    e.dispatch host oversight handler event =
      (e.collectGarbage g).execute host fun m =>
        m.dispatch ((e.collectGarbage g).setting g oversight) handler event := by
  unfold Environment.dispatch
  rw [ensureGlobal_eq ho.global]

theorem Opened.run_raises (ho : e.Opened g) (host : Host) (oversight : Oversight) (hpending : e.pending = some v)
    (hhorizon : 0 < oversight.horizon) (hanswer : oversight.answer 0 host.logged = none)
    (hparse : Source.parse source.text = .ok (first :: rest))
    (hhoist : Heap.hoist g (Source.declared (first :: rest)) (e.collectGarbage g).heap =
      .ok () heap) :
    e.run host source oversight =
      (.thrown v (source.absoluteLine first.line), { e with heap := heap, pending := none },
        host) := by
  rw [ho.run_eq hparse]
  rw [collectGarbage_eq] at hhoist ⊢
  rw [execute_eq (Machine.runProgram_raises ho.kind rfl hpending hhorizon hanswer hhoist)]
  rfl

theorem Opened.run_undeclared (ho : e.Opened g) (host : Host) (oversight : Oversight) {body : Source.Program} {reason : TerminationReason}
    (hparse : Source.parse source.text = .ok body)
    (hhoist : Heap.hoist g (Source.declared body) (e.collectGarbage g).heap = .error reason heap) :
    e.run host source oversight = (.terminated reason, { e with heap := heap }, host) := by
  rw [ho.run_eq hparse]
  rw [collectGarbage_eq] at hhoist ⊢
  rw [execute_eq (Machine.runProgram_undeclared ho.kind hhoist)]
  rfl

theorem Opened.pending_unread (ho : e.Opened g)
    (hparse : ∀ first rest, Source.parse source.text ≠ .ok (first :: rest)) :
    (e.run host source oversight).2.1.pending = e.pending := by
  cases hread : Source.parse source.text with
  | error fault =>
      rw [← e.pending_prepared host]
      unfold Environment.run
      rw [hread]
      exact pending_parseFailure _ _ _
  | ok body =>
      cases body with
      | nil =>
          rw [ho.run_eq hread, collectGarbage_eq]
          rfl
      | cons first rest => exact absurd hread (hparse first rest)

theorem Opened.dispatch_raises (ho : e.Opened g) (host : Host) (oversight : Oversight) (hpending : e.pending = some v)
    (hhorizon : 0 < oversight.horizon) (hanswer : oversight.answer 0 host.logged = none)
    (handler : String) (event : Heap.Step Value) :
    e.dispatch host oversight handler event =
      (.thrown v 1, { e with heap := (e.collectGarbage g).heap, pending := none }, host) := by
  rw [ho.dispatch_eq, collectGarbage_eq]
  rw [execute_eq (Machine.dispatch_raises hpending hhorizon hanswer handler event)]
  rfl

/-- What was pending is so after the run, or has been thrown out of it. -/
def Spent (before : Option Value) (r : Completion × Environment × Host) : Prop :=
  r.2.1.pending = before ∨
    r.2.1.pending = none ∧ ∃ v line, before = some v ∧ r.1 = .thrown v line

theorem Opened.spent_perform (ho : e.Opened g) (host : Host) (oversight : Oversight)
    (task : Task) :
    Spent e.pending (e.execute host fun m => task.perform m (e.setting g oversight)) :=
  Machine.spent_perform (m := .start e.heap e.scopes e.pending host)
    (s := e.setting g oversight) ho.kind rfl task

theorem Orderly.spent_run (ho : e.Orderly) (host : Host) (source : SourceUnit)
    (oversight : Oversight) : Spent e.pending (e.run host source oversight) := by
  have hready := (ho.ensureGlobal host).collectGarbage
  rw [← e.pending_prepared host]
  unfold Environment.run
  cases Source.parse source.text with
  | error fault => exact .inl (pending_parseFailure _ _ _)
  | ok program =>
      rcases hready.spent_perform (e.ensureGlobal host).2.2 oversight (.program program) with
        hkept | ⟨hnone, v, line, hbefore, hthrown⟩
      · exact .inl hkept
      · exact .inr ⟨hnone, v, source.absoluteLine line, hbefore, congrArg (absolute source) hthrown⟩

theorem Orderly.spent_dispatchMessage (ho : e.Orderly) (host : Host) (oversight : Oversight)
    (data : Option Json) : Spent e.pending (e.dispatchMessage host oversight data) :=
  e.pending_prepared host ▸
    (ho.ensureGlobal host).collectGarbage.spent_perform _ oversight (.message "onmessage" data)

theorem Orderly.spent_dispatchConnect (ho : e.Orderly) (host : Host) (oversight : Oversight)
    (port : Nat) : Spent e.pending (e.dispatchConnect host oversight port) :=
  e.pending_prepared host ▸
    (ho.ensureGlobal host).collectGarbage.spent_perform _ oversight (.connect "onconnect" port)

end Runs

end Environment

end ScriptHost
