import ScriptHost.Proofs.Coupling.Building
import ScriptHost.Proofs.Session.Bond

/-!
Environments over bonded heaps, from one run to the next.
-/

namespace ScriptHost

inductive Completion.Matches (R : ObjectId → ObjectId → Prop) : Completion → Completion → Prop
  | normal {v v' : Value} : v.Matches R v' → Matches R (.normal v) (.normal v')
  | returned {v v' : Value} : v.Matches R v' → Matches R (.returned v) (.returned v')
  | thrown {v v' : Value} (line : Nat) : v.Matches R v' → Matches R (.thrown v line) (.thrown v' line)
  | terminated (reason : TerminationReason) : Matches R (.terminated reason) (.terminated reason)
  | starved : Matches R .starved .starved

namespace Completion

variable {R : ObjectId → ObjectId → Prop} {c c' : Completion}

def throwAt (line : Nat) : Completion → Completion
  | normal value => thrown value line
  | other => other

theorem Matches.throwAt (line : Nat) (h : Matches R c c') :
    Matches R (c.throwAt line) (c'.throwAt line) := by
  cases h with
  | normal hv => exact .thrown line hv
  | returned hv => exact .returned hv
  | thrown line hv => exact .thrown line hv
  | terminated reason => exact .terminated reason
  | starved => exact .starved

theorem Matches.absolute (source : SourceUnit) (h : Matches R c c') :
    Matches R (Environment.absolute source c) (Environment.absolute source c') := by
  cases h with
  | normal hv => exact .normal hv
  | returned hv => exact .returned hv
  | thrown line hv => exact .thrown _ hv
  | terminated reason => exact .terminated reason
  | starved => exact .starved

end Completion

theorem Environment.collectGarbage_eq (e : Environment) (g : GlobalScope) :
    e.collectGarbage g =
      { e with
        heap := e.heap.tidied e.scopes (.object g.object :: e.pending.toList) [g.scope] } := by
  unfold collectGarbage Heap.tidied
  split <;> rfl

theorem Environment.collectGarbage_of_markFor {e : Environment} {g : GlobalScope} {n : Nat}
    {m : Marks} (hwants : e.heap.wantsCollection = true)
    (hm : e.heap.markFor e.scopes n (.none e.heap.places.size e.scopes.size)
      ((Value.object g.object :: e.pending.toList).filterMap Value.reference? ++
        [g.scope].map .scope) = some m) :
    e.collectGarbage g = { e with
      heap := { e.heap.sweep m (List.range e.heap.places.size) with allocated := 0 } } := by
  unfold collectGarbage
  rw [if_pos hwants]
  exact congrArg (fun heap => { e with heap := heap }) (Heap.collect_of_markFor hm)

theorem Environment.global_ensureGlobal (e : Environment) (host : Host) :
    (e.ensureGlobal host).2.1.global = some (e.ensureGlobal host).1 := by
  unfold ensureGlobal
  generalize GlobalScope.build e.heap e.scopes host = made
  cases h : e.global with
  | some => exact h
  | none => rfl

namespace Bond

variable {B : Bond} {u v w : Renaming} {e e' : Environment} {g g' : GlobalScope}

variable (B)

structure Environments (w : Renaming) (e e' : Environment) : Prop where
  heap : B.Holds w e.heap e'.heap
  scopes : e.scopes.Paired w.objects w.scopes e'.scopes
  pending : Option.Rel (Value.Matches w.objects) e.pending e'.pending
  global : Option.Rel (B.coupling.Globals w) e.global e'.global
  maxCallDepth : e.maxCallDepth = e'.maxCallDepth

/-- Memory has run out in one of two runs, where that breaks the bond. -/
def Spoiled (c c' : Completion) : Prop :=
  B.Lenient ∧ (c = .terminated .memoryLimit ∨ c' = .terminated .memoryLimit)

/-- Two runs that leave bonded environments and the same host behind. -/
def Ran (n : Nat) (w : Renaming) (r r' : Completion × Environment × Host) : Prop :=
  B.Spoiled r.1 r'.1 ∨ ∃ v, w.After n v ∧ B.Environments v r.2.1 r'.2.1 ∧ r.2.2 = r'.2.2 ∧
    r.1.Matches v.objects r'.1

variable {B}

theorem globals_later {x y : Option GlobalScope} (h : Option.Rel (B.coupling.Globals w) x y)
    (hl : w.Later v) : Option.Rel (B.coupling.Globals v) x y := by
  cases h with
  | none => exact .none
  | some hg => exact .some (hg.later hl)

theorem Environments.start (hE : B.Environments w e e') (host : Host) :
    B.coupling.State w (.start e.heap e.scopes e.pending host)
      (.start e'.heap e'.scopes e'.pending host) :=
  ⟨⟨hE.heap, hE.scopes, hE.pending, rfl, rfl, rfl⟩, .primitive rfl, rfl, rfl, rfl, rfl⟩

theorem Core.environments {m m' : Machine} (h : B.Core v m m') {x y : Option GlobalScope}
    (hg : Option.Rel (B.coupling.Globals v) x y) {depth depth' : Nat} (hdepth : depth = depth') :
    B.Environments v ⟨m.heap, m.scopes, x, m.pending, depth⟩
      ⟨m'.heap, m'.scopes, y, m'.pending, depth'⟩ :=
  ⟨h.heap, h.scopes, h.pending, hg, hdepth⟩

theorem finish_ended {x y : EStateM.Result Abrupt Machine Value}
    (h : B.coupling.Ends w B.coupling.Value x y) :
    B.Spoiled (Run.finish x).1 (Run.finish y).1 ∨ ∃ v, w.Later v ∧
      B.Core v (Run.finish x).2 (Run.finish y).2 ∧
      (Run.finish x).1.Matches v.objects (Run.finish y).1 := by
  have hgone {z : EStateM.Result Abrupt Machine Value} (hz : OutOfMemory (Run.final? z)) :
      (Run.finish z).1 = .terminated .memoryLimit := by
    obtain ⟨m, hm⟩ := hz
    rw [Run.final?_eq_some hm]
    rfl
  cases h with
  | @ok v _ _ _ _ hl hst hv => exact .inr ⟨v, hl, hst.1, .normal hv⟩
  | @abrupt v _ _ m m' hl hst he =>
    refine .inr ⟨v, hl, ?_⟩
    have hline : m.throwLine = m'.throwLine := hst.2.throwLine
    cases he with
    | @thrown a b hv =>
      have hcompletion : (Completion.thrown a m.throwLine).Matches (B.coupling.Named v)
          (.thrown b m'.throwLine) := hline ▸ .thrown _ hv
      exact ⟨hst.1, hcompletion⟩
    | returned hv => exact ⟨hst.1, .returned hv⟩
    | broke => exact ⟨hst.1, .normal (.primitive rfl)⟩
    | continued => exact ⟨hst.1, .normal (.primitive rfl)⟩
  | @final v _ _ hl hover =>
    obtain ⟨hlenient, hx | hy⟩ | ⟨end_, m, m', hx, hy, hcore⟩ := hover
    · exact .inl ⟨hlenient, .inl (hgone hx)⟩
    · exact .inl ⟨hlenient, .inr (hgone hy)⟩
    · have hfinal := Run.isFinal_of_final? hx
      rw [Run.final?_eq_some hx, Run.final?_eq_some hy]
      cases end_ with
      | terminated reason => exact .inr ⟨v, hl, hcore, .terminated reason⟩
      | starved => exact .inr ⟨v, hl, hcore, .starved⟩
      | _ => exact nomatch hfinal

theorem ends_ok {α β : Type} {T : Renaming → α → β → Prop} {a : α} {b : β} {m m' : Machine}
    (h : B.coupling.Ends w T (.ok a m) (.ok b m')) :
    ∃ v, w.Later v ∧ B.coupling.State v m m' ∧ T v a b := by
  cases h with
  | @ok v _ _ _ _ hl hst ht => exact ⟨v, hl, hst, ht⟩
  | final hl hover =>
    rcases hover with ⟨-, ⟨_, h⟩ | ⟨_, h⟩⟩ | ⟨_, _, _, h, -⟩
    all_goals exact nomatch h

/-! ## Making the global scope -/

theorem Environments.ensureGlobal (hE : B.Environments w e e') (host : Host) :
    ∃ v, w.Later v ∧
      B.coupling.Globals v (e.ensureGlobal host).1 (e'.ensureGlobal host).1 ∧
      B.Environments v (e.ensureGlobal host).2.1 (e'.ensureGlobal host).2.1 ∧
      (e.ensureGlobal host).2.2 = (e'.ensureGlobal host).2.2 := by
  have hglobal := hE.global
  unfold Environment.ensureGlobal
  generalize hx : e.global = x, hy : e'.global = y at hglobal
  cases hglobal with
  | some hg => exact ⟨w, .refl w, hg, hE, rfl⟩
  | none =>
    let s : Setting := ⟨fun _ _ => none, 0, 0, ⟨0, 0, 0⟩, 0⟩
    have hk : B.coupling.Elementary s s := Bond.elementary rfl rfl rfl
    have hends := hk.making (w := w) (fun _ => follows_openGlobal) host w (B.coupling.refl w) _ _
      (hE.start host)
    rw [GlobalScope.making_eq, GlobalScope.making_eq] at hends
    dsimp only [Machine.start] at hends
    generalize GlobalScope.build e.heap e.scopes host = made at hends ⊢
    generalize GlobalScope.build e'.heap e'.scopes host = made' at hends ⊢
    obtain ⟨v, hl, hst, hg⟩ := ends_ok hends
    exact ⟨v, hl, hg, hst.1.environments (.some hg) hE.maxCallDepth, rfl⟩

/-! ## Collecting -/

theorem Environments.collectGarbage (hE : B.Environments w e e') (hg : B.coupling.Globals w g g')
    (hglobal : e.global = some g) (hglobal' : e'.global = some g') :
    ∃ v, w.After 1 v ∧ B.coupling.Globals v g g' ∧
      B.Environments v (e.collectGarbage g) (e'.collectGarbage g') := by
  have hroots : List.Forall₂ (Value.Matches w.objects) (.object g.object :: e.pending.toList)
      (.object g'.object :: e'.pending.toList) := by
    refine .cons (.object hg.object) ?_
    have hpending := hE.pending
    generalize e.pending = x, e'.pending = y at hpending
    cases hpending with
    | none => exact .nil
    | some hv => exact .cons hv .nil
  obtain ⟨v, hafter, hheap, hscopes, hkept, hopened⟩ :=
    B.collect hE.heap hE.scopes hroots fun i (hi : i ∈ [g.scope]) =>
      List.mem_singleton.1 hi ▸ hg.opened
  cases hkept with
  | cons hobject hpending =>
    have hg' : B.coupling.Globals v g g' := by
      exact ⟨hobject.object_rel, hg.scope, hopened _ List.mem_cons_self⟩
    refine ⟨v, hafter, hg', ?_⟩
    rw [e.collectGarbage_eq, e'.collectGarbage_eq, ← hg.scope]
    refine ⟨hheap, hscopes, ?_, ?_, hE.maxCallDepth⟩
    · dsimp only
      generalize e.pending = x, e'.pending = y at hpending
      cases x with
      | none => cases y with
        | none => exact .none
        | some => exact nomatch hpending
      | some => cases y with
        | none => exact nomatch hpending
        | some => cases hpending with
          | cons hv _ => exact .some hv
    · dsimp only
      rw [hglobal, hglobal']
      exact .some hg'

/-! ## Runs -/

variable {n k : Nat} {r r' : Completion × Environment × Host}

theorem Ran.later (hl : w.After n v) (h : B.Ran k v r r') : B.Ran (n + k) w r r' := by
  rcases h with h | ⟨u, hu, h⟩
  · exact .inl h
  · exact .inr ⟨u, hl.trans hu, h⟩

theorem Ran.map {f : Completion → Completion}
    (hf : ∀ reason, f (.terminated reason) = .terminated reason)
    (hmatch : ∀ R c c', Completion.Matches R c c' → Completion.Matches R (f c) (f c'))
    (h : B.Ran n w r r') : B.Ran n w (f r.1, r.2) (f r'.1, r'.2) := by
  rcases h with ⟨hl, h | h⟩ | ⟨u, hu, hE, hhost, hc⟩
  · exact .inl ⟨hl, .inl ((congrArg f h).trans (hf _))⟩
  · exact .inl ⟨hl, .inr ((congrArg f h).trans (hf _))⟩
  · exact .inr ⟨u, hu, hE, hhost, hmatch _ _ _ hc⟩

theorem Environments.execute (hE : B.Environments w e e') (host : Host) {s s' : Setting}
    {x y : Run Value} (h : B.coupling.Follows s s' w B.coupling.Value x y) :
    B.Ran 0 w (e.execute host fun m => Run.finish (x s m))
      (e'.execute host fun m => Run.finish (y s' m)) := by
  have hends := h w (B.coupling.refl w) _ _ (hE.start host)
  rcases finish_ended hends with hspoiled | ⟨v, hl, hcore, hcompletion⟩
  · exact .inl hspoiled
  · exact .inr ⟨v, hl.after, hcore.environments (globals_later hE.global hl) hE.maxCallDepth,
      hcore.host, hcompletion⟩

theorem Environments.setting (hE : B.Environments w e e') (hg : B.coupling.Globals w g g')
    (oversight : Oversight) :
    B.coupling.Common (e.setting g oversight) (e'.setting g' oversight) w :=
  ⟨Bond.keeps hE.maxCallDepth rfl rfl, hg.object, hg.scope, hg.opened⟩

theorem Environments.perform (hE : B.Environments w e e') (hg : B.coupling.Globals w g g')
    (oversight : Oversight) (host : Host) (task : Task) :
    B.Ran 0 w (e.execute host fun m => task.perform m (e.setting g oversight))
      (e'.execute host fun m => task.perform m (e'.setting g' oversight)) := by
  simp only [Task.perform_eq]
  have hcommon := hE.setting hg oversight
  have hk : B.coupling.Elementary (e.setting g oversight) (e'.setting g' oversight) :=
    Bond.elementary hE.maxCallDepth rfl rfl
  exact hE.execute host (hcommon.task (Bond.nests hcommon.keeps) hk.connectEvent task)

theorem Environments.parseFailure (hE : B.Environments w e e') (host : Host) (fault : Source.Fault)
    (line : Nat) :
    B.Ran 0 w ((e.parseFailure fault line).1, (e.parseFailure fault line).2, host)
      ((e'.parseFailure fault line).1, (e'.parseFailure fault line).2, host) := by
  let s : Setting := ⟨fun _ _ => none, 0, 0, ⟨0, 0, 0⟩, 0⟩
  have hk : B.coupling.Keeps s s := Bond.keeps rfl rfl rfl
  have hran := (hE.execute host (hk.allocateError .grammar fault.message)).map
    (f := Completion.throwAt line) (fun _ => rfl) fun _ _ _ => Completion.Matches.throwAt line
  have hfailure (e : Environment) :
      ((e.parseFailure fault line).1, (e.parseFailure fault line).2, host) =
        ((e.execute host fun m => Run.finish
            (Run.onHeap (Heap.allocateError .grammar fault.message) s m)).1.throwAt line,
          (e.execute host fun m => Run.finish
            (Run.onHeap (Heap.allocateError .grammar fault.message) s m)).2) := by
    unfold Environment.parseFailure Environment.execute Run.onHeap
    dsimp only [Machine.start]
    cases Heap.allocateError .grammar fault.message e.heap <;> rfl
  rw [hfailure, hfailure]
  exact hran

/-- What comes before every run: the global scope is there, and garbage may be collected. -/
theorem Environments.prepare (hE : B.Environments w e e') (host : Host) :
    ∃ v, w.After 1 v ∧ (e.ensureGlobal host).2.2 = (e'.ensureGlobal host).2.2 ∧
      B.coupling.Globals v (e.ensureGlobal host).1 (e'.ensureGlobal host).1 ∧
      B.Environments v ((e.ensureGlobal host).2.1.collectGarbage (e.ensureGlobal host).1)
        ((e'.ensureGlobal host).2.1.collectGarbage (e'.ensureGlobal host).1) := by
  obtain ⟨u, hu, hg, hE, hhost⟩ := hE.ensureGlobal host
  obtain ⟨v, hv, hg, hE⟩ := hE.collectGarbage hg (e.global_ensureGlobal host)
    (e'.global_ensureGlobal host)
  exact ⟨v, hu.after.trans hv, hhost, hg, hE⟩

theorem Environments.run (hE : B.Environments w e e') (host : Host) (source : SourceUnit)
    (oversight : Oversight) :
    B.Ran 1 w (e.run host source oversight) (e'.run host source oversight) := by
  obtain ⟨v, hv, hhost, hg, hE⟩ := hE.prepare host
  unfold Environment.run
  dsimp only
  rw [← hhost]
  refine Ran.later (k := 0) hv ?_
  cases Source.parse source.text with
  | error fault => exact hE.parseFailure _ fault (source.absoluteLine fault.line)
  | ok program =>
    exact (hE.perform hg oversight _ (.program program)).map
      (f := Environment.absolute source) (fun _ => rfl) fun _ _ _ =>
        Completion.Matches.absolute source

theorem Environments.dispatch (hE : B.Environments w e e') (host : Host) (oversight : Oversight)
    {handler : String} {event : Heap.Step Value} {t : Task}
    (ht : ∀ m s, Machine.dispatch m s handler event = t.perform m s) :
    B.Ran 1 w (e.dispatch host oversight handler event)
      (e'.dispatch host oversight handler event) := by
  obtain ⟨v, hv, hhost, hg, hE⟩ := hE.prepare host
  unfold Environment.dispatch
  simp only [ht]
  rw [← hhost]
  exact Ran.later (k := 0) hv (hE.perform hg oversight _ t)

theorem Environments.dispatchMessage (hE : B.Environments w e e') (host : Host)
    (oversight : Oversight) (data : Option Json) :
    B.Ran 1 w (e.dispatchMessage host oversight data) (e'.dispatchMessage host oversight data) :=
  hE.dispatch host oversight (t := .message "onmessage" data) fun _ _ => rfl

theorem Environments.dispatchConnect (hE : B.Environments w e e') (host : Host)
    (oversight : Oversight) (port : Nat) :
    B.Ran 1 w (e.dispatchConnect host oversight port) (e'.dispatchConnect host oversight port) :=
  hE.dispatch host oversight (t := .connect "onconnect" port) fun _ _ => rfl

end Bond

end ScriptHost
