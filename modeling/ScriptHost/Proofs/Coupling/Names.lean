import ScriptHost.Proofs.Coupling.Builtin

/-!
Names and scopes between coupled machines.
-/

namespace ScriptHost.Coupling

open Run (onHeap onScopes)
open Source (Expr Stmt)

variable {K : Coupling} {s s' : Setting} {w : K.Stage} {α β γ δ : Type}

structure Frames (K : Coupling) (w : K.Stage) (f f' : Frame) : Prop where
  scope : f.scope = f'.scope
  opened : K.Opened w f.scope
  this : K.Value w f.this f'.this

theorem Frames.later {f f' : Frame} {v : K.Stage} (hf : K.Frames w f f') (hl : K.Later w v) :
    K.Frames v f f' :=
  ⟨hf.scope, K.opened hl _ hf.opened, Value.Matches.mono (K.named hl) hf.this⟩

/-- What the two runs have around them. -/
structure Common (K : Coupling) (s s' : Setting) (w : K.Stage) : Prop where
  keeps : K.Keeps s s'
  globalObject : K.Named w s.globalObject s'.globalObject
  globalScope : s.globalScope = s'.globalScope
  opened : K.Opened w s.globalScope

theorem Common.later {v : K.Stage} (hc : K.Common s s' w) (hl : K.Later w v) : K.Common s s' v :=
  ⟨hc.keeps, K.named hl _ _ hc.globalObject, hc.globalScope, K.opened hl _ hc.opened⟩

namespace Follows

variable {T : K.Stage → γ → δ → Prop}

theorem scopes {f : Scopes → Run γ} {g : Scopes → Run δ}
    (h : ∀ v, K.Later w v → ∀ c c', c.Matches (K.Named v) (K.Opened v) c' →
      K.Follows s s' v T (f c) (g c')) :
    K.Follows s s' w T (Run.scopes >>= f) (Run.scopes >>= g) :=
  fun v hv m m' hst => h v hv m.scopes m'.scopes (K.scopes hst) v (K.refl v) m m' hst

theorem setting {f : Setting → Run γ} {g : Setting → Run δ} (h : K.Follows s s' w T (f s) (g s')) :
    K.Follows s s' w T (Run.setting >>= f) (Run.setting >>= g) :=
  fun v hv m m' hst => h v hv m m' hst

end Follows

/-! ## Names -/

namespace Common

variable {f f' : Frame} {v v' : ScriptHost.Value}

theorem openScope (hc : K.Common s s' w) (kind : ScopeKind) {i : ScopeId} (hi : K.Opened w i) :
    K.Follows s s' w (fun v i j => i = j ∧ K.Opened v i)
      (onScopes fun scopes => scopes.openChild kind i)
      (onScopes fun scopes => scopes.openChild kind i) :=
  hc.keeps.openChild w kind i hi

theorem openBlock (hc : K.Common s s' w) (hf : K.Frames w f f') :
    K.Follows s s' w K.Frames (Run.openBlock f) (Run.openBlock f') := by
  unfold Run.openBlock
  rw [← hf.scope]
  refine (hc.openScope .block hf.opened).bind fun t ht i j hij => ?_
  obtain ⟨rfl, hi⟩ := hij
  exact Follows.pure fun r hr =>
    ⟨rfl, K.opened hr _ hi, Value.Matches.mono (K.named (K.trans ht hr)) hf.this⟩

theorem bindTo (hc : K.Common s s' w) {i : ScopeId} (hi : K.Opened w i) (name : String)
    (isMutable : Bool) (hv : K.Value w v v') :
    K.Follows s s' w K.Same (Run.bind i name ⟨v, isMutable⟩) (Run.bind i name ⟨v', isMutable⟩) :=
  hc.keeps.bind w i name _ _ hi ⟨hv, rfl⟩

theorem globalProperty_rel (hc : K.Common s s' w) {h h' : Heap}
    (hm : h.Matches (K.Named w) (K.Opened w) h') (name : String) :
    Option.Rel (K.Value w) ((h.object s.globalObject).get? name)
      ((h'.object s'.globalObject).get? name) :=
  (hm.object _ _ hc.globalObject).get?_rel name

theorem setGlobal (hc : K.Common s s' w) (name : String) (hv : K.Value w v v') :
    K.Follows s s' w K.Same (onHeap (Heap.setProperty s.globalObject name v))
      (onHeap (Heap.setProperty s'.globalObject name v')) :=
  hc.keeps.setProperty hc.globalObject name hv

theorem resolve? (hc : K.Common s s' w) (name : String) (hf : K.Frames w f f') :
    K.Follows s s' w (fun v => Option.Rel (K.Value v)) (Run.resolve? name f)
      (Run.resolve? name f') := by
  have hlater {a b : Option ScriptHost.Value} {t r : K.Stage} (hr : K.Later t r)
      (h : Option.Rel (K.Value t) a b) : Option.Rel (K.Value r) a b := by
    cases h with
    | none => exact .none
    | some hab => exact .some (Value.Matches.mono (K.named hr) hab)
  refine Follows.scopes fun t ht c c' hcs => ?_
  have hrel := hcs.lookup?_rel name (hf.later ht).opened
  rw [← hf.scope]
  generalize c.lookup? name f.scope = x, c'.lookup? name f.scope = y at hrel ⊢
  cases hrel with
  | some hv => exact Follows.pure fun _ hr => hlater hr (.some hv)
  | none =>
    refine Follows.setting (Follows.heap fun r hr h h' hm => Follows.pure fun q hq => ?_)
    exact hlater hq ((hc.later (K.trans ht hr)).globalProperty_rel hm name)

theorem lookup (hc : K.Common s s' w) (name : String) (hf : K.Frames w f f') :
    K.Follows s s' w K.Value (Run.lookup name f) (Run.lookup name f') := by
  refine (hc.resolve? name hf).bind fun t ht a b hab => ?_
  cases hab with
  | some hv => exact Follows.pure fun _ hr => Value.Matches.mono (K.named hr) hv
  | none => exact hc.keeps.complain _

theorem assignName (hc : K.Common s s' w) (name : String) (hv : K.Value w v v')
    (hf : K.Frames w f f') :
    K.Follows s s' w K.Same (Run.assignName name v f) (Run.assignName name v' f') := by
  refine Follows.scopes fun t ht c c' hcs => ?_
  have hrel := hcs.binding?_rel name (hf.later ht).opened
  have hv' : K.Value t v v' := Value.Matches.mono (K.named ht) hv
  rw [← hf.scope]
  generalize c.binding? name f.scope = x, c'.binding? name f.scope = y at hrel ⊢
  cases hrel with
  | none => exact Follows.setting ((hc.later ht).setGlobal name hv')
  | @some p q hpq =>
    obtain ⟨i, b⟩ := p
    obtain ⟨_, b'⟩ := q
    obtain ⟨rfl, hi, hb⟩ := hpq
    have hmutable : b.isMutable = b'.isMutable := hb.isMutable
    simp only [hmutable]
    split
    · exact (hc.later ht).bindTo hi name true hv'
    · exact hc.keeps.complain .constantAssignment

theorem declareVariable (hc : K.Common s s' w) (hf : K.Frames w f f') (name : String)
    {a b : Option ScriptHost.Value} (hab : Option.Rel (K.Value w) a b) :
    K.Follows s s' w K.Same (Run.declareVariable f name a) (Run.declareVariable f' name b) := by
  refine Follows.scopes fun t ht c c' hcs => ?_
  obtain ⟨hscope, hopened⟩ := hcs.variableScope_eq (hf.later ht).opened
  simp only [← hf.scope, ← hscope, ← hcs.kind?_eq hopened, ← hcs.declares_eq name hopened]
  split
  · refine Follows.setting (Follows.heap fun r hr h h' hm => ?_)
    have hcr := hc.later (K.trans ht hr)
    have hdeclared := hcr.globalProperty_rel hm name
    generalize (h.object s.globalObject).get? name = x,
      (h'.object s'.globalObject).get? name = y at hdeclared ⊢
    cases hab with
    | some hv =>
      exact hcr.setGlobal name (Value.Matches.mono (K.named (K.trans ht hr)) hv)
    | none =>
      cases hdeclared with
      | none => exact hcr.setGlobal name (.primitive rfl)
      | some => exact Follows.skip
  · cases hab with
    | some hv =>
      exact (hc.later ht).bindTo hopened name true (Value.Matches.mono (K.named ht) hv)
    | none =>
      dsimp only
      split
      · exact Follows.skip
      · exact (hc.later ht).bindTo hopened name true (.primitive rfl)

theorem declareLexical (hc : K.Common s s' w) (hf : K.Frames w f f') (isMutable : Bool)
    (name : String) (hv : K.Value w v v') :
    K.Follows s s' w K.Same (Run.declareLexical f isMutable name v)
      (Run.declareLexical f' isMutable name v') := by
  refine Follows.scopes fun t ht c c' hcs => ?_
  have hopened := (hf.later ht).opened
  rw [← hf.scope, ← hcs.declares_eq name hopened]
  split
  · exact hc.keeps.complain _
  · exact (hc.later ht).bindTo hopened name isMutable (Value.Matches.mono (K.named ht) hv)

theorem declare (hc : K.Common s s' w) (hf : K.Frames w f f') (binder : Source.Binder)
    (name : String) {a b : Option ScriptHost.Value} (hab : Option.Rel (K.Value w) a b) :
    K.Follows s s' w K.Same (Run.declare f binder name a) (Run.declare f' binder name b) := by
  have hvalue : K.Value w (a.getD .undefined) (b.getD .undefined) :=
    Heap.Matches.getD_undefined hab
  cases binder with
  | «variable» => exact hc.declareVariable hf name hab
  | mutable => exact hc.declareLexical hf true name hvalue
  | constant => exact hc.declareLexical hf false name hvalue

theorem makeFunction (hc : K.Common s s' w) (code : Source.Function) {i : ScopeId}
    (hi : K.Opened w i) :
    K.Follows s s' w K.Value (Run.makeFunction code i) (Run.makeFunction code i) := by
  have hmade : HeapObject.Matches (K.Named w) (K.Opened w) ⟨.function code i, []⟩
      ⟨.function code i, []⟩ := ⟨.function hi, .nil⟩
  exact (hc.keeps.allocate rfl hmade).bind fun _ _ _ _ hab =>
    Follows.pure fun _ hr => .object (K.named hr _ _ hab)

theorem hoist (hc : K.Common s s' w) (hf : K.Frames w f f') (body : List Stmt) :
    K.Follows s s' w K.Same (Evaluator.hoist f body) (Evaluator.hoist f' body) := by
  induction body generalizing w with
  | nil => exact Follows.skip
  | cons first rest ih =>
    obtain ⟨line, kind⟩ := first
    cases kind with
    | function code =>
      unfold Evaluator.hoist
      rw [← hf.scope]
      refine (hc.makeFunction code hf.opened).bind fun t ht v v' hv => ?_
      refine ((hc.later ht).declareVariable (hf.later ht) _ (.some hv)).bind fun r hr _ _ _ => ?_
      exact ih (hc.later (K.trans ht hr)) (hf.later (K.trans ht hr))
    | _ => exact ih hc hf

theorem bindParams (hc : K.Common s s' w) {i : ScopeId} (hi : K.Opened w i)
    (params : List String) {vs vs' : List ScriptHost.Value}
    (hvs : List.Forall₂ (K.Value w) vs vs') :
    K.Follows s s' w K.Same (Evaluator.bindParams i params vs)
      (Evaluator.bindParams i params vs') := by
  induction params generalizing w vs vs' with
  | nil => exact Follows.skip
  | cons param rest ih =>
    refine (hc.bindTo hi param true (head?_matches hvs)).bind fun t ht _ _ _ => ?_
    refine ih (hc.later ht) (K.opened ht _ hi) ?_
    cases hvs with
    | nil => exact .nil
    | cons _ hrest => exact hrest.imp fun _ _ => Value.Matches.mono (K.named ht)

end Common

end ScriptHost.Coupling
