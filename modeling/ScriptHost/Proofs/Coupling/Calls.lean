import ScriptHost.Proofs.Coupling.Names
import ScriptHost.Run.Program

/-!
Statement lists and calls between coupled machines.
-/

namespace ScriptHost.Coupling

open Run (onHeap onScopes)
open Source (Expr Stmt)

variable {K : Coupling} {s s' : Setting} {w : K.Stage} {α β γ δ : Type}

/-- The evaluators of the next level, which the rules at this one use. -/
structure Scene (K : Coupling) (s s' : Setting) (w : K.Stage) (E E' : Evaluator) : Prop
    extends K.Common s s' w where
  eval : ∀ v, K.Later w v → ∀ e f f', K.Frames v f f' →
    K.Follows s s' v K.Value (E.eval e f) (E'.eval e f')
  exec : ∀ v, K.Later w v → ∀ stmt f f', K.Frames v f f' →
    K.Follows s s' v K.Same (E.exec stmt f) (E'.exec stmt f')

namespace Scene

variable {self self' : Evaluator} {f f' : Frame} {v v' : ScriptHost.Value}
  {vs vs' : List ScriptHost.Value}

theorem later {u : K.Stage} (h : K.Scene s s' w self self') (hl : K.Later w u) :
    K.Scene s s' u self self' :=
  ⟨h.toCommon.later hl, fun v hv => h.eval v (K.trans hl hv),
    fun v hv => h.exec v (K.trans hl hv)⟩

theorem evalHere (h : K.Scene s s' w self self') (e : Expr) (hf : K.Frames w f f') :
    K.Follows s s' w K.Value (self.eval e f) (self'.eval e f') :=
  h.eval w (K.refl w) e f f' hf

theorem execHere (h : K.Scene s s' w self self') (stmt : Stmt) (hf : K.Frames w f f') :
    K.Follows s s' w K.Same (self.exec stmt f) (self'.exec stmt f') :=
  h.exec w (K.refl w) stmt f f' hf

theorem evalArgs (h : K.Scene s s' w self self') (hf : K.Frames w f f')
    {found found' : Array ScriptHost.Value}
    (hfound : HeapObject.ItemsMatch (K.Named w) found found') (args : List Expr) :
    K.Follows s s' w (fun u => List.Forall₂ (K.Value u)) (self.evalArgs f found args)
      (self'.evalArgs f' found' args) := by
  induction args generalizing w found found' with
  | nil => exact Follows.pure fun _ hu => hfound.mono (K.named hu)
  | cons e rest ih =>
    refine (h.evalHere e hf).bind fun t ht v v' hv => ?_
    exact ih (h.later ht) (hf.later ht) ((hfound.mono (K.named ht)).push hv)

theorem evalArguments (h : K.Scene s s' w self self') (hf : K.Frames w f f') (args : List Expr) :
    K.Follows s s' w (fun u => List.Forall₂ (K.Value u)) (self.evalArgs f #[] args)
      (self'.evalArgs f' #[] args) :=
  h.evalArgs hf .nil args

theorem evalEntries (h : K.Scene s s' w self self') (hf : K.Frames w f f')
    {found found' : Table ScriptHost.Value} (hfound : Table.Matches (K.Value w) found found')
    (entries : List (String × Expr)) :
    K.Follows s s' w (fun u => Table.Matches (K.Value u)) (self.evalEntries f found entries)
      (self'.evalEntries f' found' entries) := by
  induction entries generalizing w found found' with
  | nil => exact Follows.pure fun _ hu => hfound.mono fun _ _ => Value.Matches.mono (K.named hu)
  | cons entry rest ih =>
    obtain ⟨key, e⟩ := entry
    refine (h.evalHere e hf).bind fun t ht v v' hv => ?_
    exact ih (h.later ht) (hf.later ht)
      ((hfound.mono fun _ _ => Value.Matches.mono (K.named ht)).put key hv)

theorem evalKey (h : K.Scene s s' w self self') (key : Expr) (hf : K.Frames w f f') :
    K.Follows s s' w K.Same (self.evalKey key f) (self'.evalKey key f') := by
  refine (h.evalHere key hf).bind fun t ht v v' hv => Follows.heap fun r hr g g' hm => ?_
  rw [hm.propertyKey_eq (Value.Matches.mono (K.named hr) hv)]
  exact Follows.pure fun _ _ => rfl

/-! ## Statement lists -/

theorem execEach (h : K.Scene s s' w self self') (hf : K.Frames w f f') (body : List Stmt) :
    K.Follows s s' w K.Same (self.execEach f body) (self'.execEach f' body) := by
  induction body generalizing w with
  | nil => exact Follows.skip
  | cons first rest ih =>
    refine (h.execHere first hf).bind fun t ht _ _ _ => ?_
    exact ih (h.later ht) (hf.later ht)

theorem execStatements (h : K.Scene s s' w self self') (body : List Stmt)
    (hf : K.Frames w f f') :
    K.Follows s s' w K.Same (self.execStatements body f) (self'.execStatements body f') :=
  (h.hoist hf body).bind fun _ ht _ _ _ => (h.later ht).execEach (hf.later ht) body

theorem execBlock (h : K.Scene s s' w self self') (body : List Stmt) (hf : K.Frames w f f') :
    K.Follows s s' w K.Same (self.execBlock body f) (self'.execBlock body f') :=
  (h.openBlock hf).bind fun _ ht _ _ hg => (h.later ht).execStatements body hg

/-! ## Calls -/

theorem functionResult_ok {u : Unit} :
    K.Follows s s' w K.Value (Evaluator.functionResult (.ok u))
      (Evaluator.functionResult (.ok u)) :=
  Follows.pure fun _ _ => .primitive rfl

theorem functionResult_error {e e' : Abrupt} (he : e.Matches (K.Named w) e') :
    K.Follows s s' w K.Value (Evaluator.functionResult (.error e))
      (Evaluator.functionResult (.error e')) := by
  cases he with
  | thrown hv => exact Follows.error (.thrown hv)
  | returned hv => exact Follows.pure fun _ hu => hv.mono (K.named hu)
  | broke => exact Follows.error .broke
  | continued => exact Follows.error .continued

theorem functionResult_final (e : Abrupt) (he : e.isFinal = true) :
    Evaluator.functionResult (.error e) = throw e := by
  cases e <;> first | rfl | exact nomatch he

theorem globalThis (hc : K.Common s s' w) :
    K.Follows s s' w K.Value Run.globalThis Run.globalThis :=
  fun v hv _ _ hst => .ok (K.refl v) hst (.object (hc.later hv).globalObject)

theorem callScript (h : K.Scene s s' w self self') (code : Source.Function) {closure : ScopeId}
    (hclosure : K.Opened w closure) (hthis : K.Value w v v')
    (hvs : List.Forall₂ (K.Value w) vs vs') :
    K.Follows s s' w K.Value (self.callScript code closure v vs)
      (self'.callScript code closure v' vs') := by
  refine h.keeps.checkCallDepth.bind fun a ha _ _ _ => ?_
  refine (h.keeps.safePoint a).bind fun b hb _ _ _ => ?_
  have hwb := K.trans ha hb
  refine ((h.later hwb).openScope .function (K.opened hwb _ hclosure)).bind fun c hc i j hij => ?_
  obtain ⟨rfl, hi⟩ := hij
  have hwc := K.trans hwb hc
  have hvs' : List.Forall₂ (K.Value c) vs vs' :=
    hvs.imp fun _ _ => Value.Matches.mono (K.named hwc)
  refine ((h.later hwc).bindParams hi code.params hvs').bind fun d hd _ _ _ => ?_
  have hwd := K.trans hwc hd
  have hbody : ∀ r, K.Later d r → ∀ this this', K.Value r this this' →
      K.Follows s s' r K.Value
        (Run.attempt (Run.inCall (self.execStatements code.body ⟨i, this⟩)) >>=
          Evaluator.functionResult)
        (Run.attempt (Run.inCall (self'.execStatements code.body ⟨i, this'⟩)) >>=
          Evaluator.functionResult) := fun r hr this this' hthis =>
    have hframe : K.Frames r ⟨i, this⟩ ⟨i, this'⟩ :=
      ⟨rfl, K.opened (K.trans hd hr) _ hi, hthis⟩
    have hexec := (h.later (K.trans hwd hr)).execStatements code.body hframe
    hexec.inCall.attempt (fun _ _ _ _ _ => functionResult_ok)
      (fun _ _ _ _ he => functionResult_error he) functionResult_final functionResult_final
  have hthis' : K.Value d v v' := Value.Matches.mono (K.named hwd) hthis
  dsimp only
  rw [hthis'.isNullish_eq]
  split
  · exact (globalThis (h.later hwd).toCommon).bind hbody
  · exact (Follows.pure fun _ hr => Value.Matches.mono (K.named hr) hthis').bind hbody

theorem kind_rel {g g' : Heap} (hm : g.Matches (K.Named w) (K.Opened w) g')
    (hv : K.Value w v v') :
    Option.Rel (ObjectKind.Matches (K.Named w) (K.Opened w))
      (v.object?.map fun id => (g.object id).kind)
      (v'.object?.map fun id => (g'.object id).kind) := by
  cases hv with
  | object hab => exact .some (hm.object _ _ hab).kind
  | primitive hv => rw [hv]; exact .none

theorem port?_of_kind {g : Heap} {port : Nat}
    (hkind : (v.object?.map fun id => (g.object id).kind) = some (.native (.portPostMessage port))) :
    g.port? v = some port := by
  obtain ⟨id, hid, hobject⟩ := Option.map_eq_some_iff.1 hkind
  rw [Heap.port?, hid, Option.bind_some, HeapObject.port?, hobject]

theorem callOther (h : K.Scene s s' w self self') {function : Native}
    (hfunction : ∀ port, function ≠ .portPostMessage port)
    (hvs : List.Forall₂ (K.Value w) vs vs') :
    K.Follows s s' w K.Value
      (Run.record v function vs >>= fun _ => Run.callNative function vs)
      (Run.record v' function vs' >>= fun _ => Run.callNative function vs') := by
  have hrecord (v : ScriptHost.Value) (vs : List ScriptHost.Value) :
      Run.record v function vs = pure () := by
    cases function with
    | portPostMessage port => exact absurd rfl (hfunction port)
    | _ => rfl
  rw [hrecord, hrecord]
  exact h.keeps.callNative hfunction hvs

theorem call (h : K.Scene s s' w self self') {u u' : ScriptHost.Value} (hv : K.Value w v v')
    (hu : K.Value w u u') (hvs : List.Forall₂ (K.Value w) vs vs') (name : String) :
    K.Follows s s' w K.Value (self.call v u vs name) (self'.call v' u' vs' name) := by
  intro t ht m m' hst
  have hv' : K.Value t v v' := Value.Matches.mono (K.named ht) hv
  have hvs' : List.Forall₂ (K.Value t) vs vs' :=
    hvs.imp fun _ _ => Value.Matches.mono (K.named ht)
  have hrel := kind_rel (K.heap hst) hv'
  unfold Evaluator.call
  rw [Run.bind_ok (rfl : Run.heap s m = .ok m.heap m),
    Run.bind_ok (rfl : Run.heap s' m' = .ok m'.heap m')]
  generalize hx : v.object?.map (fun id => (m.heap.object id).kind) = x,
    hy : v'.object?.map (fun id => (m'.heap.object id).kind) = y at hrel ⊢
  have hnow {x y : Run ScriptHost.Value} (hxy : K.Follows s s' t K.Value x y) :
      K.Ends t K.Value (x s m) (y s' m') := hxy t (K.refl t) m m' hst
  cases hrel with
  | none => exact hnow (h.keeps.complain _)
  | some hkind =>
    cases hkind with
    | @native function =>
      cases function with
      | portPostMessage port =>
        exact h.keeps.portCall port hv' hvs' m m' hst (port?_of_kind hx) (port?_of_kind hy)
      | _ => exact hnow ((h.later ht).callOther nofun hvs')
    | function hclosure =>
      exact hnow ((h.later ht).callScript _ hclosure (Value.Matches.mono (K.named ht) hu) hvs')
    | ordinary | array | error => exact hnow (h.keeps.complain _)

end Scene

end ScriptHost.Coupling
