import ScriptHost.Proofs.Coupling.Calls

/-!
Expressions between coupled machines, form by form.
-/

namespace ScriptHost.Coupling.Scene

open Run (onHeap)
open Source (Expr)

variable {K : Coupling} {s s' : Setting} {w : K.Stage} {self self' : Evaluator} {f f' : Frame}
  {v v' : ScriptHost.Value} {vs vs' : List ScriptHost.Value}

theorem allocateValue (h : K.Scene s s' w self self') {o o' : HeapObject} (hport : o.port? = none)
    (ho : o.Matches (K.Named w) (K.Opened w) o') :
    K.Follows s s' w K.Value (.object <$> onHeap (Heap.allocate o))
      (.object <$> onHeap (Heap.allocate o')) :=
  Follows.object_matches _ rfl (h.keeps.allocate hport ho)

theorem value_later {u : K.Stage} (hl : K.Later w u) (hv : K.Value w v v') : K.Value u v v' :=
  Value.Matches.mono (K.named hl) hv

/-! ## Calls -/

theorem callAfterArgs (h : K.Scene s s' w self self') (hf : K.Frames w f f')
    {u u' : ScriptHost.Value} (hv : K.Value w v v') (hu : K.Value w u u') (args : List Expr)
    (name : String) :
    K.Follows s s' w K.Value (self.evalArgs f #[] args >>= fun vs => self.call v u vs name)
      (self'.evalArgs f' #[] args >>= fun vs => self'.call v' u' vs name) :=
  (h.evalArguments hf args).bind fun _ ht _ _ hvs =>
    (h.later ht).call (value_later ht hv) (value_later ht hu) hvs name

theorem callProperty (h : K.Scene s s' w self self') (hf : K.Frames w f f') (hv : K.Value w v v')
    (key : String) (args : List Expr) :
    K.Follows s s' w K.Value
      (Run.getProperty v key >>= fun function =>
        self.evalArgs f #[] args >>= fun vs => self.call function v vs key)
      (Run.getProperty v' key >>= fun function =>
        self'.evalArgs f' #[] args >>= fun vs => self'.call function v' vs key) :=
  (h.keeps.getProperty hv key).bind fun _ ht _ _ hfunction =>
    (h.later ht).callAfterArgs (hf.later ht) hfunction (value_later ht hv) args key

theorem evalCall (h : K.Scene s s' w self self') (callee : Expr) (args : List Expr)
    (hf : K.Frames w f f') :
    K.Follows s s' w K.Value (self.evalCall callee args f) (self'.evalCall callee args f') := by
  have hother : K.Follows s s' w K.Value
      (self.eval callee f >>= fun function =>
        self.evalArgs f #[] args >>= fun vs => self.call function .undefined vs "expression")
      (self'.eval callee f' >>= fun function =>
        self'.evalArgs f' #[] args >>= fun vs => self'.call function .undefined vs "expression") :=
    (h.evalHere callee hf).bind fun t ht _ _ hv =>
      (h.later ht).callAfterArgs (hf.later ht) hv (.primitive rfl) args "expression"
  cases callee with
  | member object property =>
    refine (h.evalHere object hf).bind fun t ht v v' hv => Follows.heap fun r hr g g' hm => ?_
    have htr := K.trans ht hr
    have hv' := value_later hr hv
    have hrel := hm.arrayMethod?_rel hv' property
    generalize Run.arrayMethod? g v property = x, Run.arrayMethod? g' v' property = y at hrel ⊢
    cases hrel with
    | none => exact (h.later htr).callProperty (hf.later htr) hv' property args
    | @some p q hpq =>
      obtain ⟨id, method⟩ := p
      obtain ⟨id', _⟩ := q
      obtain ⟨hid, rfl⟩ := hpq
      exact ((h.later htr).evalArguments (hf.later htr) args).bind fun q hq _ _ hvs =>
        h.keeps.callArrayMethod (K.named hq _ _ hid) method hvs
  | index object key =>
    refine (h.evalHere object hf).bind fun t ht v v' hv => ?_
    refine ((h.later ht).evalKey key (hf.later ht)).bind fun r hr k k' hk => ?_
    obtain rfl : k = k' := hk
    have htr := K.trans ht hr
    exact (h.later htr).callProperty (hf.later htr) (value_later hr hv) k args
  | name name =>
    refine (h.lookup name hf).bind fun t ht _ _ hv => ?_
    exact (h.later ht).callAfterArgs (hf.later ht) hv (.primitive rfl) args name
  | _ => exact hother

theorem instanceOr_matches {u u' : ScriptHost.Value} (hv : K.Value w v v') (hu : K.Value w u u') :
    K.Value w (Evaluator.instanceOr v u) (Evaluator.instanceOr v' u') := by
  cases hu with
  | object hab => exact .object hab
  | @primitive u hnone =>
    cases u with
    | object => exact nomatch hnone
    | _ => exact hv

theorem evalConstruct (h : K.Scene s s' w self self') (callee : Expr) (args : List Expr)
    (hf : K.Frames w f f') :
    K.Follows s s' w K.Value (self.evalConstruct callee args f)
      (self'.evalConstruct callee args f') := by
  refine (h.evalHere callee hf).bind fun t ht v v' hv => ?_
  refine ((h.later ht).evalArguments (hf.later ht) args).bind fun r hr vs vs' hvs => ?_
  refine Follows.heap fun q hq g g' hm => ?_
  have hrel := kind_rel hm (value_later (K.trans hr hq) hv)
  have hvs' : List.Forall₂ (K.Value q) vs vs' := hvs.imp fun _ _ => value_later hq
  have h' := h.later (K.trans ht (K.trans hr hq))
  generalize v.object?.map (fun id => (g.object id).kind) = x,
    v'.object?.map (fun id => (g'.object id).kind) = y at hrel ⊢
  cases hrel with
  | none => exact h.keeps.complain _
  | some hkind =>
    cases hkind with
    | @native function =>
      cases function with
      | errorConstructor kind => exact h.keeps.callNative nofun hvs'
      | _ => exact h.keeps.complain _
    | function hclosure =>
      have hmade : HeapObject.Matches (K.Named q) (K.Opened q) ⟨.ordinary, []⟩ ⟨.ordinary, []⟩ :=
        ⟨.ordinary, .nil⟩
      refine (h.keeps.allocate rfl hmade).bind fun a ha made made' hab => ?_
      have hthis : K.Value a (.object made) (.object made') := .object hab
      refine ((h'.later ha).callScript _ (K.opened ha _ hclosure) hthis
        (hvs'.imp fun _ _ => value_later ha)).bind fun b hb u u' hu => ?_
      exact Follows.pure fun _ hc =>
        instanceOr_matches (value_later (K.trans hb hc) hthis) (value_later hc hu)
    | ordinary | array | error => exact h.keeps.complain _

/-! ## Operators and targets -/

theorem assign (h : K.Scene s s' w self self') (target : Expr) (hv : K.Value w v v')
    (hf : K.Frames w f f') :
    K.Follows s s' w K.Same (self.assign target v f) (self'.assign target v' f') := by
  cases target with
  | name name => exact h.assignName name hv hf
  | member object property =>
    exact (h.evalHere object hf).bind fun t ht _ _ ho =>
      h.keeps.assignProperty ho property (value_later ht hv)
  | index object key =>
    refine (h.evalHere object hf).bind fun t ht o o' ho => ?_
    refine ((h.later ht).evalKey key (hf.later ht)).bind fun r hr k k' hk => ?_
    obtain rfl : k = k' := hk
    exact h.keeps.assignProperty (value_later hr ho) k (value_later (K.trans ht hr) hv)
  | _ => exact h.keeps.complain .assignmentTarget

theorem evalUnary (h : K.Scene s s' w self self') (op : Source.UnaryOp) (operand : Expr)
    (hf : K.Frames w f f') :
    K.Follows s s' w K.Value (self.evalUnary op operand f) (self'.evalUnary op operand f') := by
  have hresult (g : Heap → ScriptHost.Value → ScriptHost.Value)
      (hg : ∀ (t : K.Stage) (h h' : Heap) (v v' : ScriptHost.Value),
        h.Matches (K.Named t) (K.Opened t) h' → K.Value t v v' →
        g h v = g h' v' ∧ (g h' v').object? = none) :
      K.Follows s s' w K.Value
        (self.eval operand f >>= fun v => Run.heap >>= fun h => pure (g h v))
        (self'.eval operand f' >>= fun v => Run.heap >>= fun h => pure (g h v)) := by
    refine (h.evalHere operand hf).bind fun t ht v v' hv => Follows.heap fun r hr k k' hm => ?_
    obtain ⟨heq, hnone⟩ := hg r k k' v v' hm (value_later hr hv)
    rw [heq]
    exact Follows.pure fun _ _ => .primitive hnone
  have htype := hresult (fun h v => .string (h.typeOf v)) fun _ _ _ _ _ hm hv =>
    ⟨congrArg ScriptHost.Value.string (hm.typeOf_eq hv), rfl⟩
  cases op with
  | negate =>
    exact hresult (fun h v => .number (-(h.toNumber v))) fun _ _ _ _ _ hm hv =>
      ⟨congrArg (fun x : Float => ScriptHost.Value.number (-x)) (hm.toNumber_eq hv), rfl⟩
  | plus =>
    exact hresult (fun h v => .number (h.toNumber v)) fun _ _ _ _ _ hm hv =>
      ⟨congrArg ScriptHost.Value.number (hm.toNumber_eq hv), rfl⟩
  | not =>
    exact hresult (fun _ v => .bool (!v.truthy)) fun _ _ _ _ _ _ hv =>
      ⟨congrArg (fun b => ScriptHost.Value.bool (!b)) (Value.Matches.truthy_eq hv), rfl⟩
  | typeOf =>
    cases operand with
    | name name =>
      refine (h.resolve? name hf).bind fun t ht a b hab => Follows.heap fun r hr k k' hm => ?_
      rw [hm.typeOf_eq (value_later hr (Heap.Matches.getD_undefined hab))]
      exact Follows.pure fun _ _ => .primitive rfl
    | _ => exact htype

theorem evalAssign (h : K.Scene s s' w self self') (op : Option Source.BinaryOp)
    (target value : Expr) (hf : K.Frames w f f') :
    K.Follows s s' w K.Value (self.evalAssign op target value f)
      (self'.evalAssign op target value f') := by
  have hwrite (t : K.Stage) (ht : K.Later w t) (v v' : ScriptHost.Value) (hv : K.Value t v v') :
      K.Follows s s' t K.Value (self.assign target v f >>= fun _ => pure v)
        (self'.assign target v' f' >>= fun _ => pure v') :=
    ((h.later ht).assign target hv (hf.later ht)).bind fun _ hr _ _ _ =>
      Follows.pure fun _ hq => value_later (K.trans hr hq) hv
  cases op with
  | none => exact (h.evalHere value hf).bind hwrite
  | some op =>
    refine (h.evalHere target hf).bind fun t ht v v' hv => ?_
    refine ((h.later ht).evalHere value (hf.later ht)).bind fun r hr u u' hu => ?_
    exact (h.keeps.binary op (value_later hr hv) hu).bind fun q hq =>
      hwrite q (K.trans ht (K.trans hr hq))

theorem evalUpdate (h : K.Scene s s' w self self') (increment before : Bool) (target : Expr)
    (hf : K.Frames w f f') :
    K.Follows s s' w K.Value (self.evalUpdate increment before target f)
      (self'.evalUpdate increment before target f') := by
  refine (h.evalHere target hf).bind fun t ht v v' hv => Follows.heap fun r hr k k' hm => ?_
  have htr := K.trans ht hr
  rw [hm.toNumber_eq (value_later hr hv)]
  exact ((h.later htr).assign target (.primitive rfl) (hf.later htr)).bind fun _ _ _ _ _ =>
    Follows.pure fun _ _ => .primitive rfl

theorem evalIndex (h : K.Scene s s' w self self') (object key : Expr) (hf : K.Frames w f f') :
    K.Follows s s' w K.Value (self.evalIndex object key f) (self'.evalIndex object key f') := by
  refine (h.evalHere object hf).bind fun t ht o o' ho => ?_
  refine ((h.later ht).evalHere key (hf.later ht)).bind fun r hr u u' hu => ?_
  refine Follows.heap fun q hq k k' hm => ?_
  have ho' := value_later (K.trans hr hq) ho
  have hu' := value_later hq hu
  have hrel : Option.Rel (K.Value q) (o.object?.bind fun id => k.element? id u)
      (o'.object?.bind fun id => k'.element? id u') := by
    cases ho' with
    | object hab => exact hm.element?_rel hab hu'
    | primitive hnone => rw [hnone]; exact .none
  generalize o.object?.bind (fun id => k.element? id u) = x,
    o'.object?.bind (fun id => k'.element? id u') = y at hrel ⊢
  cases hrel with
  | some hxy => exact Follows.pure fun _ hp => value_later hp hxy
  | none =>
    dsimp only
    rw [hm.propertyKey_eq hu']
    exact h.keeps.getProperty ho' _

theorem evalLogical (h : K.Scene s s' w self self') (op : Source.LogicalOp) (left right : Expr)
    (hf : K.Frames w f f') :
    K.Follows s s' w K.Value (self.evalExpr (.logical op left right) f)
      (self'.evalExpr (.logical op left right) f') := by
  refine (h.evalHere left hf).bind fun t ht v v' hv => ?_
  have hright := (h.later ht).evalHere right (hf.later ht)
  have hleft : K.Follows s s' t K.Value (pure v) (pure v') :=
    Follows.pure fun _ hr => value_later hr hv
  rw [Value.Matches.truthy_eq hv]
  cases op <;> cases v'.truthy
  · exact hleft
  · exact hright
  · exact hright
  · exact hleft

theorem evalExpr (h : K.Scene s s' w self self') (e : Expr) (hf : K.Frames w f f') :
    K.Follows s s' w K.Value (self.evalExpr e f) (self'.evalExpr e f') := by
  cases e with
  | number | string | bool | null | undefined => exact Follows.pure fun _ _ => .primitive rfl
  | this => exact Follows.pure fun _ ht => value_later ht hf.this
  | name x => exact h.lookup x hf
  | array items =>
    refine (h.evalArguments hf items).bind fun t ht vs vs' hvs => ?_
    exact (h.later ht).allocateValue rfl ⟨.array hvs, .nil⟩
  | object entries =>
    refine (h.evalEntries hf .nil entries).bind fun t ht ps ps' hps => ?_
    exact (h.later ht).allocateValue rfl ⟨.ordinary, hps⟩
  | function code =>
    change K.Follows s s' w K.Value (Run.makeFunction code f.scope) (Run.makeFunction code f'.scope)
    rw [← hf.scope]
    exact h.makeFunction code hf.opened
  | unary op operand => exact h.evalUnary op operand hf
  | binary op left right =>
    refine (h.evalHere left hf).bind fun t ht v v' hv => ?_
    refine ((h.later ht).evalHere right (hf.later ht)).bind fun r hr u u' hu => ?_
    exact h.keeps.binary op (value_later hr hv) hu
  | logical op left right => exact h.evalLogical op left right hf
  | conditional test consequent alternate =>
    refine (h.evalHere test hf).bind fun t ht v v' hv => ?_
    rw [Value.Matches.truthy_eq hv]
    split
    · exact (h.later ht).evalHere consequent (hf.later ht)
    · exact (h.later ht).evalHere alternate (hf.later ht)
  | assign op target value => exact h.evalAssign op target value hf
  | update increment before target => exact h.evalUpdate increment before target hf
  | member object property =>
    exact (h.evalHere object hf).bind fun _ _ _ _ hv => h.keeps.getProperty hv property
  | index object key => exact h.evalIndex object key hf
  | call callee args => exact h.evalCall callee args hf
  | construct callee args => exact h.evalConstruct callee args hf

end ScriptHost.Coupling.Scene
