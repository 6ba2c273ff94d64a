import ScriptHost.Proofs.Run.Checking

/-!
Scripts keep to the limit on strings. What they cannot check is what is put on record.
-/

namespace ScriptHost

open Run (Holds)
open Source (Expr Stmt)

variable {n : Nat} {pre : Prop} {v : Value} {frame : Frame}

/-! ## Names -/

namespace Run

theorem holds_openBlock (frame : Frame) :
    Holds n pre (openBlock frame) fun inner => inner.this = frame.this :=
  (Holds.onScopes fun _ _ hs => hs.openChild .block frame.scope).bind fun _ => .pure fun _ => rfl

theorem holds_bind (scope : ScopeId) (name : String) {b : Binding} (hb : pre → b.value.Fits n) :
    Holds n pre (bind scope name b) fun _ => True :=
  .onScopes fun hpre _ hs => hs.bind scope name (hb hpre)

theorem holds_resolve? (name : String) (frame : Frame) :
    Holds n pre (resolve? name frame) fun value => ∀ v ∈ value, v.Fits n := by
  refine Holds.scopes.bind fun scopes => ?_
  split
  · next hvalue => exact .pure fun h _ hv => Option.some.inj hv ▸ h.2.lookup? hvalue
  · refine Holds.setting.bind fun s => Holds.heap.bind fun heap => .pure fun h v hv => ?_
    exact (h.2.object s.globalObject).get? hv

theorem holds_makeFunction {code : Source.Function} (hcode : pre → code.Fits n) (scope : ScopeId) :
    Holds n pre (makeFunction code scope) (Value.Fits n) :=
  (Holds.onHeap fun h => .allocate (HeapObject.fits_function (hcode h) scope)).bind fun _ =>
    .pure fun _ => trivial

theorem holds_globalProperty (id : ObjectId) (name : String) (hv : pre → v.Fits n) :
    Holds n pre (onHeap (Heap.setProperty id name v)) fun _ => True :=
  .onHeap fun h => .write (.property name v) (hv h) fun _ => rfl

theorem holds_declareVariable (frame : Frame) (name : String) {value : Option Value}
    (hvalue : pre → ∀ v ∈ value, v.Fits n) :
    Holds n pre (declareVariable frame name value) fun _ => True := by
  refine Holds.scopes.bind fun scopes => ?_
  dsimp only
  split
  · refine Holds.setting.bind fun s => Holds.heap.bind fun heap => ?_
    cases value with
    | some v => exact holds_globalProperty _ _ fun h => hvalue h.1.1.1 v rfl
    | none =>
        split
        · next hno => exact nomatch hno
        · exact holds_globalProperty _ _ fun _ => trivial
        · exact .pure fun _ => trivial
  · cases value with
    | some v => exact holds_bind _ _ fun h => hvalue h.1 v rfl
    | none =>
        dsimp only
        split
        · exact .pure fun _ => trivial
        · exact holds_bind _ _ fun _ => trivial

section Least

variable (hn : 64 ≤ n)

include hn

theorem holds_lookup (name : String) (frame : Frame) :
    Holds n pre (lookup name frame) (Value.Fits n) := by
  refine (holds_resolve? name frame).bind fun value => ?_
  split
  · exact .pure fun h => h.2 _ rfl
  · exact .complain hn _

theorem holds_assignName (name : String) (hv : pre → v.Fits n) (frame : Frame) :
    Holds n pre (assignName name v frame) fun _ => True := by
  refine Holds.scopes.bind fun scopes => ?_
  split
  · split
    · exact holds_bind _ _ fun h => hv h.1
    · exact .complain hn _
  · exact Holds.setting.bind fun s => holds_globalProperty _ _ fun h => hv h.1.1

theorem holds_declareLexical (frame : Frame) (isMutable : Bool) (name : String)
    (hv : pre → v.Fits n) :
    Holds n pre (declareLexical frame isMutable name v) fun _ => True := by
  refine Holds.scopes.bind fun scopes => ?_
  split
  · exact .complain hn _
  · exact holds_bind _ _ fun h => hv h.1

theorem holds_declare (frame : Frame) (binder : Source.Binder) (name : String)
    {value : Option Value} (hvalue : pre → ∀ v ∈ value, v.Fits n) :
    Holds n pre (declare frame binder name value) fun _ => True := by
  have hlexical : pre → (value.getD .undefined).Fits n := fun h => by
    cases value with
    | none => exact trivial
    | some v => exact hvalue h v rfl
  cases binder with
  | «variable» => exact holds_declareVariable frame name hvalue
  | mutable => exact holds_declareLexical hn frame true name hlexical
  | constant => exact holds_declareLexical hn frame false name hlexical

end Least

end Run

/-! ## Evaluators -/

namespace Evaluator

open Run

/-- The evaluator of the next level keeps to the limit. -/
structure Keeps (n : Nat) (E : Evaluator) : Prop where
  eval : ∀ {pre : Prop} {e : Expr} {frame : Frame}, (pre → e.Fits n) → (pre → frame.this.Fits n) →
    Holds n pre (E.eval e frame) (Value.Fits n)
  exec : ∀ {pre : Prop} {stmt : Stmt} {frame : Frame}, (pre → stmt.Fits n) →
    (pre → frame.this.Fits n) → Holds n pre (E.exec stmt frame) fun _ => True

theorem holds_hoist (frame : Frame) {body : List Stmt} (hbody : pre → ∀ stmt ∈ body, stmt.Fits n) :
    Holds n pre (hoist frame body) fun _ => True := by
  induction body generalizing pre with
  | nil => exact .pure fun _ => trivial
  | cons first rest ih =>
      have hrest : pre → ∀ stmt ∈ rest, stmt.Fits n :=
        fun h => (List.forall_mem_cons.1 (hbody h)).2
      obtain ⟨line, kind⟩ := first
      cases kind with
      | function code =>
          have hcode : pre → code.Fits n := fun h =>
            match (List.forall_mem_cons.1 (hbody h)).1 with
            | .mk (.function hcode) => hcode
          refine (holds_makeFunction hcode _).bind fun function => ?_
          refine (holds_declareVariable frame _ fun h v hv => ?_).bind fun _ => ?_
          · exact Option.some.inj hv ▸ h.2
          · exact ih fun h => hrest h.1.1
      | _ => exact ih hrest

theorem holds_bindParams (scope : ScopeId) (params : List String) {args : List Value}
    (hargs : pre → ∀ v ∈ args, v.Fits n) :
    Holds n pre (bindParams scope params args) fun _ => True := by
  induction params generalizing pre args with
  | nil => exact .pure fun _ => trivial
  | cons param params ih =>
      have hfirst : pre → (args.head?.getD .undefined).Fits n := fun h => by
        cases args with
        | nil => exact trivial
        | cons first _ => exact hargs h first List.mem_cons_self
      refine (holds_bind scope param hfirst).bind fun _ => ih fun h v hv => ?_
      exact hargs h.1 v (List.mem_of_mem_tail hv)

theorem holds_functionResult {ending : Except Abrupt Unit}
    (hending : pre → Ending n (fun _ => True) ending) :
    Holds n pre (functionResult ending) (Value.Fits n) := by
  cases ending with
  | ok => exact .pure fun _ => trivial
  | error e =>
      cases e with
      | returned v => exact .pure hending
      | _ => exact .error hending

namespace Keeps

variable {self : Evaluator}

section Lists

variable (h : self.Keeps n)

include h

theorem evalArgs (hf : pre → frame.this.Fits n) {found : Array Value}
    (hfound : pre → ∀ v ∈ found.toList, v.Fits n) {args : List Expr}
    (hargs : pre → ∀ e ∈ args, e.Fits n) :
    Holds n pre (self.evalArgs frame found args) fun values => ∀ v ∈ values, v.Fits n := by
  induction args generalizing pre found with
  | nil => exact .pure hfound
  | cons e rest ih =>
      refine (h.eval (fun p => (List.forall_mem_cons.1 (hargs p)).1) hf).bind fun v => ?_
      refine ih (fun p => hf p.1) (fun p => ?_) fun p => (List.forall_mem_cons.1 (hargs p.1)).2
      rw [Array.toList_push]
      exact List.forall_mem_append.2 ⟨hfound p.1, List.forall_mem_singleton.2 p.2⟩

theorem evalArguments (hf : pre → frame.this.Fits n) {args : List Expr}
    (hargs : pre → ∀ e ∈ args, e.Fits n) :
    Holds n pre (self.evalArgs frame #[] args) fun values => ∀ v ∈ values, v.Fits n :=
  h.evalArgs hf (fun _ => List.forall_mem_nil _) hargs

theorem evalEntries (hf : pre → frame.this.Fits n) {found : Table Value}
    (hfound : pre → ∀ p ∈ found, p.2.Fits n) {entries : List (String × Expr)}
    (hentries : pre → ∀ entry ∈ entries, entry.2.Fits n) :
    Holds n pre (self.evalEntries frame found entries) fun t => ∀ p ∈ t, p.2.Fits n := by
  induction entries generalizing pre found with
  | nil => exact .pure hfound
  | cons entry rest ih =>
      obtain ⟨key, e⟩ := entry
      refine (h.eval (fun p => (List.forall_mem_cons.1 (hentries p)).1) hf).bind fun v => ?_
      refine ih (fun p => hf p.1) (fun p q hq => ?_)
        fun p => (List.forall_mem_cons.1 (hentries p.1)).2
      rcases Table.mem_put hq with heq | hq
      · exact heq ▸ p.2
      · exact hfound p.1 q hq

theorem evalKey {key : Expr} (hkey : pre → key.Fits n) (hf : pre → frame.this.Fits n) :
    Holds n pre (self.evalKey key frame) fun _ => True :=
  (h.eval hkey hf).bind fun _ => Holds.heap.bind fun _ => .pure fun _ => trivial

theorem execEach (hf : pre → frame.this.Fits n) {body : List Stmt}
    (hbody : pre → ∀ stmt ∈ body, stmt.Fits n) :
    Holds n pre (self.execEach frame body) fun _ => True := by
  induction body generalizing pre with
  | nil => exact .pure fun _ => trivial
  | cons first rest ih =>
      refine (h.exec (fun p => (List.forall_mem_cons.1 (hbody p)).1) hf).bind fun _ => ?_
      exact ih (fun p => hf p.1) fun p => (List.forall_mem_cons.1 (hbody p.1)).2

theorem execStatements {body : List Stmt} (hbody : pre → ∀ stmt ∈ body, stmt.Fits n)
    (hf : pre → frame.this.Fits n) :
    Holds n pre (self.execStatements body frame) fun _ => True :=
  (holds_hoist frame hbody).bind fun _ => h.execEach (fun p => hf p.1) fun p => hbody p.1

theorem execBlock {body : List Stmt} (hbody : pre → ∀ stmt ∈ body, stmt.Fits n)
    (hf : pre → frame.this.Fits n) :
    Holds n pre (self.execBlock body frame) fun _ => True :=
  (holds_openBlock frame).bind fun _ =>
    h.execStatements (fun p => hbody p.1) fun p => p.2 ▸ hf p.1

end Lists

/-! ## Calls -/

section Least

variable (h : self.Keeps n) (hn : 64 ≤ n)

include h hn

theorem callScript {code : Source.Function} (hcode : pre → code.Fits n) (closure : ScopeId)
    (this : Value) (hthis : pre → this.Fits n) {args : List Value}
    (hargs : pre → ∀ v ∈ args, v.Fits n) :
    Holds n pre (self.callScript code closure this args) (Value.Fits n) := by
  have hbody : pre → ∀ stmt ∈ code.body, stmt.Fits n := fun p =>
    match code, hcode p with
    | _, .mk hbody => hbody
  have hrest {pre' : Prop} (hpre : pre' → pre) (scope : ScopeId) (this : Value) :
      Holds n (pre' ∧ this.Fits n) (do
        let ending ← attempt (inCall (self.execStatements code.body ⟨scope, this⟩))
        functionResult ending) (Value.Fits n) := by
    have hexec : Holds n (pre' ∧ this.Fits n) (self.execStatements code.body ⟨scope, this⟩)
        fun _ => True := h.execStatements (fun p => hbody (hpre p.1)) And.right
    exact hexec.inCall.attempt.bind fun ending => holds_functionResult And.right
  refine (Holds.checkCallDepth hn).bind fun _ => Holds.safePoint.bind fun _ => ?_
  refine (Holds.onScopes fun _ _ hs => hs.openChild .function closure).bind fun scope => ?_
  refine (holds_bindParams scope code.params fun p => hargs p.1.1.1).bind fun _ => ?_
  dsimp only
  split
  · exact Holds.globalThis.bind (hrest (fun p => p.1.1.1.1) scope)
  · exact (Holds.pure fun p => hthis p.1.1.1.1).bind (hrest (fun p => p.1.1.1.1) scope)

theorem call (function this : Value) (hthis : pre → this.Fits n) {args : List Value}
    (hargs : pre → ∀ v ∈ args, v.Fits n) (name : String) :
    Holds n pre (self.call function this args name) (Value.Fits n) := by
  refine Holds.heap.bind fun heap => ?_
  split
  · exact (Holds.record _ _ _).bind fun _ => holds_callNative hn _ _
  · next hkind =>
    obtain ⟨id, -, hkind⟩ := Option.map_eq_some_iff.1 hkind
    refine h.callScript hn (fun p => ?_) _ this (fun p => hthis p.1) fun p => hargs p.1
    exact (p.2.object id).code _ _ hkind
  · exact .complain hn _

theorem evalCall {callee : Expr} (hcallee : pre → callee.Fits n) {args : List Expr}
    (hargs : pre → ∀ e ∈ args, e.Fits n) (hf : pre → frame.this.Fits n) :
    Holds n pre (self.evalCall callee args frame) (Value.Fits n) := by
  have hother {pre' : Prop} {callee : Expr} (hpre : pre' → pre) (hcallee : pre' → callee.Fits n)
      (name : String) : Holds n pre' (do
        let function ← self.eval callee frame
        let args ← self.evalArgs frame #[] args
        self.call function .undefined args name) (Value.Fits n) := by
    refine (h.eval hcallee fun p => hf (hpre p)).bind fun function => ?_
    refine (h.evalArguments (fun p => hf (hpre p.1)) fun p => hargs (hpre p.1)).bind fun args => ?_
    exact h.call hn function .undefined (fun _ => trivial) And.right name
  cases callee with
  | member object property =>
      have hobject : pre → object.Fits n := fun p => match hcallee p with | .member ho => ho
      refine (h.eval hobject hf).bind fun target => Holds.heap.bind fun heap => ?_
      split
      · refine (h.evalArguments (fun p => hf p.1.1) fun p => hargs p.1.1).bind fun args => ?_
        exact holds_callArrayMethod hn _ _ And.right
      · refine (holds_getProperty hn target property).bind fun function => ?_
        refine (h.evalArguments (fun p => hf p.1.1.1) fun p => hargs p.1.1.1).bind fun args => ?_
        exact h.call hn function target (fun p => p.1.1.1.2) And.right property
  | index object key =>
      have hparts : pre → object.Fits n ∧ key.Fits n :=
        fun p => match hcallee p with | .index ho hk => ⟨ho, hk⟩
      refine (h.eval (fun p => (hparts p).1) hf).bind fun target => ?_
      refine (h.evalKey (fun p => (hparts p.1).2) fun p => hf p.1).bind fun key => ?_
      refine (holds_getProperty hn target key).bind fun function => ?_
      refine (h.evalArguments (fun p => hf p.1.1.1) fun p => hargs p.1.1.1).bind fun args => ?_
      exact h.call hn function target (fun p => p.1.1.1.2) And.right key
  | name name =>
      refine (holds_lookup hn name frame).bind fun function => ?_
      refine (h.evalArguments (fun p => hf p.1) fun p => hargs p.1).bind fun args => ?_
      exact h.call hn function .undefined (fun _ => trivial) And.right name
  | _ => exact hother id hcallee "expression"

theorem evalConstruct {callee : Expr} (hcallee : pre → callee.Fits n) {args : List Expr}
    (hargs : pre → ∀ e ∈ args, e.Fits n) (hf : pre → frame.this.Fits n) :
    Holds n pre (self.evalConstruct callee args frame) (Value.Fits n) := by
  refine (h.eval hcallee hf).bind fun constructor => ?_
  refine (h.evalArguments (fun p => hf p.1) fun p => hargs p.1).bind fun args => ?_
  refine Holds.heap.bind fun heap => ?_
  split
  · exact holds_callNative hn _ _
  · next hkind =>
    obtain ⟨id, -, hkind⟩ := Option.map_eq_some_iff.1 hkind
    have hplain : HeapObject.Fits n ⟨.ordinary, []⟩ :=
      HeapObject.fits_ordinary (List.forall_mem_nil _)
    refine (Holds.onHeap fun _ => .allocate hplain).bind fun made => ?_
    refine (h.callScript hn (fun p => ?_) _ (.object made) (fun _ => trivial)
      fun p => p.1.1.2).bind fun result => .pure fun p => ?_
    · exact (p.1.2.object id).code _ _ hkind
    · unfold instanceOr
      split
      · exact p.2
      · exact trivial
  · exact .complain hn _

/-! ## Expressions -/

theorem assign {target : Expr} (htarget : pre → target.Fits n) (v : Value) (hv : pre → v.Fits n)
    (hf : pre → frame.this.Fits n) :
    Holds n pre (self.assign target v frame) fun _ => True := by
  cases target with
  | name name => exact holds_assignName hn name hv frame
  | member object property =>
      have hobject : pre → object.Fits n := fun p => match htarget p with | .member ho => ho
      refine (h.eval hobject hf).bind fun object => ?_
      exact holds_setProperty hn object property fun p => hv p.1
  | index object key =>
      have hparts : pre → object.Fits n ∧ key.Fits n :=
        fun p => match htarget p with | .index ho hk => ⟨ho, hk⟩
      refine (h.eval (fun p => (hparts p).1) hf).bind fun object => ?_
      refine (h.evalKey (fun p => (hparts p.1).2) fun p => hf p.1).bind fun key => ?_
      exact holds_setProperty hn object key fun p => hv p.1.1
  | _ => exact .complain hn _

theorem evalUnary (op : Source.UnaryOp) {operand : Expr} (hoperand : pre → operand.Fits n)
    (hf : pre → frame.this.Fits n) :
    Holds n pre (self.evalUnary op operand frame) (Value.Fits n) := by
  unfold Evaluator.evalUnary
  split
  · refine (holds_resolve? _ frame).bind fun value => Holds.heap.bind fun heap => ?_
    exact .pure fun _ => heap.fits_typeOf hn _
  · refine (h.eval hoperand hf).bind fun value => Holds.heap.bind fun heap => ?_
    cases op with
    | typeOf => exact .pure fun _ => heap.fits_typeOf hn _
    | _ => exact .pure fun _ => trivial

theorem evalAssign (op : Option Source.BinaryOp) {target value : Expr}
    (htarget : pre → target.Fits n) (hvalue : pre → value.Fits n)
    (hf : pre → frame.this.Fits n) :
    Holds n pre (self.evalAssign op target value frame) (Value.Fits n) := by
  have hstore {pre' : Prop} (hpre : pre' → pre) (result : Value) :
      Holds n (pre' ∧ result.Fits n) (do
        self.assign target result frame
        pure result) (Value.Fits n) :=
    (h.assign hn (fun p => htarget (hpre p.1)) result And.right fun p => hf (hpre p.1)).bind
      fun _ => .pure fun p => p.1.2
  cases op with
  | none => exact (h.eval hvalue hf).bind (hstore id)
  | some op =>
      refine (h.eval htarget hf).bind fun current => ?_
      refine (h.eval (fun p => hvalue p.1) fun p => hf p.1).bind fun operand => ?_
      exact (holds_binary hn op current operand).bind (hstore fun p => p.1.1)

theorem evalUpdate (increment before : Bool) {target : Expr} (htarget : pre → target.Fits n)
    (hf : pre → frame.this.Fits n) :
    Holds n pre (self.evalUpdate increment before target frame) (Value.Fits n) := by
  refine (h.eval htarget hf).bind fun current => Holds.heap.bind fun heap => ?_
  have hnew (x : Float) : Holds n ((pre ∧ current.Fits n) ∧ heap.Fits n)
      (self.assign target (.number x) frame) fun _ => True :=
    h.assign hn (fun p => htarget p.1.1) (.number x) (fun _ => trivial) fun p => hf p.1.1
  exact (hnew _).bind fun _ => .pure fun _ => trivial

theorem evalIndex {object key : Expr} (hobject : pre → object.Fits n) (hkey : pre → key.Fits n)
    (hf : pre → frame.this.Fits n) :
    Holds n pre (self.evalIndex object key frame) (Value.Fits n) := by
  refine (h.eval hobject hf).bind fun target => ?_
  refine (h.eval (fun p => hkey p.1) fun p => hf p.1).bind fun key => ?_
  refine Holds.heap.bind fun heap => ?_
  split
  · next helement =>
    obtain ⟨id, -, helement⟩ := Option.bind_eq_some_iff.1 helement
    exact .pure fun p => p.2.element? helement
  · exact holds_getProperty hn _ _

theorem evalExpr {e : Expr} (he : pre → e.Fits n) (hf : pre → frame.this.Fits n) :
    Holds n pre (self.evalExpr e frame) (Value.Fits n) := by
  cases e with
  | string s => exact .pure fun p => match he p with | .string hs => hs
  | this => exact .pure hf
  | name x => exact holds_lookup hn x frame
  | array items =>
      have hitems : pre → ∀ e ∈ items, e.Fits n := fun p => match he p with | .array hitems => hitems
      refine (h.evalArguments hf hitems).bind fun values => ?_
      exact (Holds.onHeap fun p => .allocate (HeapObject.fits_array p.2)).map fun _ _ _ => trivial
  | object entries =>
      have hentries : pre → ∀ entry ∈ entries, entry.2.Fits n :=
        fun p => match he p with | .object hentries => hentries
      refine (h.evalEntries hf (fun _ => List.forall_mem_nil _) hentries).bind fun properties => ?_
      exact (Holds.onHeap fun p => .allocate (HeapObject.fits_ordinary p.2)).map
        fun _ _ _ => trivial
  | function code =>
      exact holds_makeFunction (fun p => match he p with | .function hcode => hcode) _
  | unary op operand =>
      exact h.evalUnary hn op (fun p => match he p with | .unary ho => ho) hf
  | binary op left right =>
      have hparts : pre → left.Fits n ∧ right.Fits n :=
        fun p => match he p with | .binary hl hr => ⟨hl, hr⟩
      refine (h.eval (fun p => (hparts p).1) hf).bind fun l => ?_
      refine (h.eval (fun p => (hparts p.1).2) fun p => hf p.1).bind fun r => ?_
      exact holds_binary hn op l r
  | logical op left right =>
      have hparts : pre → left.Fits n ∧ right.Fits n :=
        fun p => match he p with | .logical hl hr => ⟨hl, hr⟩
      refine (h.eval (fun p => (hparts p).1) hf).bind fun l => ?_
      split
      · exact h.eval (fun p => (hparts p.1).2) fun p => hf p.1
      · exact h.eval (fun p => (hparts p.1).2) fun p => hf p.1
      · exact .pure And.right
  | conditional test consequent alternate =>
      have hparts : pre → test.Fits n ∧ consequent.Fits n ∧ alternate.Fits n :=
        fun p => match he p with | .conditional ht hc ha => ⟨ht, hc, ha⟩
      refine (h.eval (fun p => (hparts p).1) hf).bind fun test => ?_
      split
      · exact h.eval (fun p => (hparts p.1).2.1) fun p => hf p.1
      · exact h.eval (fun p => (hparts p.1).2.2) fun p => hf p.1
  | assign op target value =>
      have hparts : pre → target.Fits n ∧ value.Fits n :=
        fun p => match he p with | .assign ht hv => ⟨ht, hv⟩
      exact h.evalAssign hn op (fun p => (hparts p).1) (fun p => (hparts p).2) hf
  | update increment before target =>
      exact h.evalUpdate hn increment before (fun p => match he p with | .update ht => ht) hf
  | member object property =>
      refine (h.eval (fun p => match he p with | .member ho => ho) hf).bind fun object => ?_
      exact holds_getProperty hn object property
  | index object key =>
      have hparts : pre → object.Fits n ∧ key.Fits n :=
        fun p => match he p with | .index ho hk => ⟨ho, hk⟩
      exact h.evalIndex hn (fun p => (hparts p).1) (fun p => (hparts p).2) hf
  | call callee args =>
      have hparts : pre → callee.Fits n ∧ ∀ e ∈ args, e.Fits n :=
        fun p => match he p with | .call hc hargs => ⟨hc, hargs⟩
      exact h.evalCall hn (fun p => (hparts p).1) (fun p => (hparts p).2) hf
  | construct callee args =>
      have hparts : pre → callee.Fits n ∧ ∀ e ∈ args, e.Fits n :=
        fun p => match he p with | .construct hc hargs => ⟨hc, hargs⟩
      exact h.evalConstruct hn (fun p => (hparts p).1) (fun p => (hparts p).2) hf
  | _ => exact .pure fun _ => trivial

end Least

/-! ## Statements -/

section Loops

variable (h : self.Keeps n)

include h

theorem loopBody {body : Stmt} (hbody : pre → body.Fits n) (hf : pre → frame.this.Fits n) :
    Holds n pre (self.loopBody body frame) fun _ => True := by
  refine (h.exec hbody hf).attempt.bind fun ending => ?_
  split
  · exact .pure fun _ => trivial
  · exact .pure fun _ => trivial
  · exact .pure fun _ => trivial
  · exact .error And.right

theorem whileRound {test : Expr} {body : Stmt} (htest : pre → test.Fits n)
    (hbody : pre → body.Fits n) (hf : pre → frame.this.Fits n) :
    Holds n pre (self.whileRound test body frame) fun _ => True := by
  refine (h.eval htest hf).bind fun test => ?_
  split
  · exact h.loopBody (fun p => hbody p.1) fun p => hf p.1
  · exact .pure fun _ => trivial

theorem doRound {body : Stmt} {test : Expr} (hbody : pre → body.Fits n)
    (htest : pre → test.Fits n) (hf : pre → frame.this.Fits n) :
    Holds n pre (self.doRound body test frame) fun _ => True := by
  refine (h.loopBody hbody hf).bind fun goesOn => ?_
  split
  · exact (h.eval (fun p => htest p.1) fun p => hf p.1).bind fun _ => .pure fun _ => trivial
  · exact .pure fun _ => trivial

theorem forUpdate {update : Option Expr} {body : Stmt} (hupdate : pre → ∀ e ∈ update, e.Fits n)
    (hbody : pre → body.Fits n) (hf : pre → frame.this.Fits n) (goesOn : Bool) :
    Holds n pre (if goesOn then do
      if ← self.loopBody body frame then do
        match update with
        | some update => do
            let _ ← self.eval update frame
            pure true
        | none => pure true
      else pure false
    else pure false) fun _ => True := by
  split
  · refine (h.loopBody hbody hf).bind fun goesOn => ?_
    split
    · cases update with
      | none => exact .pure fun _ => trivial
      | some update =>
          exact (h.eval (fun p => hupdate p.1 update rfl) fun p => hf p.1).bind
            fun _ => .pure fun _ => trivial
    · exact .pure fun _ => trivial
  · exact .pure fun _ => trivial

theorem forRound {test update : Option Expr} {body : Stmt} (htest : pre → ∀ e ∈ test, e.Fits n)
    (hupdate : pre → ∀ e ∈ update, e.Fits n) (hbody : pre → body.Fits n)
    (hf : pre → frame.this.Fits n) :
    Holds n pre (self.forRound test update body frame) fun _ => True := by
  have hround := h.forUpdate (fun p : pre ∧ True => hupdate p.1) (fun p => hbody p.1)
    fun p => hf p.1
  cases test with
  | none => exact (Holds.pure fun _ => trivial).bind hround
  | some test => exact ((h.eval (fun p => htest p test rfl) hf).map fun _ _ _ => trivial).bind hround

theorem execFor {init : Option Stmt} {test update : Option Expr} {body : Stmt}
    (hinit : pre → ∀ stmt ∈ init, stmt.Fits n) (htest : pre → ∀ e ∈ test, e.Fits n)
    (hupdate : pre → ∀ e ∈ update, e.Fits n) (hbody : pre → body.Fits n)
    (hf : pre → frame.this.Fits n) :
    Holds n pre (self.execFor init test update body frame) fun _ => True := by
  refine (holds_openBlock frame).bind fun inner => ?_
  have hloop {pre' : Prop} (hpre : pre' → pre ∧ inner.this = frame.this) :
      Holds n pre' (repeatWhile (self.forRound test update body inner)) fun _ => True :=
    (h.forRound (fun p => htest (hpre p).1) (fun p => hupdate (hpre p).1)
      (fun p => hbody (hpre p).1) fun p => (hpre p).2 ▸ hf (hpre p).1).repeatWhile
  cases init with
  | none => exact Holds.skip.bind fun _ => hloop And.left
  | some init =>
      exact (h.exec (fun p => hinit p.1 init rfl) fun p => p.2 ▸ hf p.1).aside.bind
        fun _ => hloop And.left

theorem execHandler (param : Option String) {exception : Value}
    (hexception : pre → exception.Fits n) {handler : List Stmt}
    (hhandler : pre → ∀ stmt ∈ handler, stmt.Fits n) (hf : pre → frame.this.Fits n) :
    Holds n pre (self.execHandler param exception handler frame) fun _ => True := by
  refine (holds_openBlock frame).bind fun inner => ?_
  have hrun {pre' : Prop} (hpre : pre' → pre ∧ inner.this = frame.this) :
      Holds n pre' (self.execStatements handler inner) fun _ => True :=
    h.execStatements (fun p => hhandler (hpre p).1) fun p => (hpre p).2 ▸ hf (hpre p).1
  cases param with
  | none => exact Holds.skip.bind fun _ => hrun And.left
  | some param =>
      exact (holds_bind inner.scope param fun p => hexception p.1).bind fun _ => hrun And.left

theorem execGuarded {block : List Stmt} (hblock : pre → ∀ stmt ∈ block, stmt.Fits n)
    (param : Option String) {handler : Option (List Stmt)}
    (hhandler : pre → ∀ body ∈ handler, ∀ stmt ∈ body, stmt.Fits n)
    (hf : pre → frame.this.Fits n) :
    Holds n pre (self.execGuarded block param handler frame) (Ending n fun _ => True) := by
  refine (h.execBlock hblock hf).attempt.bind fun ending => ?_
  split
  · exact (h.execHandler param And.right (fun p => hhandler p.1 _ rfl) fun p => hf p.1).attempt
  · exact .pure And.right

omit h in
theorem ended {ending : Except Abrupt Unit} : (pre → Ending n (fun _ => True) ending) →
    Holds n pre (match ending with
      | .ok () => pure ()
      | .error abrupt => throw abrupt : Run Unit) fun _ => True := by
  intro he
  cases ending with
  | ok => exact .skip
  | error e => exact .error he

theorem execAttempt {block : List Stmt} (hblock : pre → ∀ stmt ∈ block, stmt.Fits n)
    (param : Option String) {handler finalizer : Option (List Stmt)}
    (hhandler : pre → ∀ body ∈ handler, ∀ stmt ∈ body, stmt.Fits n)
    (hfinalizer : pre → ∀ body ∈ finalizer, ∀ stmt ∈ body, stmt.Fits n)
    (hf : pre → frame.this.Fits n) :
    Holds n pre (self.execAttempt block param handler finalizer frame) fun _ => True := by
  refine (h.execGuarded hblock param hhandler hf).bind fun ending => ?_
  have hend (_ : Unit) := ended fun p : (pre ∧ Ending n (fun _ => True) ending) ∧ True => p.1.2
  cases finalizer with
  | none => exact Holds.skip.bind hend
  | some finalizer =>
      dsimp only
      split
      · exact Holds.skip.bind hend
      · exact (h.execBlock (fun p => hfinalizer p.1 finalizer rfl) fun p => hf p.1).aside.bind hend

end Loops

section Levels

variable (hn : 64 ≤ n)

include hn

theorem execDeclarations (h : self.Keeps n) (binder : Source.Binder)
    {declarations : List (String × Option Expr)}
    (hdeclarations : pre → ∀ d ∈ declarations, ∀ e ∈ d.2, e.Fits n)
    (hf : pre → frame.this.Fits n) :
    Holds n pre (self.execDeclarations frame binder declarations) fun _ => True := by
  induction declarations generalizing pre with
  | nil => exact .skip
  | cons first rest ih =>
      obtain ⟨name, init⟩ := first
      have hinit : pre → ∀ e ∈ init, e.Fits n :=
        fun p => (List.forall_mem_cons.1 (hdeclarations p)).1
      have hrest (value : Option Value) : Holds n (pre ∧ ∀ v ∈ value, v.Fits n) (do
          declare frame binder name value
          self.execDeclarations frame binder rest) fun _ => True :=
        (holds_declare hn frame binder name And.right).bind fun _ =>
          ih (fun p => (List.forall_mem_cons.1 (hdeclarations p.1.1)).2) fun p => hf p.1.1
      cases init with
      | none => exact (Holds.pure fun _ => nofun).bind hrest
      | some e =>
          refine Holds.bind ((h.eval (fun p => hinit p e rfl) hf).map fun v _ hv => ?_) hrest
          exact fun _ heq => Option.some.inj heq ▸ hv

theorem execKind (h : self.Keeps n) {kind : Source.StmtKind} (hkind : pre → kind.Fits n)
    (hf : pre → frame.this.Fits n) : Holds n pre (self.execKind kind frame) fun _ => True := by
  cases kind with
  | expression e =>
      refine (h.eval (fun p => match hkind p with | .expression he => he) hf).bind fun value => ?_
      exact .setCompletion And.right
  | declare binder declarations =>
      exact h.execDeclarations hn binder (fun p => match hkind p with | .declare hd => hd) hf
  | function | empty => exact .skip
  | block body => exact h.execBlock (fun p => match hkind p with | .block hbody => hbody) hf
  | branch test consequent alternate =>
      have hparts : pre → test.Fits n ∧ consequent.Fits n ∧ ∀ stmt ∈ alternate, stmt.Fits n :=
        fun p => match hkind p with | .branch ht hc ha => ⟨ht, hc, ha⟩
      refine (h.eval (fun p => (hparts p).1) hf).bind fun test => ?_
      split
      · exact h.exec (fun p => (hparts p.1).2.1) fun p => hf p.1
      · cases alternate with
        | none => exact .skip
        | some alternate => exact h.exec (fun p => (hparts p.1).2.2 _ rfl) fun p => hf p.1
  | whileLoop test body =>
      have hparts : pre → test.Fits n ∧ body.Fits n :=
        fun p => match hkind p with | .whileLoop ht hb => ⟨ht, hb⟩
      exact (h.whileRound (fun p => (hparts p).1) (fun p => (hparts p).2) hf).repeatWhile
  | doLoop body test =>
      have hparts : pre → body.Fits n ∧ test.Fits n :=
        fun p => match hkind p with | .doLoop hb ht => ⟨hb, ht⟩
      exact (h.doRound (fun p => (hparts p).1) (fun p => (hparts p).2) hf).repeatWhile
  | forLoop init test update body =>
      have hparts : pre → (∀ stmt ∈ init, stmt.Fits n) ∧ (∀ e ∈ test, e.Fits n) ∧
          (∀ e ∈ update, e.Fits n) ∧ body.Fits n :=
        fun p => match hkind p with | .forLoop hi ht hu hb => ⟨hi, ht, hu, hb⟩
      exact h.execFor (fun p => (hparts p).1) (fun p => (hparts p).2.1)
        (fun p => (hparts p).2.2.1) (fun p => (hparts p).2.2.2) hf
  | breakOff | continueOn => exact .error fun _ => trivial
  | returnWith value =>
      cases value with
      | none => exact .error fun _ => trivial
      | some e =>
          have he : pre → e.Fits n := fun p => match hkind p with | .returnWith he => he e rfl
          exact (h.eval he hf).bind fun value => .error And.right
  | throwing e =>
      refine (h.eval (fun p => match hkind p with | .throwing he => he) hf).bind fun value => ?_
      exact .raise And.right
  | attempt block param handler finalizer =>
      have hparts : pre → (∀ stmt ∈ block, stmt.Fits n) ∧
          (∀ body ∈ handler, ∀ stmt ∈ body, stmt.Fits n) ∧
          ∀ body ∈ finalizer, ∀ stmt ∈ body, stmt.Fits n :=
        fun p => match hkind p with | .attempt hb hh hf => ⟨hb, hh, hf⟩
      exact h.execAttempt (fun p => (hparts p).1) param (fun p => (hparts p).2.1)
        (fun p => (hparts p).2.2) hf

theorem execStmt (h : self.Keeps n) {stmt : Stmt} (hstmt : pre → stmt.Fits n)
    (hf : pre → frame.this.Fits n) : Holds n pre (self.execStmt stmt frame) fun _ => True := by
  obtain ⟨line, kind⟩ := stmt
  refine (Holds.setLine line).bind fun _ => Holds.safePoint.bind fun _ => ?_
  exact h.execKind hn (fun p => match hstmt p.1.1 with | .mk hkind => hkind) fun p => hf p.1.1

theorem ofDepth (depth : Nat) : (Evaluator.ofDepth depth).Keeps n := by
  induction depth with
  | zero => exact ⟨fun _ _ => .complain hn .stackOverflow, fun _ _ => .complain hn .stackOverflow⟩
  | succ depth ih =>
      exact ⟨fun he hf => (ih.evalExpr hn he hf).nested hn,
        fun hstmt hf => (ih.execStmt hn hstmt hf).nested hn⟩

end Levels

end Keeps

end Evaluator

/-! ## Whole runs -/

/-- The literals of a program, or what is delivered, keep to the limit. -/
def Task.Fits (n : Nat) : Task → Prop
  | .program body => ∀ stmt ∈ body, stmt.Fits n
  | .message _ data => ∀ json ∈ data, json.Fits n
  | .connect _ _ => True

def Completion.Fits (n : Nat) : Completion → Prop
  | .normal value => value.Fits n
  | .returned value => value.Fits n
  | .thrown value _ => value.Fits n
  | _ => True

namespace Run

theorem holds_program (hn : 64 ≤ n) {body : Source.Program}
    (hbody : pre → ∀ stmt ∈ body, stmt.Fits n) :
    Holds n pre (program body) (Value.Fits n) := by
  refine Holds.setting.bind fun s => ?_
  have hexec : Holds n (pre ∧ True)
      (Evaluator.full.execStatements body ⟨s.globalScope, .object s.globalObject⟩) fun _ => True :=
    (Evaluator.Keeps.ofDepth hn nestingLimit).execStatements (fun p => hbody p.1) fun _ => trivial
  exact hexec.bind fun _ => .completion

theorem holds_dispatch (hn : 64 ≤ n) (handler : String) {event : Heap.Step Value}
    (hevent : pre → Heap.Keeps n (Value.Fits n) event) :
    Holds n pre (dispatch handler event) (Value.Fits n) := by
  refine Holds.safePoint.bind fun _ => Holds.setting.bind fun s => Holds.heap.bind fun heap => ?_
  dsimp only
  split
  · refine (Holds.onHeap fun p => hevent p.1.1.1).bind fun event => ?_
    exact (Evaluator.Keeps.ofDepth hn nestingLimit).call hn _ (.object s.globalObject)
      (fun _ => trivial) (fun p => List.forall_mem_singleton.2 p.2) handler
  · exact .pure fun _ => trivial

theorem holds_task (hn : 64 ≤ n) (task : Task) :
    Holds n (task.Fits n) task.run (Value.Fits n) := by
  cases task with
  | program body => exact holds_program hn id
  | message handler data => exact holds_dispatch hn handler Heap.keeps_messageEvent
  | connect handler port => exact holds_dispatch hn handler fun _ => Heap.keeps_connectEvent port

end Run

end ScriptHost
