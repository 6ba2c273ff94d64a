import ScriptHost.Run.Program

/-!
The rules of expressions and statements put computations together from a few steps. What steps and
sequences of them have in common, all rules have in common.
-/

namespace ScriptHost

open Source (Expr Stmt StmtKind)

variable {α β : Type}

/--
The steps that scripts take on the heap. An object is made with the properties of a literal or of a
document that was read, or with none.
-/
inductive Heap.Scripted : {α : Type} → Heap.Step α → Prop
  | allocateError (kind : ErrorKind) (message : String) : Scripted (allocateError kind message)
  | function (code : Source.Function) (closure : ScopeId) :
      Scripted (allocate ⟨.function code closure, []⟩)
  | array (values : Array Value) : Scripted (allocate ⟨.array values, []⟩)
  | ordinary {properties : Table Value} :
      properties.keys.Nodup → Scripted (allocate ⟨.ordinary, properties⟩)
  | setProperty (id : ObjectId) (key : String) (value : Value) : Scripted (setProperty id key value)
  | writeProperty (id : ObjectId) (key : String) (value : Value) :
      Scripted (writeProperty id key value)
  | pushElements (id : ObjectId) (values : List Value) : Scripted (pushElements id values)
  | popElement (id : ObjectId) : Scripted (popElement id)
  | fromJson {bytes : List UInt8} {json : Json} :
      Json.ofBytes bytes = .ok json → Scripted (fromJson json)

namespace Run

/--
A relation between computations that are made up alike. Scopes are changed by expressions only where
a name is assigned to or a function of a script is called.
-/
structure Alike (Q : (α : Type) → Run α → Run α → Prop) : Prop where
  pure : ∀ {α : Type} (a : α), Q α (pure a) (pure a)
  bind : ∀ {α β : Type} {x y : Run α} {f g : α → Run β},
    Q α x y → (∀ a, Q β (f a) (g a)) → Q β (x >>= f) (y >>= g)
  heap : Q Heap heap heap
  scopes : Q Scopes scopes scopes
  setting : Q Setting setting setting
  onHeap : ∀ {α : Type} (step : Heap.Step α), Heap.Scripted step → Q α (onHeap step) (onHeap step)
  onHost : ∀ f, Q Unit (onHost f) (onHost f)
  unchecked : ∀ json, Q Unit (unchecked json) (unchecked json)
  raise : ∀ {α : Type} (value : Value), Q α (raise value) (raise value)
  record : ∀ function native args,
    Q Unit (record function native args) (record function native args)
  assignName : ∀ name value frame,
    Q Unit (assignName name value frame) (assignName name value frame)

namespace Alike

variable {Q : (α : Type) → Run α → Run α → Prop} (h : Alike Q)

include h

theorem map (f : α → β) {x y : Run α} (hx : Q α x y) : Q β (f <$> x) (f <$> y) := by
  rw [map_eq_pure_bind, map_eq_pure_bind]
  exact h.bind hx fun a => h.pure (f a)

theorem complain (complaint : Complaint) : Q α (complain complaint) (complain complaint) :=
  h.bind (h.unchecked _) fun _ => h.bind (h.onHeap _ (.allocateError _ _)) h.raise

theorem string (text : String) : Q Value (string text) (string text) := by
  refine h.bind h.heap fun heap => ?_
  split
  · exact h.complain _
  · exact h.pure _

/-! ## Operators and built-ins -/

theorem add (left right : Value) : Q Value (add left right) (add left right) := by
  refine h.bind h.heap fun heap => ?_
  dsimp only
  split
  · split
    · exact h.complain _
    · exact h.pure _
  · exact h.pure _

theorem binary (op : Source.BinaryOp) (left right : Value) :
    Q Value (binary op left right) (binary op left right) := by
  refine h.bind h.heap fun heap => ?_
  cases op with
  | add => exact h.add left right
  | _ => exact h.pure _

theorem getProperty (base : Value) (key : String) :
    Q Value (getProperty base key) (getProperty base key) := by
  refine h.bind h.heap fun heap => ?_
  split
  · exact h.pure _
  · exact h.complain _

theorem setProperty (base : Value) (key : String) (value : Value) :
    Q Unit (setProperty base key value) (setProperty base key value) := by
  cases base with
  | object id =>
    refine h.bind (h.onHeap _ (.writeProperty id key value)) fun done => ?_
    split
    · exact h.pure _
    · exact h.complain _
  | undefined | null => exact h.bind h.heap fun heap => h.complain _
  | bool | number | string => exact h.pure _

theorem callArrayMethod (id : ObjectId) (method : ArrayMethod) (args : List Value) :
    Q Value (callArrayMethod id method args) (callArrayMethod id method args) := by
  cases method with
  | push => exact h.bind (h.onHeap _ (.pushElements id args)) fun size => h.pure _
  | pop => exact h.onHeap _ (.popElement id)
  | join => exact h.bind h.heap fun heap => h.string _

theorem cloneMessage (value : Value) : Q Json (cloneMessage value) (cloneMessage value) := by
  refine h.bind h.heap fun heap => ?_
  split
  · exact h.pure _
  · exact h.complain _

theorem callNative (function : Native) (args : List Value) :
    Q Value (callNative function args) (callNative function args) := by
  cases function with
  | console level => exact h.bind h.heap fun heap => h.bind (h.onHost _) fun _ => h.pure _
  | close => exact h.bind (h.onHost _) fun _ => h.pure _
  | postMessage => exact h.bind (h.cloneMessage _) fun _ => h.bind (h.onHost _) fun _ => h.pure _
  | portPostMessage port =>
    exact h.bind (h.cloneMessage _) fun _ => h.bind (h.onHost _) fun _ => h.pure _
  | errorConstructor kind =>
    refine h.bind h.heap fun heap => h.bind (h.unchecked _) fun _ => ?_
    exact h.onHeap _ (.allocateError kind _)
  | jsonStringify =>
    refine h.bind h.heap fun heap => ?_
    split
    · exact h.pure _
    · split
      · exact h.string _
      · exact h.complain _
  | jsonParse =>
    refine h.bind h.heap fun heap => ?_
    split
    · next hjson => exact h.bind (h.unchecked _) fun _ => h.onHeap _ (.fromJson hjson)
    · exact h.complain _

/-! ## Names -/

theorem resolve? (name : String) (frame : Frame) :
    Q (Option Value) (resolve? name frame) (resolve? name frame) := by
  refine h.bind h.scopes fun scopes => ?_
  split
  · exact h.pure _
  · exact h.bind h.setting fun s => h.bind h.heap fun heap => h.pure _

theorem lookup (name : String) (frame : Frame) :
    Q Value (lookup name frame) (lookup name frame) := by
  refine h.bind (h.resolve? name frame) fun value => ?_
  split
  · exact h.pure _
  · exact h.complain _

theorem makeFunction (code : Source.Function) (scope : ScopeId) :
    Q Value (makeFunction code scope) (makeFunction code scope) :=
  h.bind (h.onHeap _ (.function code scope)) fun _ => h.pure _

end Alike

end Run

namespace Evaluator

open Run

/-- Two evaluators whose expressions and calls are alike. -/
structure Alike (Q : (α : Type) → Run α → Run α → Prop) (one other : Evaluator) : Prop where
  steps : Run.Alike Q
  eval : ∀ e frame, Q Value (one.eval e frame) (other.eval e frame)
  callScript : ∀ code closure this args, Q Value (one.callScript code closure this args)
    (other.callScript code closure this args)

namespace Alike

variable {Q : (α : Type) → Run α → Run α → Prop} {self other : Evaluator}
  (h : self.Alike Q other) (frame : Frame)

include h

theorem evalArgs (found : Array Value) (args : List Expr) :
    Q (List Value) (self.evalArgs frame found args) (other.evalArgs frame found args) := by
  induction args generalizing found with
  | nil => exact h.steps.pure _
  | cons e rest ih => exact h.steps.bind (h.eval e frame) fun value => ih _

/-- What comes after the entries may rely on their names being distinct. -/
theorem bindEntries {found : Table Value} (hfound : found.keys.Nodup)
    (entries : List (String × Expr)) {f g : Table Value → Run β}
    (hf : ∀ properties : Table Value, properties.keys.Nodup → Q β (f properties) (g properties)) :
    Q β (self.evalEntries frame found entries >>= f)
      (other.evalEntries frame found entries >>= g) := by
  induction entries generalizing found with
  | nil => exact hf found hfound
  | cons entry rest ih =>
    simp only [Evaluator.evalEntries, bind_assoc]
    exact h.steps.bind (h.eval entry.2 frame) fun value => ih (Table.nodup_put hfound _ value)

theorem evalKey (key : Expr) : Q String (self.evalKey key frame) (other.evalKey key frame) :=
  h.steps.bind (h.eval key frame) fun _ => h.steps.bind h.steps.heap fun _ => h.steps.pure _

theorem call (function this : Value) (args : List Value) (name : String) :
    Q Value (self.call function this args name) (other.call function this args name) := by
  refine h.steps.bind h.steps.heap fun heap => ?_
  split
  · exact h.steps.bind (h.steps.record _ _ _) fun _ => h.steps.callNative _ _
  · exact h.callScript _ _ _ _
  · exact h.steps.complain _

theorem evalCall (callee : Expr) (args : List Expr) :
    Q Value (self.evalCall callee args frame) (other.evalCall callee args frame) := by
  unfold Evaluator.evalCall
  split
  · refine h.steps.bind (h.eval _ frame) fun target => h.steps.bind h.steps.heap fun heap => ?_
    split
    · exact h.steps.bind (h.evalArgs frame _ _) fun args => h.steps.callArrayMethod _ _ _
    · refine h.steps.bind (h.steps.getProperty _ _) fun function => ?_
      exact h.steps.bind (h.evalArgs frame _ _) fun args => h.call _ _ _ _
  · refine h.steps.bind (h.eval _ frame) fun target => ?_
    refine h.steps.bind (h.evalKey frame _) fun key => ?_
    refine h.steps.bind (h.steps.getProperty _ _) fun function => ?_
    exact h.steps.bind (h.evalArgs frame _ _) fun args => h.call _ _ _ _
  · refine h.steps.bind (h.steps.lookup _ frame) fun function => ?_
    exact h.steps.bind (h.evalArgs frame _ _) fun args => h.call _ _ _ _
  · refine h.steps.bind (h.eval _ frame) fun function => ?_
    exact h.steps.bind (h.evalArgs frame _ _) fun args => h.call _ _ _ _

theorem evalConstruct (callee : Expr) (args : List Expr) :
    Q Value (self.evalConstruct callee args frame) (other.evalConstruct callee args frame) := by
  refine h.steps.bind (h.eval callee frame) fun constructor => ?_
  refine h.steps.bind (h.evalArgs frame _ args) fun args => h.steps.bind h.steps.heap fun heap => ?_
  split
  · exact h.steps.callNative _ _
  · refine h.steps.bind (h.steps.onHeap _ (.ordinary List.nodup_nil)) fun made => ?_
    exact h.steps.bind (h.callScript _ _ _ _) fun result => h.steps.pure _
  · exact h.steps.complain _

theorem assign (target : Expr) (value : Value) :
    Q Unit (self.assign target value frame) (other.assign target value frame) := by
  cases target with
  | name name => exact h.steps.assignName name value frame
  | member object property =>
    exact h.steps.bind (h.eval object frame) fun base => h.steps.setProperty _ _ _
  | index object key =>
    refine h.steps.bind (h.eval object frame) fun base => ?_
    exact h.steps.bind (h.evalKey frame key) fun key => h.steps.setProperty _ _ _
  | _ => exact h.steps.complain _

theorem evalUnary (op : Source.UnaryOp) (operand : Expr) :
    Q Value (self.evalUnary op operand frame) (other.evalUnary op operand frame) := by
  unfold Evaluator.evalUnary
  split
  · refine h.steps.bind (h.steps.resolve? _ frame) fun value => ?_
    exact h.steps.bind h.steps.heap fun heap => h.steps.pure _
  · refine h.steps.bind (h.eval _ frame) fun value => h.steps.bind h.steps.heap fun heap => ?_
    split <;> exact h.steps.pure _

theorem evalAssign (op : Option Source.BinaryOp) (target value : Expr) :
    Q Value (self.evalAssign op target value frame) (other.evalAssign op target value frame) := by
  have hassigned (result : Value) :
      Q Value (do self.assign target result frame; pure result)
        (do other.assign target result frame; pure result) :=
    h.steps.bind (h.assign frame target result) fun _ => h.steps.pure _
  cases op with
  | none => exact h.steps.bind (h.eval value frame) hassigned
  | some op =>
    refine h.steps.bind (h.eval target frame) fun current => ?_
    refine h.steps.bind (h.eval value frame) fun operand => ?_
    exact h.steps.bind (h.steps.binary op current operand) hassigned

theorem evalUpdate (increment before : Bool) (target : Expr) :
    Q Value (self.evalUpdate increment before target frame)
      (other.evalUpdate increment before target frame) := by
  refine h.steps.bind (h.eval target frame) fun current => h.steps.bind h.steps.heap fun heap => ?_
  exact h.steps.bind (h.assign frame target _) fun _ => h.steps.pure _

theorem evalIndex (object key : Expr) :
    Q Value (self.evalIndex object key frame) (other.evalIndex object key frame) := by
  refine h.steps.bind (h.eval object frame) fun base => ?_
  refine h.steps.bind (h.eval key frame) fun key => h.steps.bind h.steps.heap fun heap => ?_
  split
  · exact h.steps.pure _
  · exact h.steps.getProperty _ _

theorem evalExpr (e : Expr) : Q Value (self.evalExpr e frame) (other.evalExpr e frame) := by
  cases e with
  | number | string | bool | null | undefined | this => exact h.steps.pure _
  | name x => exact h.steps.lookup x frame
  | array items =>
    refine h.steps.bind (h.evalArgs frame #[] items) fun values => ?_
    exact h.steps.map _ (h.steps.onHeap _ (.array _))
  | object entries =>
    have hnone : (Table.keys ([] : Table Value)).Nodup := List.nodup_nil
    refine h.bindEntries frame hnone entries fun properties hproperties => ?_
    exact h.steps.map _ (h.steps.onHeap _ (.ordinary hproperties))
  | function code => exact h.steps.makeFunction code frame.scope
  | unary op operand => exact h.evalUnary frame op operand
  | binary op left right =>
    refine h.steps.bind (h.eval left frame) fun left => ?_
    exact h.steps.bind (h.eval right frame) fun right => h.steps.binary op left right
  | logical op left right =>
    refine h.steps.bind (h.eval left frame) fun left => ?_
    split
    · exact h.eval right frame
    · exact h.eval right frame
    · exact h.steps.pure _
  | conditional test consequent alternate =>
    refine h.steps.bind (h.eval test frame) fun test => ?_
    split
    · exact h.eval consequent frame
    · exact h.eval alternate frame
  | assign op target value => exact h.evalAssign frame op target value
  | update increment before target => exact h.evalUpdate frame increment before target
  | member object property =>
    exact h.steps.bind (h.eval object frame) fun base => h.steps.getProperty _ _
  | index object key => exact h.evalIndex frame object key
  | call callee args => exact h.evalCall frame callee args
  | construct callee args => exact h.evalConstruct frame callee args

end Alike

end Evaluator

/-! ## Statements -/

namespace Run

/--
A relation that computations made up of statements keep to as well. Calls are left out, as the body
of a function is only run where the limit on calls allows for it.
-/
structure AlikeThroughout (Q : (α : Type) → Run α → Run α → Prop) : Prop extends Alike Q where
  error : ∀ {α : Type} (e : Abrupt), Q α (throw e) (throw e)
  attempt : ∀ {α : Type} {x y : Run α}, Q α x y → Q (Except Abrupt α) (attempt x) (attempt y)
  aside : ∀ {α : Type} {x y : Run α}, Q α x y → Q α (aside x) (aside y)
  repeatWhile : ∀ {x y : Run Bool}, Q Bool x y → Q Unit (repeatWhile x) (repeatWhile y)
  safePoint : Q Unit safePoint safePoint
  globalThis : Q Value globalThis globalThis
  setLine : ∀ line, Q Unit (setLine line) (setLine line)
  setCompletion : ∀ value, Q Unit (setCompletion value) (setCompletion value)
  openChild : ∀ kind around, Q ScopeId (onScopes fun scopes => scopes.openChild kind around)
    (onScopes fun scopes => scopes.openChild kind around)
  bindName : ∀ scope name binding,
    Q Unit (Run.bind scope name binding) (Run.bind scope name binding)

namespace AlikeThroughout

variable {Q : (α : Type) → Run α → Run α → Prop} (h : AlikeThroughout Q) (frame : Frame)

include h

theorem openBlock : Q Frame (openBlock frame) (openBlock frame) :=
  h.bind (h.openChild .block frame.scope) fun _ => h.pure _

theorem declareVariable (name : String) (value : Option Value) :
    Q Unit (declareVariable frame name value) (declareVariable frame name value) := by
  refine h.bind h.scopes fun scopes => ?_
  dsimp only
  split
  · refine h.bind h.setting fun s => h.bind h.heap fun heap => ?_
    split
    · exact h.onHeap _ (.setProperty _ name _)
    · exact h.onHeap _ (.setProperty _ name .undefined)
    · exact h.pure _
  · split
    · exact h.bindName _ _ _
    · split
      · exact h.pure _
      · exact h.bindName _ _ _

theorem declareLexical (isMutable : Bool) (name : String) (value : Value) :
    Q Unit (declareLexical frame isMutable name value)
      (declareLexical frame isMutable name value) := by
  refine h.bind h.scopes fun scopes => ?_
  split
  · exact h.complain _
  · exact h.bindName _ _ _

theorem declare (binder : Source.Binder) (name : String) (value : Option Value) :
    Q Unit (declare frame binder name value) (declare frame binder name value) := by
  cases binder with
  | «variable» => exact h.declareVariable frame name value
  | mutable => exact h.declareLexical frame true name _
  | constant => exact h.declareLexical frame false name _

theorem hoist (body : List Stmt) :
    Q Unit (Evaluator.hoist frame body) (Evaluator.hoist frame body) := by
  induction body with
  | nil => exact h.pure _
  | cons stmt rest ih =>
    obtain ⟨line, kind⟩ := stmt
    cases kind with
    | function code =>
      refine h.bind (h.makeFunction code frame.scope) fun function => ?_
      exact h.bind (h.declareVariable frame _ _) fun _ => ih
    | _ => exact ih

theorem bindParams (scope : ScopeId) (params : List String) (args : List Value) :
    Q Unit (Evaluator.bindParams scope params args) (Evaluator.bindParams scope params args) := by
  induction params generalizing args with
  | nil => exact h.pure _
  | cons param params ih => exact h.bind (h.bindName _ _ _) fun _ => ih _

theorem functionResult (ending : Except Abrupt Unit) :
    Q Value (Evaluator.functionResult ending) (Evaluator.functionResult ending) := by
  unfold Evaluator.functionResult
  split
  · exact h.pure _
  · exact h.pure _
  · exact h.error _

/-- How an attempt ended is how the computation ends. -/
theorem ended (ending : Except Abrupt Unit) :
    Q Unit (match ending with | .ok () => Pure.pure () | .error abrupt => throw abrupt)
      (match ending with | .ok () => Pure.pure () | .error abrupt => throw abrupt) := by
  split
  · exact h.pure _
  · exact h.error _

end AlikeThroughout

end Run

namespace Evaluator

open Run

/-- Two evaluators whose expressions and statements are alike. -/
structure AlikeThroughout (Q : (α : Type) → Run α → Run α → Prop) (one other : Evaluator) :
    Prop where
  steps : Run.AlikeThroughout Q
  eval : ∀ e frame, Q Value (one.eval e frame) (other.eval e frame)
  exec : ∀ stmt frame, Q Unit (one.exec stmt frame) (other.exec stmt frame)

namespace AlikeThroughout

variable {Q : (α : Type) → Run α → Run α → Prop} {self other : Evaluator}
  (h : self.AlikeThroughout Q other) (frame : Frame)

include h

theorem execEach (body : List Stmt) :
    Q Unit (self.execEach frame body) (other.execEach frame body) := by
  induction body with
  | nil => exact h.steps.pure _
  | cons stmt rest ih => exact h.steps.bind (h.exec stmt frame) fun _ => ih

theorem execStatements (body : List Stmt) :
    Q Unit (self.execStatements body frame) (other.execStatements body frame) :=
  h.steps.bind (h.steps.hoist frame body) fun _ => h.execEach frame body

theorem execBlock (body : List Stmt) :
    Q Unit (self.execBlock body frame) (other.execBlock body frame) :=
  h.steps.bind (h.steps.openBlock frame) fun inner => h.execStatements inner body

theorem callScript (hdepth : Q Unit checkCallDepth checkCallDepth) (code : Source.Function)
    (hbody : ∀ frame, Q Unit (inCall (self.execStatements code.body frame))
      (inCall (other.execStatements code.body frame)))
    (closure : ScopeId) (this : Value) (args : List Value) :
    Q Value (self.callScript code closure this args)
      (other.callScript code closure this args) := by
  refine h.steps.bind hdepth fun _ => h.steps.bind h.steps.safePoint fun _ => ?_
  refine h.steps.bind (h.steps.openChild _ _) fun scope => ?_
  refine h.steps.bind (h.steps.bindParams _ _ _) fun _ => ?_
  have hended (this : Value) : Q Value (do
      let ending ← attempt (inCall (self.execStatements code.body ⟨scope, this⟩))
      functionResult ending) (do
      let ending ← attempt (inCall (other.execStatements code.body ⟨scope, this⟩))
      functionResult ending) :=
    h.steps.bind (h.steps.attempt (hbody _)) h.steps.functionResult
  split
  · exact h.steps.bind h.steps.globalThis hended
  · exact hended this

theorem alike (hcall : ∀ code closure this args, Q Value (self.callScript code closure this args)
    (other.callScript code closure this args)) : self.Alike Q other :=
  ⟨h.steps.toAlike, h.eval, hcall⟩

theorem execDeclarations (binder : Source.Binder) (declarations : List (String × Option Expr)) :
    Q Unit (self.execDeclarations frame binder declarations)
      (other.execDeclarations frame binder declarations) := by
  induction declarations with
  | nil => exact h.steps.pure _
  | cons declaration rest ih =>
    obtain ⟨name, init⟩ := declaration
    have hdeclared (value : Option Value) : Q Unit (do
        declare frame binder name value
        self.execDeclarations frame binder rest) (do
        declare frame binder name value
        other.execDeclarations frame binder rest) :=
      h.steps.bind (h.steps.declare frame binder name value) fun _ => ih
    cases init with
    | none => exact hdeclared none
    | some e => exact h.steps.bind (h.steps.map some (h.eval e frame)) hdeclared

/-! ### Loops -/

theorem loopBody (body : Stmt) :
    Q Bool (self.loopBody body frame) (other.loopBody body frame) := by
  refine h.steps.bind (h.steps.attempt (h.exec body frame)) fun ending => ?_
  split
  · exact h.steps.pure _
  · exact h.steps.pure _
  · exact h.steps.pure _
  · exact h.steps.error _

theorem whileRound (test : Expr) (body : Stmt) :
    Q Bool (self.whileRound test body frame) (other.whileRound test body frame) := by
  refine h.steps.bind (h.eval test frame) fun test => ?_
  split
  · exact h.loopBody frame body
  · exact h.steps.pure _

theorem doRound (body : Stmt) (test : Expr) :
    Q Bool (self.doRound body test frame) (other.doRound body test frame) := by
  refine h.steps.bind (h.loopBody frame body) fun goesOn => ?_
  split
  · exact h.steps.bind (h.eval test frame) fun test => h.steps.pure _
  · exact h.steps.pure _

theorem forUpdate (update : Option Expr) (body : Stmt) (goesOn : Bool) :
    Q Bool (if goesOn then do
      if ← self.loopBody body frame then do
        match update with
        | some update => do
            let _ ← self.eval update frame
            pure true
        | none => pure true
      else pure false
    else pure false) (if goesOn then do
      if ← other.loopBody body frame then do
        match update with
        | some update => do
            let _ ← other.eval update frame
            pure true
        | none => pure true
      else pure false
    else pure false) := by
  split
  · refine h.steps.bind (h.loopBody frame body) fun goesOn => ?_
    split
    · cases update with
      | some update => exact h.steps.bind (h.eval update frame) fun _ => h.steps.pure _
      | none => exact h.steps.pure _
    · exact h.steps.pure _
  · exact h.steps.pure _

theorem forRound (test update : Option Expr) (body : Stmt) :
    Q Bool (self.forRound test update body frame) (other.forRound test update body frame) := by
  have hupdate := h.forUpdate frame update body
  cases test with
  | none => exact hupdate true
  | some test => exact h.steps.bind (h.steps.map Value.truthy (h.eval test frame)) hupdate

theorem execFor (init : Option Stmt) (test update : Option Expr) (body : Stmt) :
    Q Unit (self.execFor init test update body frame)
      (other.execFor init test update body frame) := by
  refine h.steps.bind (h.steps.openBlock frame) fun inner => ?_
  have hrounds := h.steps.repeatWhile (h.forRound inner test update body)
  cases init with
  | none => exact hrounds
  | some init => exact h.steps.bind (h.steps.aside (h.exec init inner)) fun _ => hrounds

/-! ### Exceptions -/

theorem execHandler (param : Option String) (exception : Value) (handler : List Stmt) :
    Q Unit (self.execHandler param exception handler frame)
      (other.execHandler param exception handler frame) := by
  refine h.steps.bind (h.steps.openBlock frame) fun inner => ?_
  have hstatements := h.execStatements inner handler
  cases param with
  | none => exact hstatements
  | some param => exact h.steps.bind (h.steps.bindName _ _ _) fun _ => hstatements

theorem execGuarded (block : List Stmt) (param : Option String) (handler : Option (List Stmt)) :
    Q (Except Abrupt Unit) (self.execGuarded block param handler frame)
      (other.execGuarded block param handler frame) := by
  refine h.steps.bind (h.steps.attempt (h.execBlock frame block)) fun ending => ?_
  split
  · exact h.steps.attempt (h.execHandler frame param _ _)
  · exact h.steps.pure _

theorem execAttempt (block : List Stmt) (param : Option String)
    (handler finalizer : Option (List Stmt)) :
    Q Unit (self.execAttempt block param handler finalizer frame)
      (other.execAttempt block param handler finalizer frame) := by
  refine h.steps.bind (h.execGuarded frame block param handler) fun ending => ?_
  cases finalizer with
  | none => exact h.steps.ended ending
  | some finalizer =>
    dsimp only
    split
    · exact h.steps.ended ending
    · refine h.steps.bind (h.steps.aside (h.execBlock frame finalizer)) fun _ => ?_
      exact h.steps.ended ending

theorem execKind (kind : StmtKind) :
    Q Unit (self.execKind kind frame) (other.execKind kind frame) := by
  cases kind with
  | expression e => exact h.steps.bind (h.eval e frame) fun value => h.steps.setCompletion value
  | declare binder declarations => exact h.execDeclarations frame binder declarations
  | function | empty => exact h.steps.pure _
  | block body => exact h.execBlock frame body
  | branch test consequent alternate =>
    refine h.steps.bind (h.eval test frame) fun test => ?_
    split
    · exact h.exec consequent frame
    · cases alternate with
      | none => exact h.steps.pure _
      | some alternate => exact h.exec alternate frame
  | whileLoop test body => exact h.steps.repeatWhile (h.whileRound frame test body)
  | doLoop body test => exact h.steps.repeatWhile (h.doRound frame body test)
  | forLoop init test update body => exact h.execFor frame init test update body
  | breakOff | continueOn => exact h.steps.error _
  | returnWith value =>
    cases value with
    | none => exact h.steps.error _
    | some e => exact h.steps.bind (h.eval e frame) fun value => h.steps.error _
  | throwing e => exact h.steps.bind (h.eval e frame) fun value => h.steps.raise value
  | attempt block param handler finalizer =>
    exact h.execAttempt frame block param handler finalizer

end AlikeThroughout

end Evaluator

end ScriptHost
