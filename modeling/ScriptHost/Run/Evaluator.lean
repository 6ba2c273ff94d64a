import ScriptHost.Run.Builtin
import ScriptHost.Run.Operator

/-!
The evaluation of expressions and statements. Each rule takes the evaluator for the next nesting
level, so each is an ordinary function.
-/

namespace ScriptHost

open Source (Expr Stmt StmtKind)

/-- The scope that names are looked up in, and what `this` means. -/
structure Frame where
  scope : ScopeId
  this : Value
  deriving DecidableEq, Repr

structure Evaluator where
  eval : Expr → Frame → Run Value
  exec : Stmt → Frame → Run Unit

namespace Run

def openBlock (frame : Frame) : Run Frame := do
  let scope ← onScopes fun scopes => scopes.openChild .block frame.scope
  pure { frame with scope := scope }

def bind (scope : ScopeId) (name : String) (binding : Binding) : Run Unit :=
  onScopes fun scopes => ((), scopes.bind scope name binding)

/-! ## Names -/

def resolve? (name : String) (frame : Frame) : Run (Option Value) := do
  match (← scopes).lookup? name frame.scope with
  | some value => pure (some value)
  | none => do
      let s ← setting
      pure (((← heap).object s.globalObject).get? name)

def lookup (name : String) (frame : Frame) : Run Value := do
  match ← resolve? name frame with
  | some value => pure value
  | none => complain (.undeclared name)

/-- A name that is declared nowhere becomes a property of the global object. -/
def assignName (name : String) (value : Value) (frame : Frame) : Run Unit := do
  match (← scopes).binding? name frame.scope with
  | some (scope, binding) =>
      if binding.isMutable then bind scope name ⟨value, true⟩
      else complain .constantAssignment
  | none => do
      let s ← setting
      onHeap (Heap.setProperty s.globalObject name value)

/-- A variable without a value keeps the one it has. -/
def declareVariable (frame : Frame) (name : String) (value : Option Value) : Run Unit := do
  let scopes ← scopes
  let scope := scopes.variableScope frame.scope
  if scopes.kind? scope = some .global then do
    let s ← setting
    let declared := ((← heap).object s.globalObject).get? name
    match value, declared with
    | some value, _ => onHeap (Heap.setProperty s.globalObject name value)
    | none, none => onHeap (Heap.setProperty s.globalObject name .undefined)
    | none, some _ => pure ()
  else
    match value with
    | some value => bind scope name ⟨value, true⟩
    | none =>
        if scopes.declares scope name then pure ()
        else bind scope name ⟨.undefined, true⟩

def declareLexical (frame : Frame) (isMutable : Bool) (name : String) (value : Value) :
    Run Unit := do
  if (← scopes).declares frame.scope name then complain (.redeclared name)
  else bind frame.scope name ⟨value, isMutable⟩

def declare (frame : Frame) (binder : Source.Binder) (name : String) (value : Option Value) :
    Run Unit :=
  match binder with
  | .variable => declareVariable frame name value
  | .mutable => declareLexical frame true name (value.getD .undefined)
  | .constant => declareLexical frame false name (value.getD .undefined)

def makeFunction (code : Source.Function) (scope : ScopeId) : Run Value := do
  let id ← onHeap (Heap.allocate ⟨.function code scope, []⟩)
  pure (.object id)

end Run

namespace Evaluator

open Run

def evalArgs (self : Evaluator) (frame : Frame) (found : Array Value) :
    List Expr → Run (List Value)
  | [] => pure found.toList
  | e :: rest => do
      let value ← self.eval e frame
      evalArgs self frame (found.push value) rest

def evalEntries (self : Evaluator) (frame : Frame) (found : Table Value) :
    List (String × Expr) → Run (Table Value)
  | [] => pure found
  | (key, e) :: rest => do
      let value ← self.eval e frame
      evalEntries self frame (found.put key value) rest

def evalKey (self : Evaluator) (key : Expr) (frame : Frame) : Run String := do
  let key ← self.eval key frame
  pure ((← heap).propertyKey key)

/-! ## Statement lists -/

/-- The functions of a body are declared before it runs. -/
def hoist (frame : Frame) : List Stmt → Run Unit
  | [] => pure ()
  | .mk _ (.function code) :: rest => do
      let function ← makeFunction code frame.scope
      declareVariable frame (code.name.getD "") (some function)
      hoist frame rest
  | _ :: rest => hoist frame rest

def execEach (self : Evaluator) (frame : Frame) : List Stmt → Run Unit
  | [] => pure ()
  | s :: rest => do
      self.exec s frame
      execEach self frame rest

def execStatements (self : Evaluator) (body : List Stmt) (frame : Frame) : Run Unit := do
  hoist frame body
  self.execEach frame body

def execBlock (self : Evaluator) (body : List Stmt) (frame : Frame) : Run Unit := do
  let frame ← openBlock frame
  self.execStatements body frame

/-! ## Calls -/

/-- Missing arguments are undefined, and those without a parameter are dropped. -/
def bindParams (scope : ScopeId) : List String → List Value → Run Unit
  | [], _ => pure ()
  | param :: params, args => do
      bind scope param ⟨args.head?.getD .undefined, true⟩
      bindParams scope params args.tail

def functionResult : Except Abrupt Unit → Run Value
  | .ok () => pure .undefined
  | .error (.returned value) => pure value
  | .error other => throw other

def callScript (self : Evaluator) (code : Source.Function) (closure : ScopeId) (this : Value)
    (args : List Value) : Run Value := do
  checkCallDepth
  safePoint
  let scope ← onScopes fun scopes => scopes.openChild .function closure
  bindParams scope code.params args
  let this ← if this.isNullish then globalThis else pure this
  let ending ← attempt (inCall (self.execStatements code.body ⟨scope, this⟩))
  functionResult ending

def call (self : Evaluator) (function this : Value) (args : List Value) (name : String) :
    Run Value := do
  let h ← heap
  match function.object?.map fun id => (h.object id).kind with
  | some (.native native) => do
      record function native args
      callNative native args
  | some (.function code closure) => self.callScript code closure this args
  | _ => complain (.notFunction name)

def evalCall (self : Evaluator) (callee : Expr) (args : List Expr) (frame : Frame) :
    Run Value := do
  match callee with
  | .member object property => do
      let target ← self.eval object frame
      match arrayMethod? (← heap) target property with
      | some (id, method) => do
          let args ← self.evalArgs frame #[] args
          callArrayMethod id method args
      | none => do
          let function ← getProperty target property
          let args ← self.evalArgs frame #[] args
          self.call function target args property
  | .index object key => do
      let target ← self.eval object frame
      let key ← self.evalKey key frame
      let function ← getProperty target key
      let args ← self.evalArgs frame #[] args
      self.call function target args key
  | .name name => do
      let function ← lookup name frame
      let args ← self.evalArgs frame #[] args
      self.call function .undefined args name
  | other => do
      let function ← self.eval other frame
      let args ← self.evalArgs frame #[] args
      self.call function .undefined args "expression"

/-- An object that a constructor gives back takes the place of the one made for it. -/
def instanceOr (made result : Value) : Value :=
  match result with
  | .object _ => result
  | _ => made

def constructorName : Expr → String
  | .name name => name
  | _ => "expression"

def evalConstruct (self : Evaluator) (callee : Expr) (args : List Expr) (frame : Frame) :
    Run Value := do
  let constructor ← self.eval callee frame
  let args ← self.evalArgs frame #[] args
  let h ← heap
  match constructor.object?.map fun id => (h.object id).kind with
  | some (.native (.errorConstructor kind)) => callNative (.errorConstructor kind) args
  | some (.function code closure) => do
      let made ← onHeap (Heap.allocate ⟨.ordinary, []⟩)
      let result ← self.callScript code closure (.object made) args
      pure (instanceOr (.object made) result)
  | _ => complain (.notConstructor (constructorName callee))

/-! ## Expressions -/

def assign (self : Evaluator) (target : Expr) (value : Value) (frame : Frame) : Run Unit := do
  match target with
  | .name name => assignName name value frame
  | .member object property => do
      let object ← self.eval object frame
      setProperty object property value
  | .index object key => do
      let object ← self.eval object frame
      let key ← self.evalKey key frame
      setProperty object key value
  | _ => complain .assignmentTarget

/-- The type of a name that is declared nowhere can be asked for. -/
def evalUnary (self : Evaluator) (op : Source.UnaryOp) (operand : Expr) (frame : Frame) :
    Run Value := do
  match op, operand with
  | .typeOf, .name name => do
      let value ← resolve? name frame
      pure (.string ((← heap).typeOf (value.getD .undefined)))
  | op, operand => do
      let value ← self.eval operand frame
      let h ← heap
      match op with
      | .negate => pure (.number (-(h.toNumber value)))
      | .plus => pure (.number (h.toNumber value))
      | .not => pure (.bool (!value.truthy))
      | .typeOf => pure (.string (h.typeOf value))

def evalAssign (self : Evaluator) (op : Option Source.BinaryOp) (target value : Expr)
    (frame : Frame) : Run Value := do
  let result ← match op with
    | none => self.eval value frame
    | some op => do
        let current ← self.eval target frame
        let operand ← self.eval value frame
        binary op current operand
  self.assign target result frame
  pure result

def evalUpdate (self : Evaluator) (increment before : Bool) (target : Expr) (frame : Frame) :
    Run Value := do
  let current ← self.eval target frame
  let old := (← heap).toNumber current
  let new := if increment then old + 1.0 else old - 1.0
  self.assign target (.number new) frame
  pure (.number (if before then new else old))

def evalIndex (self : Evaluator) (object key : Expr) (frame : Frame) : Run Value := do
  let object ← self.eval object frame
  let key ← self.eval key frame
  let h ← heap
  match object.object?.bind fun id => h.element? id key with
  | some element => pure element
  | none => getProperty object (h.propertyKey key)

def evalExpr (self : Evaluator) (e : Expr) (frame : Frame) : Run Value := do
  match e with
  | .number x => pure (.number x)
  | .string s => pure (.string s)
  | .bool b => pure (.bool b)
  | .null => pure .null
  | .undefined => pure .undefined
  | .this => pure frame.this
  | .name x => lookup x frame
  | .array items => do
      let values ← self.evalArgs frame #[] items
      .object <$> onHeap (Heap.allocate ⟨.array values.toArray, []⟩)
  | .object entries => do
      let properties ← self.evalEntries frame [] entries
      .object <$> onHeap (Heap.allocate ⟨.ordinary, properties⟩)
  | .function code => makeFunction code frame.scope
  | .unary op operand => self.evalUnary op operand frame
  | .binary op left right => do
      let left ← self.eval left frame
      let right ← self.eval right frame
      binary op left right
  | .logical op left right => do
      let left ← self.eval left frame
      match op, left.truthy with
      | .and, true => self.eval right frame
      | .or, false => self.eval right frame
      | _, _ => pure left
  | .conditional test consequent alternate => do
      let test ← self.eval test frame
      if test.truthy then self.eval consequent frame else self.eval alternate frame
  | .assign op target value => self.evalAssign op target value frame
  | .update increment before target => self.evalUpdate increment before target frame
  | .member object property => do
      let object ← self.eval object frame
      getProperty object property
  | .index object key => self.evalIndex object key frame
  | .call callee args => self.evalCall callee args frame
  | .construct callee args => self.evalConstruct callee args frame

/-! ## Statements -/

def execDeclarations (self : Evaluator) (frame : Frame) (binder : Source.Binder) :
    List (String × Option Expr) → Run Unit
  | [] => pure ()
  | (name, init) :: rest => do
      let value ← match init with
        | some e => some <$> self.eval e frame
        | none => pure none
      declare frame binder name value
      execDeclarations self frame binder rest

def loopBody (self : Evaluator) (body : Stmt) (frame : Frame) : Run Bool := do
  match ← attempt (self.exec body frame) with
  | .ok () => pure true
  | .error .continued => pure true
  | .error .broke => pure false
  | .error other => throw other

def whileRound (self : Evaluator) (test : Expr) (body : Stmt) (frame : Frame) : Run Bool := do
  let test ← self.eval test frame
  if test.truthy then self.loopBody body frame else pure false

def doRound (self : Evaluator) (body : Stmt) (test : Expr) (frame : Frame) : Run Bool := do
  if ← self.loopBody body frame then do
    let test ← self.eval test frame
    pure test.truthy
  else pure false

def forRound (self : Evaluator) (test update : Option Expr) (body : Stmt) (frame : Frame) :
    Run Bool := do
  let goesOn ← match test with
    | some test => Value.truthy <$> self.eval test frame
    | none => pure true
  if goesOn then do
    if ← self.loopBody body frame then do
      match update with
      | some update => do
          let _ ← self.eval update frame
          pure true
      | none => pure true
    else pure false
  else pure false

def execFor (self : Evaluator) (init : Option Stmt) (test update : Option Expr) (body : Stmt)
    (frame : Frame) : Run Unit := do
  let frame ← openBlock frame
  match init with
  | some init => aside (self.exec init frame)
  | none => pure ()
  repeatWhile (self.forRound test update body frame)

/-- The handler runs in the scope of its parameter. -/
def execHandler (self : Evaluator) (param : Option String) (exception : Value)
    (handler : List Stmt) (frame : Frame) : Run Unit := do
  let frame ← openBlock frame
  match param with
  | some param => bind frame.scope param ⟨exception, true⟩
  | none => pure ()
  self.execStatements handler frame

def execGuarded (self : Evaluator) (block : List Stmt) (param : Option String)
    (handler : Option (List Stmt)) (frame : Frame) : Run (Except Abrupt Unit) := do
  let ending ← attempt (self.execBlock block frame)
  match ending, handler with
  | .error (.thrown exception), some handler =>
      attempt (self.execHandler param exception handler frame)
  | _, _ => pure ending

def isFinal : Except Abrupt Unit → Bool
  | .ok () => false
  | .error abrupt => abrupt.isFinal

/-- A finalizer changes how the statement ends only by ending abruptly itself. -/
def execAttempt (self : Evaluator) (block : List Stmt) (param : Option String)
    (handler finalizer : Option (List Stmt)) (frame : Frame) : Run Unit := do
  let ending ← self.execGuarded block param handler frame
  match finalizer with
  | some finalizer =>
      if isFinal ending then pure () else aside (self.execBlock finalizer frame)
  | none => pure ()
  match ending with
  | .ok () => pure ()
  | .error abrupt => throw abrupt

def execKind (self : Evaluator) (kind : StmtKind) (frame : Frame) : Run Unit := do
  match kind with
  | .expression e => do
      let value ← self.eval e frame
      setCompletion value
  | .declare binder declarations => self.execDeclarations frame binder declarations
  | .function _ => pure ()
  | .empty => pure ()
  | .block body => self.execBlock body frame
  | .branch test consequent alternate => do
      let test ← self.eval test frame
      if test.truthy then self.exec consequent frame
      else
        match alternate with
        | some alternate => self.exec alternate frame
        | none => pure ()
  | .whileLoop test body => repeatWhile (self.whileRound test body frame)
  | .doLoop body test => repeatWhile (self.doRound body test frame)
  | .forLoop init test update body => self.execFor init test update body frame
  | .breakOff => throw .broke
  | .continueOn => throw .continued
  | .returnWith value => do
      match value with
      | some e => do
          let value ← self.eval e frame
          throw (.returned value)
      | none => throw (.returned .undefined)
  | .throwing e => do
      let value ← self.eval e frame
      raise value
  | .attempt block param handler finalizer =>
      self.execAttempt block param handler finalizer frame

def execStmt (self : Evaluator) (s : Stmt) (frame : Frame) : Run Unit := do
  setLine s.line
  safePoint
  self.execKind s.kind frame

/-! ## All levels -/

def exhausted : Evaluator where
  eval := fun _ _ => complain .stackOverflow
  exec := fun _ _ => complain .stackOverflow

/-- The evaluator that may nest one level deeper than the one given. -/
def deeper (self : Evaluator) : Evaluator where
  eval := fun e frame => nested (self.evalExpr e frame)
  exec := fun s frame => nested (self.execStmt s frame)

def ofDepth : Nat → Evaluator
  | 0 => exhausted
  | depth + 1 => deeper (ofDepth depth)

def full : Evaluator :=
  ofDepth nestingLimit

end Evaluator

end ScriptHost
