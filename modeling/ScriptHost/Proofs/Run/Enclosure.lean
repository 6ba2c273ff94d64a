import ScriptHost.Proofs.Heap.Enclosure
import ScriptHost.Proofs.Coupling.Law
import ScriptHost.Run.Program

/-!
What leaves a loop is caught by a loop. A statement ends by leaving one only where it stands in one,
and a call never does, as the functions that are called stand on their own.
-/

namespace ScriptHost

open Source (Expr Stmt StmtKind)

variable {α β : Type} {n k : Nat} {frame : Frame}

/-- A loop is left only where there is one. -/
def Abrupt.Enclosed (n : Nat) : Abrupt → Prop
  | .broke => 0 < n
  | .continued => 0 < n
  | _ => True

theorem Abrupt.Enclosed.mono {e : Abrupt} (h : e.Enclosed 0) (n : Nat) : e.Enclosed n := by
  cases e with
  | broke | continued => exact absurd h (Nat.lt_irrefl 0)
  | _ => trivial

namespace Run

/-- The heap stays enclosed, and the end leaves a loop only where there is one. -/
def Ends (n : Nat) : EStateM.Result Abrupt Machine α → Prop
  | .ok _ m => m.heap.Enclosed
  | .error e m => m.heap.Enclosed ∧ e.Enclosed n

/-- The computation is part of as many loops. -/
def Confined (n : Nat) (x : Run α) : Prop :=
  ∀ s m, m.heap.Enclosed → Ends n (x s m)

namespace Confined

theorem pure (a : α) : Confined n (pure a) :=
  fun _ _ hm => hm

theorem error {e : Abrupt} (he : e.Enclosed n) : Confined n (throw e : Run α) :=
  fun _ _ hm => ⟨hm, he⟩

theorem bind {x : Run α} {f : α → Run β} (hx : Confined n x) (hf : ∀ a, Confined n (f a)) :
    Confined n (x >>= f) := by
  intro s m hm
  have hends := hx s m hm
  cases h : x s m with
  | ok a k =>
    rw [h] at hends
    rw [bind_ok h]
    exact hf a s k hends
  | error e k =>
    rw [h] at hends
    rw [bind_error h]
    exact hends

theorem map {x : Run α} (hx : Confined n x) (f : α → β) : Confined n (f <$> x) := by
  rw [map_eq_pure_bind]
  exact hx.bind fun a => pure (f a)

/-- How a computation ends that is attempted is known to what comes next. -/
theorem bindAttempt {x : Run α} {f : Except Abrupt α → Run β} (hx : Confined k x)
    (hf : ∀ ending, (∀ e, ending = .error e → e.Enclosed k) → Confined n (f ending)) :
    Confined n (attempt x >>= f) := by
  intro s m hm
  have hends := hx s m hm
  cases h : x s m with
  | ok a m' =>
    rw [h] at hends
    rw [bind_ok (attempt_ok h)]
    exact hf (.ok a) nofun s m' hends
  | error e m' =>
    rw [h] at hends
    rw [bind_ok (attempt_error h)]
    refine hf (.error e) (fun e' he' => ?_) s m' hends.1
    obtain rfl := Except.error.inj he'
    exact hends.2

theorem ended {ending : Except Abrupt Unit} (h : ∀ e, ending = .error e → e.Enclosed n) :
    Confined n (match ending with
      | .ok () => Pure.pure ()
      | .error abrupt => throw abrupt) := by
  split
  · exact pure _
  · exact error (h _ rfl)

theorem bindHeap {f : Heap → Run α} (hf : ∀ h : Heap, h.Enclosed → Confined n (f h)) :
    Confined n (heap >>= f) :=
  fun s m hm => hf m.heap hm s m hm

theorem around {x : Run α} (wrap : Run α → Run α) (enter : Machine → Machine)
    (leave : Machine → Machine → Machine)
    (hwrap : ∀ s m, wrap x s m = mapState (leave m) (x s (enter m)))
    (henter : ∀ m, (enter m).heap = m.heap) (hleave : ∀ m k, (leave m k).heap = k.heap)
    (hx : Confined n x) : Confined n (wrap x) := by
  intro s m hm
  have hends := hx s (enter m) ((henter m).symm ▸ hm)
  rw [hwrap]
  cases h : x s (enter m) with
  | ok a k =>
    rw [h] at hends
    show (leave m k).heap.Enclosed
    rw [hleave]
    exact hends
  | error e k =>
    rw [h] at hends
    exact ⟨(hleave m k).symm ▸ hends.1, hends.2⟩

theorem aside {x : Run α} (hx : Confined n x) : Confined n (aside x) :=
  hx.around Run.aside _ _ (aside_eq x) (fun _ => rfl) fun _ _ => rfl

theorem inCall {x : Run α} (hx : Confined n x) : Confined n (inCall x) := by
  refine hx.aside.around (fun _ => Run.inCall x) (fun m => { m with calls := m.calls.enter })
    (fun m k => { k with calls := k.calls.leave, line := m.line })
    (inCall_eq x) (fun _ => rfl) fun _ _ => rfl

theorem onHeap {step : Heap.Step α} (hstep : Heap.Guards step) : Confined n (onHeap step) := by
  intro s m hm
  have hleft := hstep m.heap hm
  unfold Run.onHeap
  unfold Heap.left at hleft
  cases h : step m.heap with
  | ok a heap =>
    rw [h] at hleft
    exact hleft
  | error reason heap =>
    rw [h] at hleft
    exact ⟨hleft, trivial⟩

/-! ### Steps of the machine -/

theorem scopes : Confined n scopes :=
  fun _ _ hm => hm

theorem setting : Confined n setting :=
  fun _ _ hm => hm

theorem globalThis : Confined n globalThis :=
  fun _ _ hm => hm

theorem onScopes (f : Scopes → α × Scopes) : Confined n (onScopes f) :=
  fun _ _ hm => hm

theorem onHost (f : Host → Host) : Confined n (onHost f) :=
  fun _ _ hm => hm

theorem unchecked (json : Json) : Confined n (unchecked json) :=
  fun _ _ hm => hm

theorem raise (value : Value) : Confined n (raise value : Run α) :=
  fun _ _ hm => ⟨hm, trivial⟩

theorem setLine (line : Nat) : Confined n (setLine line) :=
  fun _ _ hm => hm

theorem setCompletion (value : Value) : Confined n (setCompletion value) :=
  fun _ _ hm => hm

theorem record (function : Value) (native : Native) (args : List Value) :
    Confined n (record function native args) := by
  cases native <;> exact fun _ _ hm => hm

theorem complain (complaint : Complaint) : Confined n (complain complaint : Run α) :=
  (unchecked _).bind fun _ => (onHeap (.allocateError _ _)).bind fun _ => raise _

theorem safePoint : Confined n safePoint := by
  intro s m hm
  unfold Run.safePoint
  split
  · exact ⟨hm, trivial⟩
  · dsimp only
    split
    · exact ⟨hm, trivial⟩
    · split
      · exact ⟨hm, trivial⟩
      · exact hm

theorem checkCallDepth : Confined n checkCallDepth := by
  intro s m hm
  unfold Run.checkCallDepth
  split
  · exact complain _ s m hm
  · exact hm

theorem nested {x : Run α} (hx : Confined n x) : Confined n (nested x) := by
  intro s m hm
  by_cases hlimit : nestingLimit ≤ m.nesting.level
  · rw [Run.nested, if_pos hlimit]
    exact complain _ s m hm
  · have hbelow : Confined n fun s m => mapState
        (fun k => { k with nesting := k.nesting.leave })
        (x s { m with nesting := m.nesting.enter }) :=
      hx.around (fun x s m => mapState (fun k => { k with nesting := k.nesting.leave })
        (x s { m with nesting := m.nesting.enter })) _ _ (fun _ _ => rfl) (fun _ => rfl)
        fun _ _ => rfl
    rw [nested_below x s hlimit]
    exact hbelow s m hm

theorem repeatFor {round : Run Bool} (hround : Confined n round) (rounds : Nat) :
    Confined n (repeatFor round rounds) := by
  induction rounds with
  | zero => exact error trivial
  | succ rounds ih =>
    refine hround.bind fun goesOn => ?_
    split
    · exact ih
    · exact pure _

theorem repeatWhile {round : Run Bool} (hround : Confined n round) :
    Confined n (repeatWhile round) :=
  fun s m => (safePoint.bind fun _ => hround).repeatFor (s.horizon - m.polls + 1) s m

/-! ### Operators and built-ins -/

theorem string (text : String) : Confined n (string text) := by
  refine bindHeap fun h _ => ?_
  split
  · exact complain _
  · exact pure _

theorem add (left right : Value) : Confined n (add left right) := by
  refine bindHeap fun h _ => ?_
  dsimp only
  split
  · split
    · exact complain _
    · exact pure _
  · exact pure _

theorem binary (op : Source.BinaryOp) (left right : Value) : Confined n (binary op left right) := by
  refine bindHeap fun h _ => ?_
  cases op with
  | add => exact add left right
  | _ => exact pure _

theorem getProperty (base : Value) (key : String) : Confined n (getProperty base key) := by
  refine bindHeap fun h _ => ?_
  split
  · exact pure _
  · exact complain _

theorem setProperty (base : Value) (key : String) (value : Value) :
    Confined n (setProperty base key value) := by
  cases base with
  | object id =>
    refine (onHeap (.writeProperty id key value)).bind fun done => ?_
    split
    · exact pure _
    · exact complain _
  | undefined | null => exact bindHeap fun h _ => complain _
  | bool | number | string => exact pure _

theorem callArrayMethod (id : ObjectId) (method : ArrayMethod) (args : List Value) :
    Confined n (callArrayMethod id method args) := by
  cases method with
  | push => exact (onHeap (.pushElements id args)).bind fun size => pure _
  | pop => exact onHeap (.popElement id)
  | join => exact bindHeap fun h _ => string _

theorem cloneMessage (value : Value) : Confined n (cloneMessage value) := by
  refine bindHeap fun h _ => ?_
  split
  · exact pure _
  · exact complain _

theorem callNative (function : Native) (args : List Value) :
    Confined n (callNative function args) := by
  cases function with
  | console level => exact bindHeap fun h _ => (onHost _).bind fun _ => pure _
  | close => exact (onHost _).bind fun _ => pure _
  | postMessage => exact (cloneMessage _).bind fun _ => (onHost _).bind fun _ => pure _
  | portPostMessage port => exact (cloneMessage _).bind fun _ => (onHost _).bind fun _ => pure _
  | errorConstructor kind =>
    exact bindHeap fun h _ => (unchecked _).bind fun _ => onHeap (.allocateError _ _)
  | jsonStringify =>
    refine bindHeap fun h _ => ?_
    split
    · exact pure _
    · split
      · exact string _
      · exact complain _
  | jsonParse =>
    refine bindHeap fun h _ => ?_
    split
    · exact (unchecked _).bind fun _ => onHeap (.fromJson _)
    · exact complain _

/-! ### Names and scopes -/

theorem openBlock (frame : Frame) : Confined n (openBlock frame) :=
  (onScopes _).bind fun _ => pure _

theorem bindName (scope : ScopeId) (name : String) (binding : Binding) :
    Confined n (Run.bind scope name binding) :=
  onScopes _

theorem resolve? (name : String) (frame : Frame) : Confined n (resolve? name frame) := by
  refine scopes.bind fun scopes => ?_
  split
  · exact pure _
  · exact setting.bind fun s => bindHeap fun h _ => pure _

theorem lookup (name : String) (frame : Frame) : Confined n (lookup name frame) := by
  refine (resolve? name frame).bind fun value => ?_
  split
  · exact pure _
  · exact complain _

theorem assignName (name : String) (value : Value) (frame : Frame) :
    Confined n (assignName name value frame) := by
  refine scopes.bind fun scopes => ?_
  split
  · split
    · exact bindName _ _ _
    · exact complain _
  · exact setting.bind fun s => onHeap (.setProperty _ _ _)

theorem declareVariable (frame : Frame) (name : String) (value : Option Value) :
    Confined n (declareVariable frame name value) := by
  refine scopes.bind fun scopes => ?_
  dsimp only
  split
  · refine setting.bind fun s => bindHeap fun h _ => ?_
    split
    · exact onHeap (.setProperty _ _ _)
    · exact onHeap (.setProperty _ _ _)
    · exact pure _
  · split
    · exact bindName _ _ _
    · split
      · exact pure _
      · exact bindName _ _ _

theorem declareLexical (frame : Frame) (isMutable : Bool) (name : String) (value : Value) :
    Confined n (declareLexical frame isMutable name value) := by
  refine scopes.bind fun scopes => ?_
  split
  · exact complain _
  · exact bindName _ _ _

theorem declare (frame : Frame) (binder : Source.Binder) (name : String) (value : Option Value) :
    Confined n (declare frame binder name value) := by
  cases binder with
  | «variable» => exact declareVariable frame name value
  | mutable => exact declareLexical frame true name _
  | constant => exact declareLexical frame false name _

theorem makeFunction {code : Source.Function} (hcode : code.Enclosed) (scope : ScopeId) :
    Confined n (makeFunction code scope) :=
  (onHeap (.allocate (HeapObject.enclosed_function hcode scope))).bind fun _ => pure _

end Confined

end Run

/-! ## Evaluators -/

namespace Evaluator

open Run

structure Confined (E : Evaluator) : Prop where
  eval : ∀ {n : Nat} {e : Expr} (frame : Frame), e.Enclosed → Run.Confined n (E.eval e frame)
  exec : ∀ {n : Nat} {stmt : Stmt} (frame : Frame), stmt.Enclosed n →
    Run.Confined n (E.exec stmt frame)

theorem hoist_confined (frame : Frame) {body : List Stmt} (hbody : ∀ stmt ∈ body, stmt.Enclosed n) :
    Run.Confined k (hoist frame body) := by
  induction body with
  | nil => exact .pure ()
  | cons stmt rest ih =>
    obtain ⟨hfirst, hrest⟩ := List.forall_mem_cons.1 hbody
    obtain ⟨line, kind⟩ := stmt
    cases kind with
    | function code =>
      have hcode : code.Enclosed := match hfirst with
        | .mk (.function hcode) => hcode
      refine (Run.Confined.makeFunction hcode frame.scope).bind fun function => ?_
      exact (Run.Confined.declareVariable frame _ _).bind fun _ => ih hrest
    | _ => exact ih hrest

theorem bindParams_confined (scope : ScopeId) (params : List String) (args : List Value) :
    Run.Confined n (bindParams scope params args) := by
  induction params generalizing args with
  | nil => exact .pure ()
  | cons param params ih => exact (Run.Confined.bindName _ _ _).bind fun _ => ih _

theorem functionResult_confined {ending : Except Abrupt Unit}
    (h : ∀ e, ending = .error e → e.Enclosed 0) : Run.Confined n (functionResult ending) := by
  unfold functionResult
  split
  · exact .pure _
  · exact .pure _
  · exact .error ((h _ rfl).mono n)

namespace Confined

variable {self : Evaluator} (h : self.Confined) (frame : Frame)

include h

/-! ### Calls -/

theorem evalArgs (found : Array Value) {args : List Expr} (hargs : ∀ e ∈ args, e.Enclosed) :
    Run.Confined n (self.evalArgs frame found args) := by
  induction args generalizing found with
  | nil => exact .pure _
  | cons e rest ih =>
    obtain ⟨he, hrest⟩ := List.forall_mem_cons.1 hargs
    exact (h.eval frame he).bind fun value => ih _ hrest

theorem evalEntries (found : Table Value) {entries : List (String × Expr)}
    (hentries : ∀ entry ∈ entries, entry.2.Enclosed) :
    Run.Confined n (self.evalEntries frame found entries) := by
  induction entries generalizing found with
  | nil => exact .pure _
  | cons entry rest ih =>
    obtain ⟨he, hrest⟩ := List.forall_mem_cons.1 hentries
    exact (h.eval frame he).bind fun value => ih _ hrest

theorem evalKey {key : Expr} (hkey : key.Enclosed) : Run.Confined n (self.evalKey key frame) :=
  (h.eval frame hkey).bind fun _ => .bindHeap fun _ _ => .pure _

theorem execEach {body : List Stmt} (hbody : ∀ stmt ∈ body, stmt.Enclosed n) :
    Run.Confined n (self.execEach frame body) := by
  induction body with
  | nil => exact .pure ()
  | cons stmt rest ih =>
    obtain ⟨hfirst, hrest⟩ := List.forall_mem_cons.1 hbody
    exact (h.exec frame hfirst).bind fun _ => ih hrest

theorem execStatements {body : List Stmt} (hbody : ∀ stmt ∈ body, stmt.Enclosed n) :
    Run.Confined n (self.execStatements body frame) :=
  (hoist_confined frame hbody).bind fun _ => h.execEach frame hbody

theorem execBlock {body : List Stmt} (hbody : ∀ stmt ∈ body, stmt.Enclosed n) :
    Run.Confined n (self.execBlock body frame) :=
  (Run.Confined.openBlock frame).bind fun inner => h.execStatements inner hbody

omit frame in
/-- However deep in loops a call stands, the body of the function stands in none. -/
theorem callScript {code : Source.Function} (hcode : code.Enclosed) (closure : ScopeId)
    (this : Value) (args : List Value) :
    Run.Confined n (self.callScript code closure this args) := by
  refine Run.Confined.checkCallDepth.bind fun _ => Run.Confined.safePoint.bind fun _ => ?_
  refine (Run.Confined.onScopes _).bind fun scope => ?_
  refine (bindParams_confined scope code.params args).bind fun _ => ?_
  have hbody (this : Value) : Run.Confined n (do
      let ending ← attempt (inCall (self.execStatements code.body ⟨scope, this⟩))
      functionResult ending) :=
    .bindAttempt (h.execStatements ⟨scope, this⟩ hcode.body).inCall
      fun ending => functionResult_confined
  split
  · exact Run.Confined.globalThis.bind hbody
  · exact hbody this

omit frame in
theorem call (function this : Value) (args : List Value) (name : String) :
    Run.Confined n (self.call function this args name) := by
  refine .bindHeap fun heap hheap => ?_
  split
  · exact (Run.Confined.record _ _ _).bind fun _ => .callNative _ _
  · next hkind =>
    obtain ⟨id, -, hkind⟩ := Option.map_eq_some_iff.1 hkind
    exact h.callScript (hheap.object id _ _ hkind) _ this args
  · exact .complain _

theorem evalCall {callee : Expr} (hcallee : callee.Enclosed) {args : List Expr}
    (hargs : ∀ e ∈ args, e.Enclosed) : Run.Confined n (self.evalCall callee args frame) := by
  have hcall (function this : Value) (name : String) : Run.Confined n (do
      let args ← self.evalArgs frame #[] args
      self.call function this args name) :=
    (h.evalArgs frame #[] hargs).bind fun args => h.call function this args name
  cases hcallee with
  | member hobject =>
    refine (h.eval frame hobject).bind fun target => .bindHeap fun heap _ => ?_
    split
    · exact (h.evalArgs frame #[] hargs).bind fun args => .callArrayMethod _ _ _
    · exact (Run.Confined.getProperty _ _).bind fun function => hcall _ _ _
  | index hobject hkey =>
    refine (h.eval frame hobject).bind fun target => (h.evalKey frame hkey).bind fun key => ?_
    exact (Run.Confined.getProperty _ _).bind fun function => hcall _ _ _
  | name => exact (Run.Confined.lookup _ frame).bind fun function => hcall _ _ _
  | _ =>
    refine (h.eval frame ?_).bind fun function => hcall _ _ _
    constructor <;> assumption

theorem evalConstruct {callee : Expr} (hcallee : callee.Enclosed) {args : List Expr}
    (hargs : ∀ e ∈ args, e.Enclosed) : Run.Confined n (self.evalConstruct callee args frame) := by
  refine (h.eval frame hcallee).bind fun constructor => ?_
  refine (h.evalArgs frame #[] hargs).bind fun args => .bindHeap fun heap hheap => ?_
  split
  · exact .callNative _ _
  · next hkind =>
    obtain ⟨id, -, hkind⟩ := Option.map_eq_some_iff.1 hkind
    have hplain : Heap.Guards (Heap.allocate ⟨.ordinary, []⟩) := .allocate (.plain rfl)
    refine (Run.Confined.onHeap hplain).bind fun made => ?_
    exact (h.callScript (hheap.object id _ _ hkind) _ _ args).bind fun result => .pure _
  · exact .complain _

/-! ### Expressions -/

theorem assign {target : Expr} (htarget : target.Enclosed) (value : Value) :
    Run.Confined n (self.assign target value frame) := by
  cases htarget with
  | name => exact .assignName _ value frame
  | member hobject => exact (h.eval frame hobject).bind fun base => .setProperty _ _ _
  | index hobject hkey =>
    refine (h.eval frame hobject).bind fun base => ?_
    exact (h.evalKey frame hkey).bind fun key => .setProperty _ _ _
  | _ => exact .complain _

theorem evalUnary (op : Source.UnaryOp) {operand : Expr} (hoperand : operand.Enclosed) :
    Run.Confined n (self.evalUnary op operand frame) := by
  unfold Evaluator.evalUnary
  split
  · exact (Run.Confined.resolve? _ frame).bind fun value => .bindHeap fun heap _ => .pure _
  · refine (h.eval frame hoperand).bind fun value => .bindHeap fun heap _ => ?_
    split <;> exact .pure _

theorem evalAssign (op : Option Source.BinaryOp) {target value : Expr} (htarget : target.Enclosed)
    (hvalue : value.Enclosed) : Run.Confined n (self.evalAssign op target value frame) := by
  have hassigned (result : Value) :
      Run.Confined n (do self.assign target result frame; pure result) :=
    (h.assign frame htarget result).bind fun _ => .pure _
  cases op with
  | none => exact (h.eval frame hvalue).bind hassigned
  | some op =>
    refine (h.eval frame htarget).bind fun current => ?_
    refine (h.eval frame hvalue).bind fun operand => ?_
    exact (Run.Confined.binary op current operand).bind hassigned

theorem evalUpdate (increment before : Bool) {target : Expr} (htarget : target.Enclosed) :
    Run.Confined n (self.evalUpdate increment before target frame) := by
  refine (h.eval frame htarget).bind fun current => .bindHeap fun heap _ => ?_
  exact (h.assign frame htarget _).bind fun _ => .pure _

theorem evalIndex {object key : Expr} (hobject : object.Enclosed) (hkey : key.Enclosed) :
    Run.Confined n (self.evalIndex object key frame) := by
  refine (h.eval frame hobject).bind fun base => (h.eval frame hkey).bind fun key => ?_
  refine .bindHeap fun heap _ => ?_
  split
  · exact .pure _
  · exact .getProperty _ _

theorem evalExpr {e : Expr} (he : e.Enclosed) : Run.Confined n (self.evalExpr e frame) := by
  cases he with
  | number | string | bool | null | undefined | this => exact .pure _
  | name => exact .lookup _ frame
  | array hitems =>
    refine (h.evalArgs frame #[] hitems).bind fun values => ?_
    exact (Run.Confined.onHeap (.allocate (o := ⟨.array values.toArray, []⟩) (.plain rfl))).map _
  | object hentries =>
    refine (h.evalEntries frame [] hentries).bind fun properties => ?_
    exact (Run.Confined.onHeap (.allocate (o := ⟨.ordinary, properties⟩) (.plain rfl))).map _
  | function hcode => exact .makeFunction hcode frame.scope
  | unary hoperand => exact h.evalUnary frame _ hoperand
  | binary hleft hright =>
    refine (h.eval frame hleft).bind fun left => ?_
    exact (h.eval frame hright).bind fun right => .binary _ left right
  | logical hleft hright =>
    refine (h.eval frame hleft).bind fun left => ?_
    split
    · exact h.eval frame hright
    · exact h.eval frame hright
    · exact .pure _
  | conditional htest hconsequent halternate =>
    refine (h.eval frame htest).bind fun test => ?_
    split
    · exact h.eval frame hconsequent
    · exact h.eval frame halternate
  | assign htarget hvalue => exact h.evalAssign frame _ htarget hvalue
  | update htarget => exact h.evalUpdate frame _ _ htarget
  | member hobject => exact (h.eval frame hobject).bind fun base => .getProperty _ _
  | index hobject hkey => exact h.evalIndex frame hobject hkey
  | call hcallee hargs => exact h.evalCall frame hcallee hargs
  | construct hcallee hargs => exact h.evalConstruct frame hcallee hargs

/-! ### Statements -/

theorem execDeclarations (binder : Source.Binder) {declarations : List (String × Option Expr)}
    (hdeclarations : ∀ d ∈ declarations, ∀ e ∈ d.2, e.Enclosed) :
    Run.Confined n (self.execDeclarations frame binder declarations) := by
  induction declarations with
  | nil => exact .pure ()
  | cons declaration rest ih =>
    obtain ⟨name, init⟩ := declaration
    obtain ⟨hinit, hrest⟩ := List.forall_mem_cons.1 hdeclarations
    have hdeclared (value : Option Value) : Run.Confined n (do
        declare frame binder name value
        self.execDeclarations frame binder rest) :=
      (Run.Confined.declare frame binder name value).bind fun _ => ih hrest
    cases init with
    | none => exact hdeclared none
    | some e => exact ((h.eval frame (hinit e rfl)).map some).bind hdeclared

/-- What leaves the loop goes no further than its body. -/
theorem loopBody {body : Stmt} (hbody : body.Enclosed (n + 1)) :
    Run.Confined n (self.loopBody body frame) := by
  refine .bindAttempt (h.exec frame hbody) fun ending hending => ?_
  split
  · exact .pure _
  · exact .pure _
  · exact .pure _
  · next other hcontinued hbroke =>
    refine .error ?_
    cases other with
    | broke => exact absurd rfl hbroke
    | continued => exact absurd rfl hcontinued
    | _ => trivial

theorem whileRound {test : Expr} {body : Stmt} (htest : test.Enclosed)
    (hbody : body.Enclosed (n + 1)) : Run.Confined n (self.whileRound test body frame) := by
  refine (h.eval frame htest).bind fun test => ?_
  split
  · exact h.loopBody frame hbody
  · exact .pure _

theorem doRound {body : Stmt} {test : Expr} (hbody : body.Enclosed (n + 1))
    (htest : test.Enclosed) : Run.Confined n (self.doRound body test frame) := by
  refine (h.loopBody frame hbody).bind fun goesOn => ?_
  split
  · exact (h.eval frame htest).bind fun test => .pure _
  · exact .pure _

theorem forUpdate {update : Option Expr} {body : Stmt} (hupdate : ∀ e ∈ update, e.Enclosed)
    (hbody : body.Enclosed (n + 1)) (goesOn : Bool) : Run.Confined n (if goesOn then do
      if ← self.loopBody body frame then do
        match update with
        | some update => do
            let _ ← self.eval update frame
            pure true
        | none => pure true
      else pure false
    else pure false) := by
  split
  · refine (h.loopBody frame hbody).bind fun goesOn => ?_
    split
    · cases update with
      | some update => exact (h.eval frame (hupdate update rfl)).bind fun _ => .pure _
      | none => exact .pure _
    · exact .pure _
  · exact .pure _

theorem forRound {test update : Option Expr} {body : Stmt} (htest : ∀ e ∈ test, e.Enclosed)
    (hupdate : ∀ e ∈ update, e.Enclosed) (hbody : body.Enclosed (n + 1)) :
    Run.Confined n (self.forRound test update body frame) := by
  have hrest := h.forUpdate frame hupdate hbody
  cases test with
  | none => exact hrest true
  | some test => exact ((h.eval frame (htest test rfl)).map Value.truthy).bind hrest

theorem execFor {init : Option Stmt} {test update : Option Expr} {body : Stmt}
    (hinit : ∀ stmt ∈ init, stmt.Enclosed n) (htest : ∀ e ∈ test, e.Enclosed)
    (hupdate : ∀ e ∈ update, e.Enclosed) (hbody : body.Enclosed (n + 1)) :
    Run.Confined n (self.execFor init test update body frame) := by
  refine (Run.Confined.openBlock frame).bind fun inner => ?_
  have hrounds := (h.forRound inner htest hupdate hbody).repeatWhile
  cases init with
  | none => exact hrounds
  | some init => exact (h.exec inner (hinit init rfl)).aside.bind fun _ => hrounds

theorem execHandler (param : Option String) (exception : Value) {handler : List Stmt}
    (hhandler : ∀ stmt ∈ handler, stmt.Enclosed n) :
    Run.Confined n (self.execHandler param exception handler frame) := by
  refine (Run.Confined.openBlock frame).bind fun inner => ?_
  have hstatements := h.execStatements inner hhandler
  cases param with
  | none => exact hstatements
  | some param => exact (Run.Confined.bindName _ _ _).bind fun _ => hstatements

theorem bindGuarded {block : List Stmt} (hblock : ∀ stmt ∈ block, stmt.Enclosed n)
    (param : Option String) {handler : Option (List Stmt)}
    (hhandler : ∀ body ∈ handler, ∀ stmt ∈ body, stmt.Enclosed n)
    {f : Except Abrupt Unit → Run α}
    (hf : ∀ ending, (∀ e, ending = .error e → e.Enclosed n) → Run.Confined n (f ending)) :
    Run.Confined n (self.execGuarded block param handler frame >>= f) := by
  unfold Evaluator.execGuarded
  rw [bind_assoc]
  refine .bindAttempt (h.execBlock frame hblock) fun ending hending => ?_
  split
  · exact .bindAttempt (h.execHandler frame param _ (hhandler _ rfl)) hf
  · exact hf ending hending

theorem execAttempt {block : List Stmt} (hblock : ∀ stmt ∈ block, stmt.Enclosed n)
    (param : Option String) {handler finalizer : Option (List Stmt)}
    (hhandler : ∀ body ∈ handler, ∀ stmt ∈ body, stmt.Enclosed n)
    (hfinalizer : ∀ body ∈ finalizer, ∀ stmt ∈ body, stmt.Enclosed n) :
    Run.Confined n (self.execAttempt block param handler finalizer frame) := by
  refine h.bindGuarded frame hblock param hhandler fun ending hending => ?_
  cases finalizer with
  | none => exact .ended hending
  | some finalizer =>
    dsimp only
    split
    · exact .ended hending
    · refine (h.execBlock frame (hfinalizer finalizer rfl)).aside.bind fun _ => ?_
      exact .ended hending

theorem execKind {kind : StmtKind} (hkind : kind.Enclosed n) :
    Run.Confined n (self.execKind kind frame) := by
  cases hkind with
  | expression he => exact (h.eval frame he).bind fun value => .setCompletion value
  | declare hdeclarations => exact h.execDeclarations frame _ hdeclarations
  | function | empty => exact .pure _
  | block hbody => exact h.execBlock frame hbody
  | @branch _ _ _ alternate htest hconsequent halternate =>
    refine (h.eval frame htest).bind fun test => ?_
    split
    · exact h.exec frame hconsequent
    · cases alternate with
      | none => exact .pure _
      | some alternate => exact h.exec frame (halternate alternate rfl)
  | whileLoop htest hbody => exact (h.whileRound frame htest hbody).repeatWhile
  | doLoop hbody htest => exact (h.doRound frame hbody htest).repeatWhile
  | forLoop hinit htest hupdate hbody => exact h.execFor frame hinit htest hupdate hbody
  | breakOff | continueOn => exact .error (Nat.succ_pos _)
  | @returnWith _ value hvalue =>
    cases value with
    | none => exact .error trivial
    | some e => exact (h.eval frame (hvalue e rfl)).bind fun value => .error trivial
  | throwing hvalue => exact (h.eval frame hvalue).bind fun value => .raise value
  | attempt hblock hhandler hfinalizer => exact h.execAttempt frame hblock _ hhandler hfinalizer

theorem execStmt {stmt : Stmt} (hstmt : stmt.Enclosed n) :
    Run.Confined n (self.execStmt stmt frame) := by
  refine (Run.Confined.setLine _).bind fun _ => Run.Confined.safePoint.bind fun _ => ?_
  exact h.execKind frame hstmt.kind

omit h frame in
theorem ofDepth (depth : Nat) : (Evaluator.ofDepth depth).Confined := by
  induction depth with
  | zero => exact ⟨fun _ _ => .complain .stackOverflow, fun _ _ => .complain .stackOverflow⟩
  | succ depth ih =>
    exact ⟨fun frame he => (ih.evalExpr frame he).nested,
      fun frame hstmt => (ih.execStmt frame hstmt).nested⟩

end Confined

end Evaluator

/-! ## Whole runs -/

namespace Run

theorem confined_program {body : Source.Program} (hbody : ∀ stmt ∈ body, stmt.Enclosed 0) :
    Confined 0 (program body) := by
  refine Confined.setting.bind fun s => ?_
  refine ((Evaluator.Confined.ofDepth nestingLimit).execStatements _ hbody).bind fun _ => ?_
  exact fun _ _ hm => hm

theorem confined_dispatch (handler : String) {event : Heap.Step Value}
    (hevent : Heap.Guards event) : Confined 0 (dispatch handler event) := by
  refine Confined.safePoint.bind fun _ => Confined.setting.bind fun s => ?_
  refine .bindHeap fun heap _ => ?_
  dsimp only
  split
  · refine (Confined.onHeap hevent).bind fun event => ?_
    exact (Evaluator.Confined.ofDepth nestingLimit).call _ _ _ _
  · exact .pure _

end Run

end ScriptHost
