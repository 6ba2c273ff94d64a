import ScriptHost.Source.Tree

/-!
Statements that leave a loop, and the loops they stand in. Loops are counted up to the function
around; those around the function do not count.
-/

namespace ScriptHost.Source

mutual

inductive Expr.Enclosed : Expr → Prop
  | number {x : Float} : Expr.Enclosed (.number x)
  | string {s : String} : Expr.Enclosed (.string s)
  | bool {b : Bool} : Expr.Enclosed (.bool b)
  | null : Expr.Enclosed .null
  | undefined : Expr.Enclosed .undefined
  | this : Expr.Enclosed .this
  | name {x : String} : Expr.Enclosed (.name x)
  | array {items : List Expr} : (∀ e ∈ items, Expr.Enclosed e) → Expr.Enclosed (.array items)
  | object {entries : List (String × Expr)} :
      (∀ entry ∈ entries, Expr.Enclosed entry.2) → Expr.Enclosed (.object entries)
  | function {f : Function} : Function.Enclosed f → Expr.Enclosed (.function f)
  | unary {op : UnaryOp} {operand : Expr} : Expr.Enclosed operand → Expr.Enclosed (.unary op operand)
  | binary {op : BinaryOp} {left right : Expr} :
      Expr.Enclosed left → Expr.Enclosed right → Expr.Enclosed (.binary op left right)
  | logical {op : LogicalOp} {left right : Expr} :
      Expr.Enclosed left → Expr.Enclosed right → Expr.Enclosed (.logical op left right)
  | conditional {test consequent alternate : Expr} :
      Expr.Enclosed test → Expr.Enclosed consequent → Expr.Enclosed alternate →
      Expr.Enclosed (.conditional test consequent alternate)
  | assign {op : Option BinaryOp} {target value : Expr} :
      Expr.Enclosed target → Expr.Enclosed value → Expr.Enclosed (.assign op target value)
  | update {increment before : Bool} {target : Expr} :
      Expr.Enclosed target → Expr.Enclosed (.update increment before target)
  | member {object : Expr} {property : String} :
      Expr.Enclosed object → Expr.Enclosed (.member object property)
  | index {object key : Expr} :
      Expr.Enclosed object → Expr.Enclosed key → Expr.Enclosed (.index object key)
  | call {callee : Expr} {args : List Expr} :
      Expr.Enclosed callee → (∀ e ∈ args, Expr.Enclosed e) → Expr.Enclosed (.call callee args)
  | construct {callee : Expr} {args : List Expr} :
      Expr.Enclosed callee → (∀ e ∈ args, Expr.Enclosed e) → Expr.Enclosed (.construct callee args)

/-- The statement stands in as many loops, and one that leaves a loop stands in one at least. -/
inductive StmtKind.Enclosed : Nat → StmtKind → Prop
  | expression {n : Nat} {e : Expr} : Expr.Enclosed e → StmtKind.Enclosed n (.expression e)
  | declare {n : Nat} {binder : Binder} {declarations : List (String × Option Expr)} :
      (∀ d ∈ declarations, ∀ e ∈ d.2, Expr.Enclosed e) →
      StmtKind.Enclosed n (.declare binder declarations)
  | function {n : Nat} {f : Function} : Function.Enclosed f → StmtKind.Enclosed n (.function f)
  | block {n : Nat} {body : List Stmt} :
      (∀ stmt ∈ body, Stmt.Enclosed n stmt) → StmtKind.Enclosed n (.block body)
  | branch {n : Nat} {test : Expr} {consequent : Stmt} {alternate : Option Stmt} :
      Expr.Enclosed test → Stmt.Enclosed n consequent →
      (∀ stmt ∈ alternate, Stmt.Enclosed n stmt) →
      StmtKind.Enclosed n (.branch test consequent alternate)
  | whileLoop {n : Nat} {test : Expr} {body : Stmt} :
      Expr.Enclosed test → Stmt.Enclosed (n + 1) body → StmtKind.Enclosed n (.whileLoop test body)
  | doLoop {n : Nat} {body : Stmt} {test : Expr} :
      Stmt.Enclosed (n + 1) body → Expr.Enclosed test → StmtKind.Enclosed n (.doLoop body test)
  | forLoop {n : Nat} {init : Option Stmt} {test update : Option Expr} {body : Stmt} :
      (∀ stmt ∈ init, Stmt.Enclosed n stmt) → (∀ e ∈ test, Expr.Enclosed e) →
      (∀ e ∈ update, Expr.Enclosed e) → Stmt.Enclosed (n + 1) body →
      StmtKind.Enclosed n (.forLoop init test update body)
  | breakOff {n : Nat} : StmtKind.Enclosed (n + 1) .breakOff
  | continueOn {n : Nat} : StmtKind.Enclosed (n + 1) .continueOn
  | returnWith {n : Nat} {value : Option Expr} :
      (∀ e ∈ value, Expr.Enclosed e) → StmtKind.Enclosed n (.returnWith value)
  | throwing {n : Nat} {value : Expr} : Expr.Enclosed value → StmtKind.Enclosed n (.throwing value)
  | attempt {n : Nat} {block : List Stmt} {param : Option String}
      {handler finalizer : Option (List Stmt)} :
      (∀ stmt ∈ block, Stmt.Enclosed n stmt) →
      (∀ body ∈ handler, ∀ stmt ∈ body, Stmt.Enclosed n stmt) →
      (∀ body ∈ finalizer, ∀ stmt ∈ body, Stmt.Enclosed n stmt) →
      StmtKind.Enclosed n (.attempt block param handler finalizer)
  | empty {n : Nat} : StmtKind.Enclosed n .empty

inductive Stmt.Enclosed : Nat → Stmt → Prop
  | mk {n line : Nat} {kind : StmtKind} :
      StmtKind.Enclosed n kind → Stmt.Enclosed n (.mk line kind)

inductive Function.Enclosed : Function → Prop
  | mk {name : Option String} {params : List String} {body : List Stmt} :
      (∀ stmt ∈ body, Stmt.Enclosed 0 stmt) → Function.Enclosed (.mk name params body)

end

theorem Function.Enclosed.body {f : Function} (h : f.Enclosed) :
    ∀ stmt ∈ f.body, stmt.Enclosed 0 := by
  cases h with
  | mk hbody => exact hbody

theorem Stmt.Enclosed.kind {n : Nat} {stmt : Stmt} (h : stmt.Enclosed n) :
    stmt.kind.Enclosed n := by
  cases h with
  | mk hkind => exact hkind

end ScriptHost.Source
