/-!
Syntax trees of programs.
-/

namespace ScriptHost.Source

inductive Binder where
  | variable
  | mutable
  | constant
  deriving DecidableEq, Repr

inductive UnaryOp where
  | negate
  | plus
  | not
  | typeOf
  deriving DecidableEq, Repr

inductive BinaryOp where
  | add
  | subtract
  | multiply
  | divide
  | remainder
  | less
  | lessEqual
  | greater
  | greaterEqual
  | equal
  | notEqual
  | strictEqual
  | strictNotEqual
  deriving DecidableEq, Repr

inductive LogicalOp where
  | and
  | or
  deriving DecidableEq, Repr

mutual

inductive Expr where
  | number (x : Float)
  | string (s : String)
  | bool (b : Bool)
  | null
  | undefined
  | this
  | name (x : String)
  | array (items : List Expr)
  | object (entries : List (String × Expr))
  | function (f : Function)
  | unary (op : UnaryOp) (operand : Expr)
  | binary (op : BinaryOp) (left right : Expr)
  | logical (op : LogicalOp) (left right : Expr)
  | conditional (test consequent alternate : Expr)
  | assign (op : Option BinaryOp) (target value : Expr)
  | update (increment before : Bool) (target : Expr)
  | member (object : Expr) (property : String)
  | index (object key : Expr)
  | call (callee : Expr) (args : List Expr)
  | construct (callee : Expr) (args : List Expr)

inductive StmtKind where
  | expression (e : Expr)
  | declare (binder : Binder) (declarations : List (String × Option Expr))
  | function (f : Function)
  | block (body : List Stmt)
  | branch (test : Expr) (consequent : Stmt) (alternate : Option Stmt)
  | whileLoop (test : Expr) (body : Stmt)
  | doLoop (body : Stmt) (test : Expr)
  | forLoop (init : Option Stmt) (test update : Option Expr) (body : Stmt)
  | breakOff
  | continueOn
  | returnWith (value : Option Expr)
  | throwing (value : Expr)
  | attempt (block : List Stmt) (param : Option String) (handler finalizer : Option (List Stmt))
  | empty

inductive Stmt where
  | mk (line : Nat) (kind : StmtKind)

inductive Function where
  | mk (name : Option String) (params : List String) (body : List Stmt)

end

instance : Inhabited Expr := ⟨.undefined⟩

def Stmt.line : Stmt → Nat
  | .mk line _ => line

def Stmt.kind : Stmt → StmtKind
  | .mk _ kind => kind

def Function.name : Function → Option String
  | .mk name _ _ => name

def Function.params : Function → List String
  | .mk _ params _ => params

def Function.body : Function → List Stmt
  | .mk _ _ body => body

def Expr.isAssignable : Expr → Bool
  | .name _ => true
  | .member .. => true
  | .index .. => true
  | _ => false

abbrev Program := List Stmt

end ScriptHost.Source
