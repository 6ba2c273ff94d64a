import Mathlib.Data.List.Basic
import ScriptHost.Source.Expression

/-!
Expressions written as tokens, with the fewest parentheses that their levels allow.
-/

namespace ScriptHost.Source

/-! ## Levels -/

def Rank.level : Rank → Nat
  | equality => 4
  | relational => 5
  | additive => 6
  | multiplicative => 7

def LogicalOp.level : LogicalOp → Nat
  | or => 2
  | and => 3

/-! ## Signs -/

def UnaryOp.lexeme : UnaryOp → Lexeme
  | not => .punct .bang
  | negate => .punct .minus
  | plus => .punct .plus
  | typeOf => .keyword .typeofWord

theorem UnaryOp.unary?_lexeme (op : UnaryOp) : unary? op.lexeme = some op := by
  cases op <;> rfl

def updatePunct (increment : Bool) : Punct :=
  if increment then .plusPlus else .minusMinus

theorem update?_updatePunct (increment : Bool) :
    update? (.punct (updatePunct increment)) = some increment := by
  cases increment <;> rfl

/-- The sign of an assignment. Only arithmetic can be combined with one. -/
def assignmentPunct : Option BinaryOp → Punct
  | some .add => .plusAssign
  | some .subtract => .minusAssign
  | some .multiply => .timesAssign
  | some .divide => .divideAssign
  | some .remainder => .remainderAssign
  | _ => .assign

/-! ## Tokens -/

def parenthesized (tokens : List Lexeme) : List Lexeme :=
  .punct .openParen :: tokens ++ [.punct .closeParen]

/-- Tokens of an expression of the level given, where one as tight as asked for is needed. -/
def guarded (asked level : Nat) (tokens : List Lexeme) : List Lexeme :=
  if level < asked then parenthesized tokens else tokens

def separated (items : List (List Lexeme)) : List Lexeme :=
  [.punct .comma].intercalate items

/-- What the object of a property has to be: no call, if it stands behind `new`. -/
def spine (asked : Nat) : Nat :=
  if asked = 11 then 11 else 10

mutual

/--
The tokens of an expression where one at least as tight as the level asked for is needed. Levels
rise from assignments to properties. Behind `new` no call may stand, so properties bind more tightly
than calls.
-/
def Expr.render (asked : Nat) : Expr → List Lexeme
  | .number x => [.number x]
  | .string s => [.string s]
  | .bool b => [.keyword (if b then .trueWord else .falseWord)]
  | .null => [.keyword .nullWord]
  | .undefined => [.keyword .undefinedWord]
  | .this => [.keyword .thisWord]
  | .name x => [.name x]
  | .array items =>
      .punct .openBracket :: separated (renderItems items) ++ [.punct .closeBracket]
  | .object entries =>
      .punct .openBrace :: separated (renderEntries entries) ++ [.punct .closeBrace]
  | .function _ => []
  | .unary op operand => guarded asked 8 (op.lexeme :: operand.render 8)
  | .binary op left right =>
      guarded asked op.rank.level
        (left.render op.rank.level ++ .punct op.punct :: right.render (op.rank.level + 1))
  | .logical op left right =>
      guarded asked op.level
        (left.render op.level ++ .punct op.punct :: right.render (op.level + 1))
  | .conditional test consequent alternate =>
      guarded asked 1
        (test.render 2 ++ .punct .question :: (consequent.render 0 ++
          .punct .colon :: alternate.render 0))
  | .assign op target value =>
      guarded asked 0 (target.render 1 ++ .punct (assignmentPunct op) :: value.render 0)
  | .update increment true target =>
      guarded asked 8 (.punct (updatePunct increment) :: target.render 8)
  | .update increment false target =>
      guarded asked 9 (target.render 10 ++ [.punct (updatePunct increment)])
  | .member object property =>
      guarded asked 11 (object.render (spine asked) ++ [.punct .dot, .name property])
  | .index object key =>
      guarded asked 11 (object.render (spine asked) ++
        .punct .openBracket :: (key.render 0 ++ [.punct .closeBracket]))
  | .call callee args =>
      guarded asked 10 (callee.render 10 ++
        .punct .openParen :: (separated (renderItems args) ++ [.punct .closeParen]))
  | .construct callee args =>
      guarded asked 10 (.keyword .newWord :: (callee.render 11 ++
        .punct .openParen :: (separated (renderItems args) ++ [.punct .closeParen])))

def renderItems : List Expr → List (List Lexeme)
  | [] => []
  | e :: rest => e.render 0 :: renderItems rest

def renderEntries : List (String × Expr) → List (List Lexeme)
  | [] => []
  | (key, e) :: rest => (.string key :: .punct .colon :: e.render 0) :: renderEntries rest

end

mutual

/-- How deep an expression is nested; what stands for itself is not nested at all. -/
@[simp] def Expr.depth : Expr → Nat
  | .array items => depthOfItems items + 1
  | .object entries => depthOfEntries entries + 1
  | .unary _ operand => operand.depth + 1
  | .binary _ left right => max left.depth right.depth + 1
  | .logical _ left right => max left.depth right.depth + 1
  | .conditional test consequent alternate =>
      max test.depth (max consequent.depth alternate.depth) + 1
  | .assign _ target value => max target.depth value.depth + 1
  | .update _ _ target => target.depth + 1
  | .member object _ => object.depth + 1
  | .index object key => max object.depth key.depth + 1
  | .call callee args => max callee.depth (depthOfItems args) + 1
  | .construct callee args => max callee.depth (depthOfItems args) + 1
  | _ => 0

def depthOfItems : List Expr → Nat
  | [] => 0
  | e :: rest => max e.depth (depthOfItems rest)

def depthOfEntries : List (String × Expr) → Nat
  | [] => 0
  | (_, e) :: rest => max e.depth (depthOfEntries rest)

end

/-- Expressions that tokens can be written for: no function, and every target can be assigned. -/
inductive Expr.Printable : Expr → Prop
  | number (x : Float) : Printable (.number x)
  | string (s : String) : Printable (.string s)
  | bool (b : Bool) : Printable (.bool b)
  | null : Printable .null
  | undefined : Printable .undefined
  | this : Printable .this
  | name (x : String) : Printable (.name x)
  | array {items : List Expr} : (∀ e ∈ items, Printable e) → Printable (.array items)
  | object {entries : List (String × Expr)} :
      (∀ p ∈ entries, Printable p.2) → Printable (.object entries)
  | unary (op : UnaryOp) {operand : Expr} : Printable operand → Printable (.unary op operand)
  | binary (op : BinaryOp) {left right : Expr} :
      Printable left → Printable right → Printable (.binary op left right)
  | logical (op : LogicalOp) {left right : Expr} :
      Printable left → Printable right → Printable (.logical op left right)
  | conditional {test consequent alternate : Expr} :
      Printable test → Printable consequent → Printable alternate →
      Printable (.conditional test consequent alternate)
  | assign {op : Option BinaryOp} {target value : Expr} :
      assignment? (.punct (assignmentPunct op)) = some op → target.isAssignable = true →
      Printable target → Printable value → Printable (.assign op target value)
  | update (increment before : Bool) {target : Expr} :
      target.isAssignable = true → Printable target → Printable (.update increment before target)
  | member {object : Expr} (property : String) :
      Printable object → Printable (.member object property)
  | index {object key : Expr} : Printable object → Printable key → Printable (.index object key)
  | call {callee : Expr} {args : List Expr} :
      Printable callee → (∀ e ∈ args, Printable e) → Printable (.call callee args)
  | construct {callee : Expr} {args : List Expr} :
      Printable callee → (∀ e ∈ args, Printable e) → Printable (.construct callee args)

theorem renderItems_eq_map (items : List Expr) : renderItems items = items.map (Expr.render 0) := by
  induction items with
  | nil => rfl
  | cons e rest ih => simp [renderItems, ih]

theorem renderEntries_eq_map (entries : List (String × Expr)) :
    renderEntries entries =
      entries.map fun p => .string p.1 :: .punct .colon :: p.2.render 0 := by
  induction entries with
  | nil => rfl
  | cons p rest ih => simp [renderEntries, ih]

theorem depth_le_depthOfItems {items : List Expr} {e : Expr} (h : e ∈ items) :
    e.depth ≤ depthOfItems items := by
  induction items with
  | nil => simp at h
  | cons first rest ih =>
      simp only [depthOfItems]
      rcases List.mem_cons.mp h with rfl | hrest
      · omega
      · have := ih hrest
        omega

theorem depth_le_depthOfEntries {entries : List (String × Expr)} {p : String × Expr}
    (h : p ∈ entries) : p.2.depth ≤ depthOfEntries entries := by
  induction entries with
  | nil => simp at h
  | cons first rest ih =>
      simp only [depthOfEntries]
      rcases List.mem_cons.mp h with rfl | hrest
      · omega
      · have := ih hrest
        omega

end ScriptHost.Source
