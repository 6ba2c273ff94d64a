import ScriptHost.Source.Stream
import ScriptHost.Source.Tree

/-!
Expressions parsed from tokens. The parsers here take those for the next nesting level, so each is
an ordinary function.
-/

namespace ScriptHost.Source

/-- Binary operators of one rank bind alike and group to the left; later ranks bind tighter. -/
inductive Rank where
  | equality
  | relational
  | additive
  | multiplicative
  deriving DecidableEq, Repr

namespace BinaryOp

def rank : BinaryOp → Rank
  | strictEqual | strictNotEqual | equal | notEqual => .equality
  | lessEqual | greaterEqual | less | greater => .relational
  | add | subtract => .additive
  | multiply | divide | remainder => .multiplicative

def punct : BinaryOp → Punct
  | add => .plus
  | subtract => .minus
  | multiply => .star
  | divide => .slash
  | remainder => .percent
  | less => .less
  | lessEqual => .lessEqual
  | greater => .greater
  | greaterEqual => .greaterEqual
  | equal => .equal
  | notEqual => .notEqual
  | strictEqual => .strictEqual
  | strictNotEqual => .strictNotEqual

def all : List BinaryOp :=
  [add, subtract, multiply, divide, remainder, less, lessEqual, greater, greaterEqual, equal,
    notEqual, strictEqual, strictNotEqual]

def ofLexeme? (rank : Rank) (lexeme : Lexeme) : Option BinaryOp :=
  all.find? fun op => op.rank = rank && lexeme = .punct op.punct

theorem ofLexeme?_punct (op : BinaryOp) : ofLexeme? op.rank (.punct op.punct) = some op := by
  cases op <;> decide

end BinaryOp

def LogicalOp.punct : LogicalOp → Punct
  | .and => .andAnd
  | .or => .orOr

/-- An assignment, with the operator it combines the old value by. -/
def assignment? : Lexeme → Option (Option BinaryOp)
  | .punct .assign => some none
  | .punct .plusAssign => some (some .add)
  | .punct .minusAssign => some (some .subtract)
  | .punct .timesAssign => some (some .multiply)
  | .punct .divideAssign => some (some .divide)
  | .punct .remainderAssign => some (some .remainder)
  | _ => none

def update? : Lexeme → Option Bool
  | .punct .plusPlus => some true
  | .punct .minusMinus => some false
  | _ => none

def unary? : Lexeme → Option UnaryOp
  | .punct .bang => some .not
  | .punct .minus => some .negate
  | .punct .plus => some .plus
  | .keyword .typeofWord => some .typeOf
  | _ => none

structure Grammar where
  statement : Parsing Stmt
  assignment : Parsing Expr
  unary : Parsing Expr

namespace Grammar

open Parsing

def expression (g : Grammar) : Parsing Expr :=
  g.assignment

/-- One more statement, unless the block ends in its place. -/
def blockStep (g : Grammar) (found : Array Stmt) : Parsing (Array Stmt ⊕ List Stmt) := do
  if ← takesPunct .closeBrace then pure (.inr found.toList)
  else if ← atEnd then unexpected
  else do
    let next ← g.statement
    pure (.inl (found.push next))

def blockRest (g : Grammar) : Parsing (List Stmt) :=
  repeatUntil g.blockStep #[]

def block (g : Grammar) : Parsing (List Stmt) := do
  expect .openBrace
  g.blockRest

def functionRest (g : Grammar) (named : Bool) : Parsing Function := do
  let name ← match ← peek with
    | .name x => do
        advance
        pure (some x)
    | _ => if named then fail .unnamedFunction else pure none
  expect .openParen
  let params ← sequence .closeParen expectName
  let body ← inFunction g.block
  pure (.mk name params body)

/-- Behind a dot, or as a key; keywords are names here. -/
def propertyName : Parsing String := do
  match ← peek with
  | .name x => do
      advance
      pure x
  | .keyword k => do
      advance
      pure k.text
  | _ => unexpected

def key : Parsing String := do
  match ← peek with
  | .string s => do
      advance
      pure s
  | .number x => do
      advance
      pure (Number.text x)
  | _ => propertyName

/-- A key and its value, which is the variable of that name where none is given. -/
def entry (g : Grammar) : Parsing (String × Expr) := do
  let key ← key
  if ← takesPunct .colon then do
    let value ← g.assignment
    pure (key, value)
  else pure (key, .name key)

def parenthesized (g : Grammar) : Parsing Expr := do
  let inner ← g.expression
  expect .closeParen
  pure inner

def primary (g : Grammar) : Parsing Expr := do
  match ← peek with
  | .number x => do advance; pure (.number x)
  | .string s => do advance; pure (.string s)
  | .name x => do advance; pure (.name x)
  | .keyword .trueWord => do advance; pure (.bool true)
  | .keyword .falseWord => do advance; pure (.bool false)
  | .keyword .nullWord => do advance; pure .null
  | .keyword .undefinedWord => do advance; pure .undefined
  | .keyword .thisWord => do advance; pure .this
  | .keyword .functionWord => do
      advance
      let f ← g.functionRest false
      pure (.function f)
  | .punct .openParen => do
      advance
      g.parenthesized
  | .punct .openBracket => do
      advance
      let items ← sequence .closeBracket g.assignment
      pure (.array items)
  | .punct .openBrace => do
      advance
      let entries ← sequence .closeBrace g.entry
      pure (.object entries)
  | _ => unexpected

def arguments (g : Grammar) : Parsing (List Expr) := do
  expect .openParen
  sequence .closeParen g.assignment

/-- A property, or a call where one is allowed, behind an expression. -/
def link (g : Grammar) (calls : Bool) (e : Expr) : Parsing (Expr ⊕ Expr) := do
  if ← takesPunct .dot then do
    let property ← propertyName
    pure (.inl (.member e property))
  else if ← takesPunct .openBracket then do
    let key ← g.expression
    expect .closeBracket
    pure (.inl (.index e key))
  else if calls && (← sees .openParen) then do
    let args ← g.arguments
    pure (.inl (.call e args))
  else pure (.inr e)

def chain (g : Grammar) (calls : Bool) (first : Expr) : Parsing Expr :=
  repeatUntil (g.link calls) first

def callee (g : Grammar) : Parsing Expr := do
  let first ← g.primary
  g.chain false first

def construction (g : Grammar) : Parsing Expr := do
  let callee ← g.callee
  if ← sees .openParen then do
    let args ← g.arguments
    pure (.construct callee args)
  else pure (.construct callee [])

/-- What properties and calls may follow. -/
def head (g : Grammar) : Parsing Expr := do
  if ← takesKeyword .newWord then g.construction else g.primary

def callMember (g : Grammar) : Parsing Expr := do
  let first ← g.head
  g.chain true first

/-- An update sign on a new line belongs to the next statement. -/
def postfixed (g : Grammar) : Parsing Expr := do
  let e ← g.callMember
  match update? (← peek) with
  | none => pure e
  | some increment =>
      if ← afterLineBreak then pure e
      else if !e.isAssignable then fail .postfixTarget
      else do
        advance
        pure (.update increment false e)

def unaryBody (g : Grammar) : Parsing Expr := do
  let next ← peek
  match unary? next, update? next with
  | some op, _ => do
      advance
      let operand ← g.unary
      pure (.unary op operand)
  | none, some increment => do
      advance
      let target ← g.unary
      if !target.isAssignable then fail .prefixTarget
      else pure (.update increment true target)
  | none, none => g.postfixed

def binaryStep (rank : Rank) (operand : Parsing Expr) (left : Expr) : Parsing (Expr ⊕ Expr) := do
  match BinaryOp.ofLexeme? rank (← peek) with
  | some op => do
      advance
      let right ← operand
      pure (.inl (.binary op left right))
  | none => pure (.inr left)

/-- Operands joined by operators of the ranks given, the first of which binds loosest. -/
def ranked (operand : Parsing Expr) : List Rank → Parsing Expr
  | [] => operand
  | rank :: ranks => do
      let first ← ranked operand ranks
      repeatUntil (binaryStep rank (ranked operand ranks)) first

def binary (g : Grammar) : Parsing Expr :=
  ranked g.unary [.equality, .relational, .additive, .multiplicative]

def logicalStep (op : LogicalOp) (operand : Parsing Expr) (left : Expr) :
    Parsing (Expr ⊕ Expr) := do
  if ← takesPunct op.punct then do
    let right ← operand
    pure (.inl (.logical op left right))
  else pure (.inr left)

def conjunction (g : Grammar) : Parsing Expr := do
  let first ← g.binary
  repeatUntil (logicalStep .and g.binary) first

def disjunction (g : Grammar) : Parsing Expr := do
  let first ← g.conjunction
  repeatUntil (logicalStep .or g.conjunction) first

def conditional (g : Grammar) : Parsing Expr := do
  let test ← g.disjunction
  if ← takesPunct .question then do
    let consequent ← g.assignment
    expect .colon
    let alternate ← g.assignment
    pure (.conditional test consequent alternate)
  else pure test

def assignmentBody (g : Grammar) : Parsing Expr := do
  let target ← g.conditional
  match assignment? (← peek) with
  | none => pure target
  | some op =>
      if !target.isAssignable then fail .assignmentTarget
      else do
        advance
        let value ← g.assignment
        pure (.assign op target value)

end Grammar

end ScriptHost.Source
