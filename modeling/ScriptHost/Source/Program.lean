import ScriptHost.Source.Expression
import ScriptHost.Source.Lexer

/-!
Statements and whole programs parsed from tokens.
-/

namespace ScriptHost.Source

namespace Grammar

open Parsing

/--
A statement ends at a semicolon, in front of a closing brace, at the end of the text and at a line
break.
-/
def endStatement : Parsing Unit := do
  if ← takesPunct .semicolon then pure ()
  else if ← sees .closeBrace then pure ()
  else if ← atEnd then pure ()
  else if ← afterLineBreak then pure ()
  else unexpected

def binder? : Lexeme → Option Binder
  | .keyword .letWord => some .mutable
  | .keyword .constWord => some .constant
  | .keyword .varWord => some .variable
  | _ => none

def declarator (g : Grammar) (binder : Binder) : Parsing (String × Option Expr) := do
  let name ← expectName
  if ← takesPunct .assign then do
    let value ← g.assignment
    pure (name, some value)
  else if binder = .constant then fail .constWithoutValue
  else pure (name, none)

def declarationStep (g : Grammar) (binder : Binder) (found : Array (String × Option Expr)) :
    Parsing (Array (String × Option Expr) ⊕ StmtKind) := do
  let next ← g.declarator binder
  let found := found.push next
  if ← takesPunct .comma then pure (.inl found)
  else pure (.inr (.declare binder found.toList))

def declaration (g : Grammar) (binder : Binder) : Parsing StmtKind :=
  repeatUntil (g.declarationStep binder) #[]

def condition (g : Grammar) : Parsing Expr := do
  expect .openParen
  let test ← g.expression
  expect .closeParen
  pure test

def loopBody (g : Grammar) : Parsing Stmt :=
  inLoop g.statement

def branch (g : Grammar) : Parsing StmtKind := do
  let test ← g.condition
  let consequent ← g.statement
  if ← takesKeyword .elseWord then do
    let alternate ← g.statement
    pure (.branch test consequent (some alternate))
  else pure (.branch test consequent none)

def whileLoop (g : Grammar) : Parsing StmtKind := do
  let test ← g.condition
  let body ← g.loopBody
  pure (.whileLoop test body)

def doLoop (g : Grammar) : Parsing StmtKind := do
  let body ← g.loopBody
  if ← takesKeyword .whileWord then do
    let test ← g.condition
    let _ ← takesPunct .semicolon
    pure (.doLoop body test)
  else unexpected

def loopInit (g : Grammar) : Parsing (Option Stmt) := do
  if ← takesPunct .semicolon then pure none
  else do
    let line ← line
    let kind ← match binder? (← peek) with
      | some binder => do
          advance
          g.declaration binder
      | none => .expression <$> g.expression
    if ← takesPunct .semicolon then pure (some (.mk line kind))
    else fail .loopHeader

def optionalBefore (g : Grammar) (close : Punct) : Parsing (Option Expr) := do
  let found ← if ← sees close then pure none else some <$> g.expression
  expect close
  pure found

def forLoop (g : Grammar) : Parsing StmtKind := do
  expect .openParen
  let init ← g.loopInit
  let test ← g.optionalBefore .semicolon
  let update ← g.optionalBefore .closeParen
  let body ← g.loopBody
  pure (.forLoop init test update body)

def catchParam : Parsing (Option String) := do
  if ← takesPunct .openParen then do
    let name ← expectName
    expect .closeParen
    pure (some name)
  else pure none

def attempt (g : Grammar) : Parsing StmtKind := do
  let block ← g.block
  let (param, handler) ← if ← takesKeyword .catchWord then do
      let param ← catchParam
      let handler ← g.block
      pure (param, some handler)
    else pure (none, none)
  let finalizer ← if ← takesKeyword .finallyWord then some <$> g.block else pure none
  if handler.isNone && finalizer.isNone then fail .tryAlone
  else pure (.attempt block param handler finalizer)

def leaveLoop (line : Nat) (outside : Cause) (kind : StmtKind) : Parsing StmtKind :=
  fun s =>
    if s.loops = 0 then .error ⟨outside, line⟩ s
    else (do
      endStatement
      pure kind : Parsing StmtKind) s

/-- The value begins on the line of the word `return`, if there is one. -/
def returnRest (g : Grammar) (line : Nat) : Parsing StmtKind := do
  let endsHere := (← sees .semicolon) || (← sees .closeBrace) || (← atEnd)
    || line < (← Parsing.line)
  let value ← if endsHere then pure none else some <$> g.expression
  endStatement
  pure (.returnWith value)

def throwRest (g : Grammar) (line : Nat) : Parsing StmtKind := do
  if line < (← Parsing.line) then fail .lineBreakAfterThrow
  else do
    let value ← g.expression
    endStatement
    pure (.throwing value)

def expressionStatement (g : Grammar) : Parsing StmtKind := do
  let e ← g.expression
  endStatement
  pure (.expression e)

def statementKind (g : Grammar) (line : Nat) : Parsing StmtKind := do
  match ← peek with
  | .punct .openBrace => do
      advance
      .block <$> g.blockRest
  | .punct .semicolon => do advance; pure .empty
  | .keyword .functionWord => do
      advance
      .function <$> g.functionRest true
  | .keyword .ifWord => do advance; g.branch
  | .keyword .whileWord => do advance; g.whileLoop
  | .keyword .doWord => do advance; g.doLoop
  | .keyword .forWord => do advance; g.forLoop
  | .keyword .breakWord => do advance; leaveLoop line .strayBreak .breakOff
  | .keyword .continueWord => do advance; leaveLoop line .strayContinue .continueOn
  | .keyword .returnWord => do advance; g.returnRest line
  | .keyword .throwWord => do advance; g.throwRest line
  | .keyword .tryWord => do advance; g.attempt
  | next =>
      match binder? next with
      | some binder => do
          advance
          let kind ← g.declaration binder
          endStatement
          pure kind
      | none => g.expressionStatement

def statementBody (g : Grammar) : Parsing Stmt := do
  let line ← Parsing.line
  let kind ← g.statementKind line
  pure (.mk line kind)

def exhausted : Grammar where
  statement := fail .tooDeep
  assignment := fail .tooDeep
  unary := fail .tooDeep

/-- The parsers that may nest one level deeper than those given. -/
def deeper (g : Grammar) : Grammar where
  statement := nested g.statementBody
  assignment := nested g.assignmentBody
  unary := nested g.unaryBody

def ofDepth : Nat → Grammar
  | 0 => exhausted
  | depth + 1 => deeper (ofDepth depth)

def full : Grammar :=
  ofDepth nestingLimit

def programStep (g : Grammar) (found : Array Stmt) : Parsing (Array Stmt ⊕ Program) := do
  if ← atEnd then pure (.inr found.toList)
  else do
    let next ← g.statement
    pure (.inl (found.push next))

def program (g : Grammar) : Parsing Program :=
  repeatUntil g.programStep #[]

end Grammar

def parseTokens (tokens : List Token) : Except Fault Program :=
  match Grammar.full.program (.ofTokens tokens) with
  | .ok program _ => .ok program
  | .error fault _ => .error fault

def parse (source : String) : Except Fault Program := do
  let tokens ← tokenize source
  parseTokens tokens

end ScriptHost.Source
