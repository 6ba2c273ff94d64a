import ScriptHost.Gauge
import ScriptHost.Source.Fault

/-!
The tokens still to be parsed, and the steps that look at them and take them.
-/

namespace ScriptHost.Source

/--
The line of the token taken last, the tokens left, of which the last is the end of the text, the
number of loops around the present statement, and the nesting of statements and expressions.
-/
structure Stream where
  previous : Nat
  tokens : List Token
  loops : Nat
  nesting : Gauge
  deriving DecidableEq, Repr

namespace Stream

def ofTokens (tokens : List Token) : Stream :=
  ⟨(tokens.head?.map Token.line).getD 1, tokens, 0, .zero⟩

def token (s : Stream) : Token :=
  s.tokens.headD ⟨.stop, s.previous⟩

def lexeme (s : Stream) : Lexeme :=
  s.token.lexeme

def line (s : Stream) : Nat :=
  s.token.line

def advance (s : Stream) : Stream :=
  { s with previous := s.line, tokens := s.tokens.tail }

end Stream

def nestingLimit : Nat := 256

abbrev Parsing := EStateM Fault Stream

namespace Parsing

def peek : Parsing Lexeme :=
  fun s => .ok s.lexeme s

def line : Parsing Nat :=
  fun s => .ok s.line s

def advance : Parsing Unit :=
  fun s => .ok () s.advance

def fail (cause : Cause) : Parsing α :=
  fun s => .error ⟨cause, s.line⟩ s

def unexpected : Parsing α :=
  fun s => .error ⟨.unexpected s.lexeme, s.line⟩ s

def sees (p : Punct) : Parsing Bool :=
  fun s => .ok (s.lexeme = .punct p) s

def atEnd : Parsing Bool :=
  fun s => .ok (s.lexeme = .stop) s

def afterLineBreak : Parsing Bool :=
  fun s => .ok (s.previous < s.line) s

def takes (lexeme : Lexeme) : Parsing Bool :=
  fun s => if s.lexeme = lexeme then .ok true s.advance else .ok false s

def takesPunct (p : Punct) : Parsing Bool :=
  takes (.punct p)

def takesKeyword (k : Keyword) : Parsing Bool :=
  takes (.keyword k)

def expect (p : Punct) : Parsing Unit := do
  if ← takesPunct p then pure () else unexpected

def expectName : Parsing String := do
  match ← peek with
  | .name x => do
      advance
      pure x
  | _ => unexpected

/-- One level deeper, which is refused at the nesting limit. -/
def nested (inner : Parsing α) : Parsing α :=
  fun s =>
    if nestingLimit ≤ s.nesting.level then .error ⟨.tooDeep, s.line⟩ s
    else
      match inner { s with nesting := s.nesting.enter } with
      | .ok a t => .ok a { t with nesting := t.nesting.leave }
      | .error fault t => .error fault { t with nesting := t.nesting.leave }

def inLoop (inner : Parsing α) : Parsing α :=
  fun s =>
    match inner { s with loops := s.loops + 1 } with
    | .ok a t => .ok a { t with loops := t.loops - 1 }
    | .error fault t => .error fault { t with loops := t.loops - 1 }

/-- Inside a function, where the loops around it do not count. -/
def inFunction (inner : Parsing α) : Parsing α :=
  fun s =>
    let loops := s.loops
    match inner { s with loops := 0 } with
    | .ok a t => .ok a { t with loops := loops }
    | .error fault t => .error fault { t with loops := loops }

/-- The tokens given bound the rounds, one for each. -/
def repeatAlong (step : σ → Parsing (σ ⊕ α)) : List Token → σ → Parsing α
  | [], _ => unexpected
  | _ :: bound, state => do
      match ← step state with
      | .inl state => repeatAlong step bound state
      | .inr result => pure result

/-- Repeats a step that takes a token whenever it does not answer. -/
def repeatUntil (step : σ → Parsing (σ ⊕ α)) (seed : σ) : Parsing α :=
  fun s => repeatAlong step s.tokens seed s

/-- One more item, unless the closing punctuator stands in its place. -/
def sequenceStep (close : Punct) (item : Parsing α) (found : Array α) :
    Parsing (Array α ⊕ List α) := do
  if ← takesPunct close then pure (.inr found.toList)
  else do
    let next ← item
    let found := found.push next
    if ← takesPunct .comma then pure (.inl found)
    else do
      expect close
      pure (.inr found.toList)

/-- Items between commas up to a closing punctuator, in front of which a comma may stand too. -/
def sequence (close : Punct) (item : Parsing α) : Parsing (List α) :=
  repeatUntil (sequenceStep close item) #[]

end Parsing

end ScriptHost.Source
