import ScriptHost.Number.Print

/-!
Tokens of a source text, each with its line.
-/

namespace ScriptHost.Source

inductive Keyword where
  | letWord
  | constWord
  | varWord
  | functionWord
  | returnWord
  | ifWord
  | elseWord
  | whileWord
  | doWord
  | forWord
  | breakWord
  | continueWord
  | throwWord
  | tryWord
  | catchWord
  | finallyWord
  | newWord
  | typeofWord
  | trueWord
  | falseWord
  | nullWord
  | undefinedWord
  | thisWord
  deriving DecidableEq, Repr

namespace Keyword

def text : Keyword → String
  | letWord => "let"
  | constWord => "const"
  | varWord => "var"
  | functionWord => "function"
  | returnWord => "return"
  | ifWord => "if"
  | elseWord => "else"
  | whileWord => "while"
  | doWord => "do"
  | forWord => "for"
  | breakWord => "break"
  | continueWord => "continue"
  | throwWord => "throw"
  | tryWord => "try"
  | catchWord => "catch"
  | finallyWord => "finally"
  | newWord => "new"
  | typeofWord => "typeof"
  | trueWord => "true"
  | falseWord => "false"
  | nullWord => "null"
  | undefinedWord => "undefined"
  | thisWord => "this"

def all : List Keyword :=
  [letWord, constWord, varWord, functionWord, returnWord, ifWord, elseWord, whileWord, doWord,
    forWord, breakWord, continueWord, throwWord, tryWord, catchWord, finallyWord, newWord,
    typeofWord, trueWord, falseWord, nullWord, undefinedWord, thisWord]

def ofText? (s : String) : Option Keyword :=
  all.find? fun k => k.text == s

end Keyword

inductive Punct where
  | strictEqual
  | strictNotEqual
  | equal
  | notEqual
  | lessEqual
  | greaterEqual
  | andAnd
  | orOr
  | plusPlus
  | minusMinus
  | plusAssign
  | minusAssign
  | timesAssign
  | divideAssign
  | remainderAssign
  | openBrace
  | closeBrace
  | openParen
  | closeParen
  | openBracket
  | closeBracket
  | semicolon
  | comma
  | dot
  | question
  | colon
  | assign
  | plus
  | minus
  | star
  | slash
  | percent
  | less
  | greater
  | bang
  | tilde
  deriving DecidableEq, Repr

namespace Punct

def chars : Punct → List Char
  | strictEqual => ['=', '=', '=']
  | strictNotEqual => ['!', '=', '=']
  | equal => ['=', '=']
  | notEqual => ['!', '=']
  | lessEqual => ['<', '=']
  | greaterEqual => ['>', '=']
  | andAnd => ['&', '&']
  | orOr => ['|', '|']
  | plusPlus => ['+', '+']
  | minusMinus => ['-', '-']
  | plusAssign => ['+', '=']
  | minusAssign => ['-', '=']
  | timesAssign => ['*', '=']
  | divideAssign => ['/', '=']
  | remainderAssign => ['%', '=']
  | openBrace => ['\x7b']
  | closeBrace => ['\x7d']
  | openParen => ['(']
  | closeParen => [')']
  | openBracket => ['[']
  | closeBracket => [']']
  | semicolon => [';']
  | comma => [',']
  | dot => ['.']
  | question => ['?']
  | colon => [':']
  | assign => ['=']
  | plus => ['+']
  | minus => ['-']
  | star => ['*']
  | slash => ['/']
  | percent => ['%']
  | less => ['<']
  | greater => ['>']
  | bang => ['!']
  | tilde => ['~']

def text (p : Punct) : String :=
  String.ofList p.chars

/-- Longer punctuators come before those they begin with. -/
def all : List Punct :=
  [strictEqual, strictNotEqual, equal, notEqual, lessEqual, greaterEqual, andAnd, orOr, plusPlus,
    minusMinus, plusAssign, minusAssign, timesAssign, divideAssign, remainderAssign, openBrace,
    closeBrace, openParen, closeParen, openBracket, closeBracket, semicolon, comma, dot, question,
    colon, assign, plus, minus, star, slash, percent, less, greater, bang, tilde]

theorem chars_ne_nil (p : Punct) : p.chars ≠ [] := by
  cases p <;> decide

end Punct

inductive Lexeme where
  | number (x : Float)
  | string (s : String)
  | name (s : String)
  | keyword (k : Keyword)
  | punct (p : Punct)
  | stop
  deriving DecidableEq, Repr

structure Token where
  lexeme : Lexeme
  line : Nat
  deriving DecidableEq, Repr

end ScriptHost.Source
