import ScriptHost.Text.Blank

/-!
Numbers read from text: decimal literals, whole texts taken as numbers, and array positions.
-/

namespace ScriptHost.Number

def ofDecimal (digits : Nat) (exponent : Int) : Float :=
  Float.ofScientific digits (exponent < 0) exponent.natAbs

def digitValue (c : Char) : Nat := c.toNat - '0'.toNat

def digitsValue (cs : List Char) : Nat :=
  cs.foldl (fun n c => 10 * n + digitValue c) 0

/-- Beyond five digits an exponent decides nothing, and further digits are passed over. -/
def exponentValue (cs : List Char) : Nat :=
  cs.foldl (fun n c => if n < 0x10000 then 10 * n + digitValue c else n) 0

def readExponent? : List Char → Option Int
  | [] => some 0
  | mark :: rest =>
      if mark = 'e' ∨ mark = 'E' then
        let (negative, digits) := match rest with
          | '-' :: digits => (true, digits)
          | '+' :: digits => (false, digits)
          | digits => (false, digits)
        if digits.isEmpty || !digits.all Char.isDigit then none
        else if negative then some (-(exponentValue digits : Int))
        else some (exponentValue digits)
      else none

def readUnsigned? (cs : List Char) : Option Float :=
  let whole := cs.takeWhile Char.isDigit
  let afterWhole := cs.dropWhile Char.isDigit
  let (fraction, rest) := match afterWhole with
    | '.' :: tail => (tail.takeWhile Char.isDigit, tail.dropWhile Char.isDigit)
    | tail => ([], tail)
  if whole.isEmpty && fraction.isEmpty then none
  else (readExponent? rest).map fun exponent =>
    ofDecimal (digitsValue (whole ++ fraction)) (exponent - fraction.length)

/-- A decimal literal with an optional sign; digits may be missing on one side of the point. -/
def readDecimal? : List Char → Option Float
  | '-' :: rest => (readUnsigned? rest).map (fun x => -x)
  | '+' :: rest => readUnsigned? rest
  | rest => readUnsigned? rest

/-- The number a text stands for: zero if blank, and no number if it is not a decimal literal. -/
def ofText (s : String) : Float :=
  match Text.trim s.toList with
  | [] => 0.0
  | cs =>
      if cs = "Infinity".toList ∨ cs = "+Infinity".toList then 1.0 / 0.0
      else if cs = "-Infinity".toList then -1.0 / 0.0
      else (readDecimal? cs).getD (0.0 / 0.0)

/-- A position written in decimal digits, after an optional plus sign, below two to the 64th. -/
def readPosition? (s : String) : Option Nat :=
  let digits := match s.toList with
    | '+' :: rest => rest
    | cs => cs
  if digits.isEmpty || !digits.all Char.isDigit then none
  else
    let n := digitsValue digits
    if n < UInt64.size then some n else none

end ScriptHost.Number
