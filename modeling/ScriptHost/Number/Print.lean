import ScriptHost.Number.Shortest

/-!
The text of a number: how its digits are laid out, and the three layouts in use.
-/

namespace ScriptHost.Number

/--
Where the first digit stands at a decimal place from `least` up to, but not including, `limit`, a
number is written positionally, and with a signed exponent elsewhere.
-/
structure Layout where
  least : Option Int
  limit : Option Int
  tie : Tie
  pointZero : Bool
  signedZero : Bool
  infinity : String

/-- Scripts never see an exponent, a sign on zero or a fraction on an integer. -/
def Layout.script : Layout where
  least := none
  limit := none
  tie := .up
  pointZero := false
  signedZero := false
  infinity := "Infinity"

/-- A number quoted in a complaint about a source text. -/
def Layout.quoted : Layout :=
  { Layout.script with signedZero := true, infinity := "inf" }

/-- A number that is no safe integer, in a JSON text. -/
def Layout.json : Layout where
  least := some (-5)
  limit := some 16
  tie := .even
  pointZero := true
  signedZero := true
  infinity := "null"

def Layout.positional (l : Layout) (place : Int) : Bool :=
  l.least.all (· ≤ place) && l.limit.all (place < ·)

def zeros (n : Nat) : String :=
  String.ofList (List.replicate n '0')

/-- Digits with a decimal point, for the number that is the digits times ten to the exponent. -/
def positionalText (digits : List Char) (exponent : Int) (pointZero : Bool) : String :=
  match exponent with
  | .ofNat n =>
      String.ofList digits ++ zeros n ++ if pointZero then ".0" else ""
  | .negSucc n =>
      let places := n + 1
      if places < digits.length then
        let whole := digits.length - places
        String.ofList (digits.take whole) ++ "." ++ String.ofList (digits.drop whole)
      else
        "0." ++ zeros (places - digits.length) ++ String.ofList digits

def scientificText (digits : List Char) (place : Int) : String :=
  let sign := if place < 0 then "-" else "+"
  let power := "e" ++ sign ++ toString place.natAbs
  match digits with
  | [] => power
  | [first] => String.ofList [first] ++ power
  | first :: rest => String.ofList [first] ++ "." ++ String.ofList rest ++ power

def Layout.finite (l : Layout) (mantissa : Nat) (exponent : Int) : String :=
  let decimal := shortest l.tie mantissa exponent
  let digits := Nat.toDigits 10 decimal.digits
  let place := (digits.length : Int) - 1 + decimal.exponent
  if l.positional place then
    positionalText digits decimal.exponent l.pointZero
  else
    scientificText digits place

def Layout.sign (negative : Bool) (text : String) : String :=
  if negative then "-" ++ text else text

def Layout.print (l : Layout) (x : Float) : String :=
  match form x with
  | .nan => "NaN"
  | .infinite negative => Layout.sign negative l.infinity
  | .finite negative mantissa exponent =>
      if mantissa = 0 then
        Layout.sign (negative && l.signedZero) (if l.pointZero then "0.0" else "0")
      else
        Layout.sign negative (l.finite mantissa exponent)

/-- The text of an integer small enough to be told from its neighbours. -/
def smallInteger? (x : Float) : Option Int :=
  match integer? x with
  | some n => if n.natAbs ≤ safeInteger then some n else none
  | none => none

/-- How a script prints a number: safe integers in full, others with the fewest digits. -/
def text (x : Float) : String :=
  match smallInteger? x with
  | some n => toString n
  | none => Layout.script.print x

end ScriptHost.Number
