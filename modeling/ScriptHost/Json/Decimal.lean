import ScriptHost.Number.Reading

/-!
The double that a JSON number with a fraction or an exponent is taken for. The digits are gathered
in a 64-bit word and then scaled by powers of ten, so the result need not be the nearest double.
-/

namespace ScriptHost.Json

def wordLimit : Nat := UInt64.size

def exponentLimit : Nat := 0x80000000

/-- The word with one more digit behind it, while it stays a word. -/
def appendDigit? (significand digit : Nat) : Option Nat :=
  if significand * 10 + digit < wordLimit then some (significand * 10 + digit) else none

def powerOfTen (n : Nat) : Float :=
  Number.ofDecimal 1 n

/-- Scaling down by steps of the largest power of ten until the exponent is one of those at hand. -/
def scaleDown : Nat → Float → Nat → Float
  | 0, x, _ => x
  | steps + 1, x, exponent =>
      if exponent ≤ 308 then x / powerOfTen exponent
      else if x == 0.0 then x
      else scaleDown steps (x / powerOfTen 308) (exponent - 308)

/-- The significand times ten to the exponent; nothing if that is beyond every double. -/
def scale? (significand : Nat) (exponent : Int) : Option Float :=
  let x := Float.ofNat significand
  match exponent with
  | .ofNat n =>
      if n ≤ 308 then
        let scaled := x * powerOfTen n
        if scaled.isInf then none else some scaled
      else if x == 0.0 then some x
      else none
  | .negSucc n => some (scaleDown (n / 308 + 2) x (n + 1))

end ScriptHost.Json
