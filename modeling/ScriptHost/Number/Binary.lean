/-!
Doubles as exact binary fractions: sign, mantissa and exponent, the integers among them, and the
exact remainder of a division.
-/

namespace ScriptHost.Number

inductive Form where
  | nan
  | infinite (negative : Bool)
  | finite (negative : Bool) (mantissa : Nat) (exponent : Int)
  deriving DecidableEq, Repr

/-- The bit that stands in front of the fraction of a normal double. -/
def leadingBit : Nat := 1 <<< 52

/-- The value of a finite form is its mantissa times two to its exponent. -/
def form (x : Float) : Form :=
  let bits := x.toBits
  let negative := bits >>> 63 == 1
  let biased := ((bits >>> 52) &&& 0x7ff).toNat
  let fraction := (bits &&& 0xfffffffffffff).toNat
  if biased = 0x7ff then
    if fraction = 0 then .infinite negative else .nan
  else if biased = 0 then
    .finite negative fraction (-1074)
  else
    .finite negative (leadingBit + fraction) ((biased : Int) - 1075)

def signed (negative : Bool) (n : Nat) : Int :=
  if negative then -(n : Int) else n

def ofBinary (negative : Bool) (mantissa : Nat) (exponent : Int) : Float :=
  if mantissa = 0 then
    if negative then -0.0 else 0.0
  else
    Float.ofModel (.pack (.round .binary64 (if negative then .negative else .positive)
      mantissa exponent))

def Form.integer? : Form → Option Int
  | .finite negative mantissa (.ofNat shift) => some (signed negative (mantissa <<< shift))
  | .finite negative mantissa (.negSucc shift) =>
      if mantissa = 0 then some 0
      else if mantissa % (1 <<< (shift + 1)) = 0 then
        some (signed negative (mantissa >>> (shift + 1)))
      else none
  | _ => none

def integer? (x : Float) : Option Int :=
  (form x).integer?

def safeInteger : Nat := 2 * leadingBit - 1

/-- Array positions are the integers from zero up to, but not including, the last 32-bit word. -/
def position? (x : Float) : Option Nat :=
  match integer? x with
  | some (.ofNat n) => if n < UInt32.size - 1 then some n else none
  | _ => none

/-- The exact remainder of a division truncated toward zero; its sign is that of the dividend. -/
def remainder (x y : Float) : Float :=
  match form x, form y with
  | .finite negative m e, .finite _ n f =>
      if n = 0 then 0.0 / 0.0
      else
        let least := min e f
        let dividend := m <<< (e - least).toNat
        let divisor := n <<< (f - least).toNat
        ofBinary negative (dividend % divisor) least
  | .finite .., .infinite _ => x
  | _, _ => 0.0 / 0.0

end ScriptHost.Number
