import ScriptHost.Number.Binary

/-!
The fewest decimal digits that read back to a double, and the nearest such number to it.
-/

namespace ScriptHost.Number

/-- The number is its digits times ten to its exponent. -/
structure Decimal where
  digits : Nat
  exponent : Int
  deriving DecidableEq, Repr

inductive Tie where
  | up
  | even
  deriving DecidableEq, Repr

/-- The numbers that round to a double, in quarters of its last binary place. -/
structure Interval where
  low : Nat
  middle : Nat
  high : Nat
  closed : Bool
  exponent : Int
  deriving DecidableEq, Repr

def Interval.ofBinary (mantissa : Nat) (exponent : Int) : Interval where
  low := 4 * mantissa - if mantissa = leadingBit ∧ -1074 < exponent then 1 else 2
  middle := 4 * mantissa
  high := 4 * mantissa + 2
  closed := mantissa % 2 = 0
  exponent := exponent - 2

def tens (n : Nat) : Nat := Nat.pow 10 n

/-- The factors that make a multiple of ten to the place comparable with a bound of the interval. -/
def Interval.scales (i : Interval) (place : Int) : Nat × Nat :=
  (tens place.toNat <<< (-i.exponent).toNat, tens (-place).toNat <<< i.exponent.toNat)

def Interval.holds (i : Interval) (unit scale digits : Nat) : Bool :=
  if i.closed then
    i.low * scale ≤ digits * unit && digits * unit ≤ i.high * scale
  else
    i.low * scale < digits * unit && digits * unit < i.high * scale

/-- The nearest multiple of ten to the place that lies in the interval. -/
def Interval.onGrid (i : Interval) (tie : Tie) (place : Int) : Option Nat :=
  let (unit, scale) := i.scales place
  let below := i.middle * scale / unit
  match i.holds unit scale below, i.holds unit scale (below + 1) with
  | false, false => none
  | true, false => some below
  | false, true => some (below + 1)
  | true, true =>
      let twice := 2 * i.middle * scale
      let halfway := (2 * below + 1) * unit
      if twice < halfway then some below
      else if halfway < twice then some (below + 1)
      else match tie with
        | .up => some (below + 1)
        | .even => some (if below % 2 = 0 then below else below + 1)

def Interval.search (i : Interval) (tie : Tie) : Nat → Int → Option Decimal
  | 0, _ => none
  | tries + 1, place =>
      match i.onGrid tie place with
      | some digits => some ⟨digits, place⟩
      | none => i.search tie tries (place - 1)

/-- A place above every digit of the number. -/
def placeAbove (mantissa : Nat) (exponent : Int) : Int :=
  ((mantissa.log2 : Int) + exponent) * 30103 / 100000 + 2

def Decimal.exact (mantissa : Nat) (exponent : Int) : Decimal :=
  ⟨(mantissa <<< exponent.toNat) * Nat.pow 5 (-exponent).toNat, min exponent 0⟩

def Decimal.trim : Nat → Decimal → Decimal
  | 0, d => d
  | tries + 1, d =>
      if d.digits ≠ 0 ∧ d.digits % 10 = 0 then
        Decimal.trim tries ⟨d.digits / 10, d.exponent + 1⟩
      else d

def shortest (tie : Tie) (mantissa : Nat) (exponent : Int) : Decimal :=
  let interval := Interval.ofBinary mantissa exponent
  let found := interval.search tie 22 (placeAbove mantissa exponent)
  (found.getD (.exact mantissa exponent)).trim 22

end ScriptHost.Number
