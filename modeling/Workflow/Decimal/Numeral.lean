import Workflow.Decimal.Binary

/-!
# Reading decimal numerals

A numeral keeps the digits of its text. Its value as a float is computed from a significand of as
many leading digits as fit 64 bits, scaled once by a power of ten, so a long numeral may miss the
nearest float by one place.
-/

namespace Workflow.Decimal

/-- A number as it is written: a sign, digits, and maybe a fraction and an exponent. -/
structure Numeral where
  negative : Bool
  whole : List Nat
  fraction : Option (List Nat) := none
  exponent : Option Int := none
  deriving DecidableEq, Repr

/-- A significand and the power of ten it is to be scaled by. `full` stops it from growing. -/
structure Scaled where
  significand : Nat := 0
  exponent : Int := 0
  full : Bool := false
  deriving DecidableEq, Repr

/-- Takes one digit in front of the point: a digit that does not fit counts as a power of ten. -/
def Scaled.pushWhole (s : Scaled) (d : Nat) : Scaled :=
  let n := s.significand * 10 + d
  if s.full || pow2 64 ≤ n then { s with exponent := s.exponent + 1, full := true }
  else { s with significand := n }

/-- Takes one digit behind the point: a digit that does not fit is lost, and all after it. -/
def Scaled.pushFraction (s : Scaled) (d : Nat) : Scaled :=
  let n := s.significand * 10 + d
  if s.full || pow2 64 ≤ n then { s with full := true }
  else { s with significand := n, exponent := s.exponent - 1 }

def Numeral.scaled (n : Numeral) : Scaled :=
  let s := n.whole.foldl Scaled.pushWhole {}
  let s := (n.fraction.getD []).foldl Scaled.pushFraction { s with full := false }
  { s with exponent := s.exponent + n.exponent.getD 0 }

def powerOfTen (n : Nat) : Float :=
  Float.ofScientific 1 false n

/-- `x / 10 ^ n`, at most 308 powers of ten at a time. -/
def scaleDown (x : Float) (n : Nat) : Float :=
  if n ≤ 308 then x / powerOfTen n
  else if x == 0 then x
  else scaleDown (x / powerOfTen 308) (n - 308)
termination_by n
decreasing_by omega

/-- The magnitude of a scaled significand; none if it is too large for a float. -/
def Scaled.toFloat? (s : Scaled) : Option Float :=
  let x := s.significand.toUInt64.toFloat
  if s.exponent < 0 then some (scaleDown x (-s.exponent).toNat)
  else if s.significand == 0 then some x
  else if 308 < s.exponent then none
  else
    let y := x * powerOfTen s.exponent.toNat
    if y.isInf then none else some y

/-- The float a numeral stands for; none if it is too large for one. -/
def Numeral.toFloat? (n : Numeral) : Option Float :=
  n.scaled.toFloat?.map fun x => if n.negative then -x else x

/-- The whole number a numeral stands for, if it has neither fraction nor exponent, and its value
fits 64 bits, signed if it is negative. A negative zero is not a whole number. -/
def Numeral.toInt? (n : Numeral) : Option Int :=
  match n.fraction, n.exponent with
  | none, none =>
    let v : Nat := n.whole.foldl (fun a d => a * 10 + d) 0
    if n.negative then
      if 0 < v ∧ v ≤ pow2 63 then some (-(v : Int)) else none
    else if v < pow2 64 then some v else none
  | _, _ => none

end Workflow.Decimal
