import Workflow.Decimal.Binary

/-!
# The fewest digits that read back

A float stands for every real number that rounds to it. Among the decimal numbers in that interval
the ones with the fewest digits are sought, and of those the one nearest to the float is taken.
For each number of digits only the two neighbours of the float on that decimal grid can qualify.
-/

namespace Workflow.Decimal

/-- The magnitude `digits * 10 ^ exponent`. -/
structure Magnitude where
  digits : Nat
  exponent : Int
  deriving DecidableEq, Repr

/-- Moves trailing zeros of the digits into the exponent. -/
def Magnitude.strip (m : Magnitude) : Magnitude :=
  if h : 0 < m.digits ∧ m.digits % 10 = 0 then
    Magnitude.strip ⟨m.digits / 10, m.exponent + 1⟩
  else m
termination_by m.digits
decreasing_by exact Nat.div_lt_self h.1 (by decide)

/-- The real numbers that round to one float, in units of a quarter of its last binary place:
`low / den` to `high / den` around `mid / den`, the ends included or not. -/
structure Interval where
  low : Nat
  mid : Nat
  high : Nat
  den : Nat
  closed : Bool

/-- The interval of a positive float. Below a power of two the next float is half as far away. -/
def Interval.ofBinary (b : Binary) : Interval :=
  let below := if b.mantissa == pow2 52 && b.exponent != Binary.leastExponent then 1 else 2
  let scale := quotient 1 (b.exponent - 2)
  { low := (4 * b.mantissa - below) * scale.1
    mid := 4 * b.mantissa * scale.1
    high := (4 * b.mantissa + 2) * scale.1
    den := scale.2
    closed := b.mantissa % 2 == 0 }

def Interval.inUnits (i : Interval) (k : Int) : Interval :=
  let up := pow10 (-k).toNat
  { i with low := i.low * up, mid := i.mid * up, high := i.high * up, den := i.den * pow10 k.toNat }

def Interval.contains (i : Interval) (n : Nat) : Bool :=
  if i.closed then i.low ≤ n * i.den && n * i.den ≤ i.high
  else i.low < n * i.den && n * i.den < i.high

/-- The whole number of the interval nearest to its middle, if a neighbour of the middle is in it.
Of two that are equally near the even one is taken. -/
def Interval.nearest? (i : Interval) : Option Nat :=
  let down := i.mid / i.den
  match i.contains down, i.contains (down + 1) with
  | true, true => some (roundDiv i.mid i.den)
  | true, false => some down
  | false, true => some (down + 1)
  | false, false => none

/-- How many times `num` has to be multiplied by ten to reach `den`. -/
def tensToReach (den : Nat) : Nat → Nat → Nat
  | 0, _ => 0
  | fuel + 1, num => if den ≤ num then 0 else tensToReach den fuel (num * 10) + 1

/-- The exponent of the leading decimal digit of `num / den`. -/
def leadingExponent (num den : Nat) : Int :=
  if den ≤ num then (digitsOf (num / den)).length - 1
  else -(tensToReach den 400 num : Int)

/-- The shortest decimal magnitude that rounds to a float that is not zero. Seventeen digits always
suffice. -/
def shortest (b : Binary) : Magnitude :=
  let i := Interval.ofBinary b
  let lead := leadingExponent i.mid i.den
  let attempt := fun (n : Nat) =>
    let k := lead - n
    (i.inUnits k).nearest?.map fun d => (Magnitude.mk d k).strip
  ((List.range 17).findSome? attempt).getD ⟨0, 0⟩

end Workflow.Decimal
