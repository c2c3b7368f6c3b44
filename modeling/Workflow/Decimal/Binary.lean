/-!
# Floats as exact binary fractions

A finite float is a sign and a magnitude `mantissa * 2 ^ exponent`. Everything that writes a float
in decimal works on this form, in exact arithmetic.
-/

namespace Workflow.Decimal

def pow2 (n : Nat) : Nat := Nat.pow 2 n

def pow10 (n : Nat) : Nat := Nat.pow 10 n

structure Binary where
  negative : Bool
  mantissa : Nat
  exponent : Int
  deriving DecidableEq, Repr

/-- The least exponent of a float, which the subnormal ones have. -/
def Binary.leastExponent : Int := -1074

/-- The exact form of a float; none for an infinity or a NaN. -/
def Binary.ofFloat? (x : Float) : Option Binary :=
  let bits := x.toBits.toNat
  let field := bits / pow2 52 % 2048
  let fraction := bits % pow2 52
  let negative := bits / pow2 63 == 1
  if field == 2047 then none
  else if field == 0 then some ⟨negative, fraction, leastExponent⟩
  else some ⟨negative, fraction + pow2 52, leastExponent + (field - 1 : Nat)⟩

/-- The magnitude `n * 2 ^ e` as a quotient of two natural numbers. -/
def quotient (n : Nat) (e : Int) : Nat × Nat :=
  if 0 ≤ e then (n * pow2 e.toNat, 1) else (n, pow2 (-e).toNat)

/-- `num / den` rounded to a natural number; a half goes to the even neighbour. -/
def roundDiv (num den : Nat) : Nat :=
  let q := num / den
  let r := num % den
  if 2 * r < den then q
  else if den < 2 * r then q + 1
  else q + q % 2

def digitsOf (n : Nat) : List Char :=
  Nat.toDigits 10 n

end Workflow.Decimal
