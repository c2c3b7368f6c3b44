import Workflow.Decimal.Shortest

/-!
# Writing floats

Two forms: the shortest text that reads back, and a fixed number of decimal places.
-/

namespace Workflow.Decimal

/-- Which leading exponents are written without an exponent part. -/
structure Positional where
  least : Int
  greatest : Int

/-- Data files write magnitudes from `0.00001` to below `10 ^ 16` without an exponent. -/
def Positional.data : Positional := ⟨-5, 15⟩

/-- Digits with a point after the first `whole` of them, and a zero where a side would be empty. -/
def pointed (whole : Nat) (ds : List Char) : List Char :=
  let before := ds.take whole
  let after := ds.drop whole
  (if before.isEmpty then ['0'] else before) ++ '.' :: (if after.isEmpty then ['0'] else after)

/-- An exponent always shows its sign. -/
def exponentText (e : Int) : List Char :=
  'e' :: (if e < 0 then '-' else '+') :: digitsOf e.natAbs

/-- The text of a magnitude: with a point, or as one digit, the others behind a point, and an
exponent. -/
def Magnitude.text (p : Positional) (m : Magnitude) : List Char :=
  let ds := digitsOf m.digits
  let lead := m.exponent + (ds.length - 1)
  if p.least ≤ lead ∧ lead ≤ p.greatest then
    if 0 ≤ m.exponent then pointed (lead + 1).toNat (ds ++ List.replicate m.exponent.toNat '0')
    else if 0 ≤ lead then pointed (lead + 1).toNat ds
    else pointed 0 (List.replicate (-lead - 1).toNat '0' ++ ds)
  else
    match ds with
    | [d] => d :: exponentText lead
    | ds => pointed 1 ds ++ exponentText lead

def signed (negative : Bool) (cs : List Char) : List Char :=
  if negative then '-' :: cs else cs

/-- The shortest text of a finite float; none for an infinity or a NaN. -/
def shortestText? (x : Float) : Option String :=
  (Binary.ofFloat? x).map fun b =>
    let m := if b.mantissa == 0 then ⟨0, 0⟩ else shortest b
    String.ofList (signed b.negative (m.text .data))

/-- A magnitude with exactly `places` decimal places; a half goes to the even neighbour. -/
def fixedChars (places : Nat) (b : Binary) : List Char :=
  let (num, den) := quotient b.mantissa b.exponent
  let ds := digitsOf (roundDiv (num * pow10 places) den)
  let ds := List.replicate (places + 1 - ds.length) '0' ++ ds
  if places == 0 then ds else pointed (ds.length - places) ds

def fixedText (places : Nat) (x : Float) : String :=
  match Binary.ofFloat? x with
  | some b => String.ofList (signed b.negative (fixedChars places b))
  | none => if x.isNaN then "NaN" else if x < 0 then "-inf" else "inf"

def isWhole (x : Float) : Bool :=
  match Binary.ofFloat? x with
  | some b => let (num, den) := quotient b.mantissa b.exponent; num % den == 0
  | none => false

end Workflow.Decimal
