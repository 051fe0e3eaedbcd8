namespace StyleTree.Decimal

structure Double where
  significand : Nat
  exponent : Int
  deriving DecidableEq, Inhabited

namespace Double

def toRat (d : Double) : Rat := d.significand * 2 ^ d.exponent

def least : Int := -1074

def greatest : Int := 971

def zero : Double := ⟨0, least⟩

def roundHalfEven (x : Rat) : Nat :=
  let below := x.floor.toNat
  let part := x - below
  if part < 1 / 2 then below
  else if 1 / 2 < part then below + 1
  else below + below % 2

def exponentFor (x : Rat) : Int :=
  let guess : Int := (x.num.toNat.log2 : Int) - x.den.log2
  max least ((if 2 ^ guess ≤ x then guess else guess - 1) - 52)

def nearest? (x : Rat) : Option Double :=
  if x ≤ 0 then some zero
  else
    let exponent := exponentFor x
    let significand := roundHalfEven (x / 2 ^ exponent)
    let d : Double :=
      if significand = 1 <<< 53 then ⟨1 <<< 52, exponent + 1⟩ else ⟨significand, exponent⟩
    if greatest < d.exponent then none else some d

def powerOfTen? (k : Nat) : Option Double := nearest? (10 ^ k)

def mul? (x y : Double) : Option Double := nearest? (x.toRat * y.toRat)

def div? (x y : Double) : Option Double := nearest? (x.toRat / y.toRat)

def tableEnd : Nat := 308

def scaleDown (d : Double) (k : Nat) : Option Double :=
  if k ≤ tableEnd then do d.div? (← powerOfTen? k)
  else if d.significand = 0 then some d
  else do scaleDown (← d.div? (← powerOfTen? tableEnd)) (k - tableEnd)
termination_by k
decreasing_by simp only [tableEnd] at *; omega

def scaleUp (d : Double) (k : Nat) : Option Double :=
  if k ≤ tableEnd then do d.mul? (← powerOfTen? k)
  else if d.significand = 0 then some d
  else none

/-- The double read from a whole number and a decimal exponent: both are rounded on their own,
then scaled, so the result may be a neighbour of the nearest double. -/
def ofParts? (digits : Nat) (exponent : Int) : Option Double := do
  let d ← nearest? digits
  if 0 ≤ exponent then d.scaleUp exponent.toNat else d.scaleDown (-exponent).toNat

end Double
end StyleTree.Decimal
