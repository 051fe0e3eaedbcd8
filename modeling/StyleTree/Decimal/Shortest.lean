import StyleTree.Decimal.Double

namespace StyleTree.Decimal

namespace Double

/-- The numbers that round to a double, as a test. The gap below a power of two is half as wide. -/
def holds (d : Double) (x : Rat) : Bool :=
  let half : Rat := 2 ^ (d.exponent - 1)
  let below := if d.significand = 1 <<< 52 ∧ least < d.exponent then half / 2 else half
  let low := d.toRat - below
  let high := d.toRat + half
  if d.significand % 2 = 0 then decide (low ≤ x ∧ x ≤ high) else decide (low < x ∧ x < high)

def leadingZeros : Nat → Rat → Nat
  | 0, _ => 0
  | fuel + 1, x => if 1 ≤ x then 0 else leadingZeros fuel (x * 10) + 1

def magnitude (x : Rat) : Int :=
  if 1 ≤ x then (Nat.toDigits 10 x.floor.toNat).length else 1 - leadingZeros 400 x

/-- The neighbour of a double on a decimal grid that reads back: of two the nearer one, and of two
that are equally near the even one. -/
def onGrid? (d : Double) (place : Int) : Option Nat :=
  let unit : Rat := 10 ^ place
  let below := (d.toRat / unit).floor.toNat
  match d.holds (below * unit), d.holds ((below + 1 : Nat) * unit) with
  | true, true =>
      some (roundHalfEven (d.toRat / unit))
  | true, false => some below
  | false, true => some (below + 1)
  | false, false => none

structure Digits where
  digits : Nat
  place : Int

def stripZeros : Nat → Digits → Digits
  | 0, x => x
  | fuel + 1, x =>
      if x.digits ≠ 0 ∧ x.digits % 10 = 0 then stripZeros fuel ⟨x.digits / 10, x.place + 1⟩ else x

def shortest (d : Double) : Digits :=
  let top := magnitude d.toRat
  let found := (List.range 17).findSome? fun n =>
    let place := top - (n + 1 : Nat)
    (d.onGrid? place).map fun digits => (⟨digits, place⟩ : Digits)
  stripZeros 18 (found.getD ⟨0, 0⟩)

end Double

structure NumberFormat where
  leastPositional : Int
  greatestPositional : Int

def numberFormat : NumberFormat := ⟨-5, 15⟩

namespace NumberFormat

def zeros (n : Nat) : String := String.ofList (List.replicate n '0')

def positional (digits : List Char) (k : Int) : String :=
  if k ≤ 0 then "0." ++ zeros (-k).toNat ++ String.ofList digits
  else if k.toNat < digits.length then
    String.ofList (digits.take k.toNat) ++ "." ++ String.ofList (digits.drop k.toNat)
  else String.ofList digits ++ zeros (k.toNat - digits.length) ++ ".0"

def exponentText (k : Int) : String :=
  (if k < 0 then "e-" else "e+") ++ toString k.natAbs

def scientific (digits : List Char) (k : Int) : String :=
  String.ofList (digits.take 1) ++ (if digits.length ≤ 1 then "" else
    "." ++ String.ofList (digits.drop 1)) ++ exponentText k

def text (f : NumberFormat) (negative : Bool) (d : Double) : String :=
  let sign := if negative then "-" else ""
  if d.significand = 0 then sign ++ "0.0"
  else
    let shortest := d.shortest
    let digits := Nat.toDigits 10 shortest.digits
    let exponent := shortest.place + digits.length - 1
    if f.leastPositional ≤ exponent ∧ exponent ≤ f.greatestPositional then
      sign ++ positional digits (exponent + 1)
    else sign ++ scientific digits exponent

end NumberFormat
end StyleTree.Decimal
