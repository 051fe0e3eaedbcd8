import StyleTree.Text.UpperTable

namespace StyleTree.Text

def upperInRun? (n : Nat) (run : Nat × Nat × Nat × Nat) : Option Nat :=
  let (first, count, step, upper) := run
  if first ≤ n ∧ n ≤ first + (count - 1) * step ∧ (n - first) % step = 0 then
    some (upper + (n - first))
  else none

def upperChar (c : Char) : List Char :=
  if c.toNat < 128 then [c.toUpper]
  else
    match upperExpansions.lookup c.toNat with
    | some upper => upper.map Char.ofNat
    | none => [((upperRuns.findSome? (upperInRun? c.toNat)).map Char.ofNat).getD c]

def upper (s : String) : String := String.ofList (s.toList.flatMap upperChar)

end StyleTree.Text
