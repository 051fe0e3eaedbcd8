import StyleTree.Walk.Config
import StyleTree.Text.Upper

/-!
The standard pass over a tree: it sets margins side by side, writes properties in upper case and
drops comments. It leaves @supports blocks alone and ends at @stop-the-walk.
-/

namespace StyleTree

structure Pass where
  entered : Nat := 0
  exited : Nat := 0
  replaced : Nat := 0
  deriving DecidableEq, Inhabited

namespace Pass

open Walk (View Visitor Entered Exited Run)

def sides : List String := ["margin-top", "margin-right", "margin-bottom", "margin-left"]

/-- A margin side by side. The sides take the value of the margin, but neither its importance nor
its place in the source. -/
def marginBySide (d : Declaration) : List Node :=
  sides.map fun side => .leaf (.declaration ⟨side, d.value, false, none⟩)

def enter (_ : View) (n : Node) (p : Pass) : Entered Pass :=
  let p := { p with entered := p.entered + 1 }
  match n with
  | .leaf (.declaration d) =>
      if d.property = "margin" then
        ⟨{ p with replaced := p.replaced + 1 }, n, [], .replace (marginBySide d)⟩
      else
        ⟨p, .leaf (.declaration { d with property := Text.upper d.property }), [], .proceed⟩
  | .leaf (.comment ..) => ⟨{ p with replaced := p.replaced + 1 }, n, [[]], .proceed⟩
  | .block (.atRule name ..) _ =>
      if name = "@supports" then ⟨p, n, [], .skip⟩
      else if name = "@stop-the-walk" then ⟨p, n, [], .stop⟩
      else ⟨p, n, [], .proceed⟩
  | _ => ⟨p, n, [], .proceed⟩

def exit (_ : View) (n : Node) (p : Pass) : Exited Pass :=
  ⟨{ p with exited := p.exited + 1 }, n, .proceed⟩

def visitor : Visitor Pass := ⟨enter, exit⟩

/-- Fuel for a pass: a node takes two steps at most, and each side of a margin one. -/
def fuelFor (nodes : List Node) : Nat := 8 * (Node.release nodes).length + 8

def run (c : Walk.Config) (nodes : List Node) (p : Pass) :
    Except Walk.DepthLimit (Option (Run Pass)) :=
  c.walk visitor (fuelFor nodes) nodes p

end Pass
end StyleTree
