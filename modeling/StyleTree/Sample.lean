import StyleTree.Node.Basic

namespace StyleTree.Sample

def cycle {α : Type} [Inhabited α] (items : List α) (place : Nat) : α :=
  items.getD (place % items.length) default

def selectors : List String :=
  [".button", ".card", ".nav > li", "a:hover", "#main .content", "input[type=\"text\"]"]

def declarations : List (String × String) :=
  [("margin", "4px"), ("color", "red"), ("padding", "0 8px"), ("display", "flex"),
    ("margin", "0 auto"), ("font-size", "14px")]

def fourFrom (place : Nat) : List Node :=
  (List.range 4).map fun i =>
    let (property, value) := cycle declarations (place + i)
    .declaration property value false

def inside : Overlay := Overlay.empty.insert "inside" (.text "true")

def sheet (seed : Nat) : List Node :=
  let selector := cycle selectors seed
  [ .comment (" block " ++ toString seed ++ " "),
    .rule selector
      (fourFrom (seed + 1) ++ [.comment " nested ", .rule "&:focus" (fourFrom (seed + 2))]),
    .atRule "@media" "(min-width: 640px)" [.rule selector (fourFrom (seed + 3))],
    .atRule "@supports" "(display: grid)" [.rule ".grid" (fourFrom (seed + 4))],
    .context inside [.rule selector (fourFrom (seed + 5))] ]

def tail : Node :=
  ["a", "b", "c", "d", "e", "f", "g"].foldr (fun selector n => .rule selector [n])
    (.atRule "@stop-the-walk" "" [.declaration "color" "red" false])

end StyleTree.Sample
