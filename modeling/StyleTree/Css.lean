import StyleTree.Node.Basic

namespace StyleTree.Css

structure Line where
  depth : Nat
  text : String
  deriving DecidableEq

def Line.render (l : Line) : String := String.join (List.replicate l.depth "  ") ++ l.text ++ "\n"

def declarationText (d : Declaration) (value : String) : String :=
  d.property ++ ": " ++ value ++ (if d.important then " !important" else "") ++ ";"

def atRuleText (name params : String) : String :=
  if params.isEmpty then name else name ++ " " ++ params

def leafLines (depth : Nat) : Leaf → List Line
  | .declaration d => (d.value.map fun v => ⟨depth, declarationText d v⟩).toList
  | .comment text _ => [⟨depth, "/*" ++ text ++ "*/"⟩]

def blockLines (depth : Nat) (text : String) (inner : List Line) : List Line :=
  ⟨depth, text ++ " \x7b"⟩ :: (inner ++ [⟨depth, "\x7d"⟩])

mutual

/-- Contexts and hoisted blocks print as their children. An at-rule without children is a
statement and has no braces. -/
def lines (depth : Nat) : Node → List Line
  | .leaf l => leafLines depth l
  | .block (.rule selector _) children => blockLines depth selector (linesOf (depth + 1) children)
  | .block (.atRule name params _) children =>
      if children.isEmpty then [⟨depth, atRuleText name params ++ ";"⟩]
      else blockLines depth (atRuleText name params) (linesOf (depth + 1) children)
  | .block (.context _) children => linesOf depth children
  | .block .atRoot children => linesOf depth children

def linesOf (depth : Nat) : List Node → List Line
  | [] => []
  | n :: rest => lines depth n ++ linesOf depth rest

end

def render (ls : List Line) : String := String.join (ls.map Line.render)

end StyleTree.Css

def StyleTree.toCss (nodes : List Node) : String := Css.render (Css.linesOf 0 nodes)
