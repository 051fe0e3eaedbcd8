import StyleTree.Node.Basic

namespace StyleTree.Walk

structure Trail where
  nodes : List Node
  depth : Nat := nodes.length
  depth_eq : depth = nodes.length := by rfl
  deriving DecidableEq

namespace Trail

def empty : Trail := { nodes := [] }

instance : Inhabited Trail := ⟨empty⟩

def push (t : Trail) (n : Node) : Trail where
  nodes := n.bare :: t.nodes
  depth := t.depth + 1
  depth_eq := by simp [t.depth_eq]

def parent? (t : Trail) : Option Node := t.nodes.head?

def path (t : Trail) : List Node := t.nodes.reverse

@[simp] theorem path_push (t : Trail) (n : Node) : (t.push n).path = t.path ++ [n.bare] := by
  simp [path, push]

end Trail
end StyleTree.Walk
