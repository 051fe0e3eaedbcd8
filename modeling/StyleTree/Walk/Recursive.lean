import StyleTree.Walk.Visitor
import StyleTree.Walk.Siblings

/-!
The walk by recursion on the tree. Fuel bounds the nesting of calls; a run that ends does not
depend on it.
-/

namespace StyleTree.Walk

universe u
variable {σ : Type u}

abbrev Visit (σ : Type u) := Trail → Overlay → Array Node → Nat → σ → Option (Run σ)

namespace Visit

def leave (v : Visitor σ) (go : Visit σ) (trail : Trail) (ambient : Overlay) (nodes : Array Node)
    (index : Nat) (node : Node) (state : σ) : Option (Run σ) :=
  let left := v.exit (trail.view ambient) node state
  let nodes := nodes.setIfInBounds index left.node
  match left.flow with
  | .halt => some ⟨left.state, nodes.toList, some ⟨.exit, index⟩⟩
  | .proceed => go trail ambient nodes (index + 1) left.state

/-- What follows the walk inside a node, which has its children again. Only a walk that was not
ended inside goes on. -/
def resume (nodes : Array Node) (index : Nat) (owner : Node) (inner : Run σ)
    (next : Node → σ → Option (Run σ)) : Option (Run σ) :=
  match inner.halt with
  | some halt => some ⟨inner.state, (nodes.setIfInBounds index owner).toList, some halt⟩
  | none => next owner inner.state

/-- Calls the enter hook on the node at the place. Its children are away from it while they are
walked, so that the trail shows none. -/
def enter (v : Visitor σ) (go : Visit σ) (trail : Trail) (ambient : Overlay) (nodes : Array Node)
    (index : Nat) (node : Node) (state : σ) : Option (Run σ) :=
  let entered := v.enter (trail.view ambient) node state
  match entered.verdict with
  | .halt =>
      let nodes := nodes.setIfInBounds index entered.node
      some ⟨entered.state, nodes.toList, some ⟨.enter, index⟩⟩
  | .replace replacement revisit =>
      let nodes := splice nodes index replacement
      let index := if revisit then index else index + replacement.length
      go trail ambient nodes index entered.state
  | .skip => leave v go trail ambient nodes index entered.node entered.state
  | .descend =>
      match entered.node with
      | .leaf l => leave v go trail ambient nodes index (.leaf l) entered.state
      | .block head children =>
          let trail' := trail.push (.block head children)
          (go trail' ambient children.toArray 0 entered.state).bind fun inner =>
            resume nodes index (.block head inner.nodes) inner
              (leave v go trail ambient nodes index)

end Visit

/-- Walks the siblings from a place on, in pre-order. A context is not shown to the visitor: what
is inside it is walked in place, under its overlay. -/
def visit (v : Visitor σ) : Nat → Visit σ
  | 0, _, _, _, _, _ => none
  | fuel + 1, trail, ambient, nodes, index, state =>
      match nodes[index]? with
      | none => some ⟨state, nodes.toList, none⟩
      | some (.block (.context overlay) children) =>
          let ambient' := ambient.merge overlay
          (visit v fuel trail ambient' children.toArray 0 state).bind fun inner =>
            Visit.resume nodes index (.block (.context overlay) inner.nodes) inner
              fun owner state =>
                visit v fuel trail ambient (nodes.setIfInBounds index owner) (index + 1) state
      | some node => Visit.enter v (visit v fuel) trail ambient nodes index node state

def recursive (v : Visitor σ) (fuel : Nat) (nodes : List Node) (state : σ) : Option (Run σ) :=
  visit v fuel .empty .empty nodes.toArray 0 state

variable {v : Visitor σ} {fuel index : Nat} {trail : Trail} {ambient : Overlay}
  {nodes : Array Node} {state : σ}

theorem visit_end (place : nodes[index]? = none) :
    visit v (fuel + 1) trail ambient nodes index state = some ⟨state, nodes.toList, none⟩ := by
  rw [visit, place]

theorem visit_context {overlay : Overlay} {children : List Node}
    (place : nodes[index]? = some (.block (.context overlay) children)) :
    visit v (fuel + 1) trail ambient nodes index state =
      (visit v fuel trail (ambient.merge overlay) children.toArray 0 state).bind fun inner =>
        Visit.resume nodes index (.block (.context overlay) inner.nodes) inner fun owner state =>
          visit v fuel trail ambient (nodes.setIfInBounds index owner) (index + 1) state := by
  rw [visit, place]

theorem visit_node {node : Node} (place : nodes[index]? = some node)
    (kind : node.kind ≠ .context) :
    visit v (fuel + 1) trail ambient nodes index state =
      Visit.enter v (visit v fuel) trail ambient nodes index node state := by
  rw [visit, place]
  split
  · next h => cases h
  · next h => cases h; exact absurd rfl kind
  · next h => cases h; rfl

end StyleTree.Walk
