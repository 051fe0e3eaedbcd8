import StyleTree.Walk.Visitor
import StyleTree.Walk.Siblings

/-!
The walk by an explicit stack of frames. A frame holds one array of siblings, taken away from its
owner; the owner stands, without its children, at the place of the frame below. The ancestors of a
node are found through the positions of the frames that hold the children of nodes. The machine is
total: a state from which no walk can go on is `stuck`.
-/

namespace StyleTree.Walk

universe u
variable {σ : Type u}

inductive Owner where
  | root
  | node
  | wrapper
  deriving DecidableEq

structure Frame where
  nodes : Array Node
  index : Nat
  ambient : Overlay
  owner : Owner

namespace Frame

def current? (f : Frame) : Option Node := f.nodes[f.index]?

def put (f : Frame) (node : Node) : Frame :=
  { f with nodes := f.nodes.setIfInBounds f.index node }

def refill (f : Frame) (children : Array Node) : Frame :=
  match f.current? with
  | some owner => f.put (owner.withChildren children.toList)
  | none => f

end Frame

/-- The frames below the top one begin with the frame of the roots, which has position 0. The owners
are the positions of the frames that hold the children of nodes, the top frame included. -/
structure Machine where
  top : Frame
  below : Array Frame
  owners : Array Nat

namespace Machine

def start (nodes : List Node) : Machine := ⟨⟨nodes.toArray, 0, .empty, .root⟩, #[], #[]⟩

def ownerAt (below : Array Frame) (position : Nat) : Option Node :=
  below[position - 1]?.bind Frame.current?

def path (below : Array Frame) (owners : Array Nat) : List Node :=
  owners.toList.filterMap (ownerAt below)

def view (m : Machine) : View where
  ancestors := ⟨fun _ => path m.below m.owners⟩
  depth := m.owners.size
  parent? := m.owners.back?.bind (ownerAt m.below)
  ambient := m.top.ambient

def giveBack (children : Array Node) (below : Array Frame) : Array Node :=
  below.foldr (fun frame children => (frame.refill children).nodes) children

def whole (m : Machine) : List Node := (giveBack m.top.nodes m.below).toList

def advance (m : Machine) (count : Nat) : Machine :=
  { m with top.index := m.top.index + count }

def put (m : Machine) (node : Node) : Machine := { m with top := m.top.put node }

def splice (m : Machine) (replacement : List Node) : Machine :=
  { m with top.nodes := Walk.splice m.top.nodes m.top.index replacement }

def push (m : Machine) (node : Node) (ambient : Overlay) (owner : Owner) : Machine :=
  let position := m.below.size + 1
  let owners := match owner with
    | .node => m.owners.push position
    | _ => m.owners
  ⟨⟨node.children.toArray, 0, ambient, owner⟩, m.below.push (m.top.put node.bare), owners⟩

end Machine

inductive Step (σ : Type u) where
  | next (m : Machine) (state : σ)
  | done (m : Machine) (state : σ) (halt : Option Halt)
  | stuck

namespace Machine

def leave (v : Visitor σ) (m : Machine) (state : σ) : Step σ :=
  match m.top.current? with
  | none => .stuck
  | some node =>
      let left := v.exit m.view node state
      let m := m.put left.node
      match left.flow with
      | .halt => .done m left.state (some ⟨.exit, m.top.index⟩)
      | .proceed => .next (m.advance 1) left.state

def enter (v : Visitor σ) (m : Machine) (node : Node) (state : σ) : Step σ :=
  let entered := v.enter m.view node state
  let m := m.put entered.node
  match entered.verdict with
  | .halt => .done m entered.state (some ⟨.enter, m.top.index⟩)
  | .replace replacement revisit =>
      let m := m.splice replacement
      .next (if revisit then m else m.advance replacement.length) entered.state
  | .skip => m.leave v entered.state
  | .descend =>
      if entered.node.children.isEmpty then m.leave v entered.state
      else .next (m.push entered.node m.top.ambient .node) entered.state

/-- Ends the top frame: its siblings go back to their owner, which then gets its exit hook unless it
is a context. -/
def close (v : Visitor σ) (m : Machine) (state : σ) : Step σ :=
  match m.below.back? with
  | none => .done m state none
  | some parent =>
      match parent.current? with
      | none => .stuck
      | some _ =>
          let below := m.below.pop
          let parent := parent.refill m.top.nodes
          match m.top.owner with
          | .node => Machine.leave v ⟨parent, below, m.owners.pop⟩ state
          | _ => .next (advance ⟨parent, below, m.owners⟩ 1) state

def step (v : Visitor σ) (m : Machine) (state : σ) : Step σ :=
  match m.top.current? with
  | none => m.close v state
  | some (.block (.context overlay) children) =>
      .next (m.push (.block (.context overlay) children) (m.top.ambient.merge overlay) .wrapper)
        state
  | some node => m.enter v node state

def run (v : Visitor σ) : Nat → Machine → σ → Option (Run σ)
  | 0, _, _ => none
  | fuel + 1, m, state =>
      match step v m state with
      | .next m' state' => run v fuel m' state'
      | .done m' state' halt => some ⟨state', m'.whole, halt⟩
      | .stuck => none

end Machine

def iterative (v : Visitor σ) (fuel : Nat) (nodes : List Node) (state : σ) : Option (Run σ) :=
  Machine.run v fuel (.start nodes) state

end StyleTree.Walk
