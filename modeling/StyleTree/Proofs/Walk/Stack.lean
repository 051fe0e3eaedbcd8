import StyleTree.Walk.Machine
import StyleTree.Proofs.Walk.Sweep
import Mathlib.Data.List.Basic

/-!
# Stacks of frames

`Standing` says how the frames below the top one and the owners come about, and with which view a
hook is called under them. `Stack.step_…` give each step of the machine on such a stack.
-/

namespace StyleTree.Walk

universe u
variable {σ : Type u} {v : Visitor σ}

namespace View

def root : View := Trail.empty.view .empty

end View

/-- The frames below the top one, the owners, whose children the top frame holds, and what a hook
sees there. Each frame below stands at a block without its children, which are in the next frame. -/
inductive Standing : Array Frame → Array Nat → Owner → View → Prop where
  | root : Standing #[] #[] .root .root
  | node {below owners view frame head} (standing : Standing below owners frame.owner view)
      (ambient : frame.ambient = view.ambient) (current : frame.current? = some (.block head [])) :
      Standing (below.push frame) (owners.push (below.size + 1)) .node
        (view.below (.block head []))
  | wrapper {below owners view frame overlay} (standing : Standing below owners frame.owner view)
      (ambient : frame.ambient = view.ambient)
      (current : frame.current? = some (.block (.context overlay) [])) :
      Standing (below.push frame) owners .wrapper (view.under overlay)

namespace Standing

variable {below : Array Frame} {owners : Array Nat} {owner : Owner} {view : View}

theorem owner_bounds (h : Standing below owners owner view) {position : Nat}
    (member : position ∈ owners) : 0 < position ∧ position ≤ below.size := by
  induction h with
  | root => simp at member
  | node standing ambient current ih =>
      rcases Array.mem_push.1 member with member | rfl
      · have := ih member
        simp only [Array.size_push]
        omega
      · simp
  | wrapper standing ambient current ih =>
      have := ih member
      simp only [Array.size_push]
      omega

theorem ownerAt_push (h : Standing below owners owner view) {position : Nat}
    (member : position ∈ owners) (frame : Frame) :
    Machine.ownerAt (below.push frame) position = Machine.ownerAt below position := by
  have bounds := h.owner_bounds member
  have inner : position - 1 < below.size := by omega
  simp [Machine.ownerAt, Array.getElem?_push_lt, inner]

theorem path_push (h : Standing below owners owner view) (frame : Frame) :
    Machine.path (below.push frame) owners = Machine.path below owners := by
  apply List.filterMap_congr
  intro position member
  exact h.ownerAt_push (Array.mem_toList_iff.1 member) frame

theorem path_eq (h : Standing below owners owner view) :
    Machine.path below owners = view.path := by
  induction h with
  | root => rfl
  | @node below owners view frame head standing ambient current ih =>
      have top : Machine.ownerAt (below.push frame) (below.size + 1) = some (.block head []) := by
        simp [Machine.ownerAt, current]
      have rest := standing.path_push frame
      rw [ih] at rest
      simp only [Machine.path] at rest
      simp [Machine.path, List.filterMap_append, top, rest]
      rfl
  | @wrapper below owners view frame overlay standing ambient current ih =>
      rw [standing.path_push, ih]
      rfl

theorem size_eq (h : Standing below owners owner view) : owners.size = view.depth := by
  induction h with
  | root => rfl
  | node standing ambient current ih => simp [View.below, ih]
  | wrapper standing ambient current ih => exact ih

theorem parent_eq (h : Standing below owners owner view) :
    owners.back?.bind (Machine.ownerAt below) = view.parent? := by
  induction h with
  | root => rfl
  | node standing ambient current ih =>
      simp [Machine.ownerAt, View.below, current, Node.bare, Node.withChildren]
  | @wrapper below owners view frame overlay standing ambient current ih =>
      rw [show (view.under overlay).parent? = view.parent? from rfl, ← ih]
      cases last : owners.back? with
      | none => rfl
      | some position => exact standing.ownerAt_push (Array.mem_of_back? last) frame

end Standing

structure Stack where
  below : Array Frame
  owners : Array Nat
  owner : Owner
  view : View
  standing : Standing below owners owner view

namespace Stack

def root : Stack := ⟨#[], #[], .root, .root, .root⟩

def frame (k : Stack) (before siblings : List Node) : Frame :=
  ⟨(before ++ siblings).toArray, before.length, k.view.ambient, k.owner⟩

def machine (k : Stack) (before siblings : List Node) : Machine :=
  ⟨k.frame before siblings, k.below, k.owners⟩

theorem frame_current (k : Stack) (before : List Node) (node : Node) (rest : List Node) :
    (k.frame before (node :: rest)).current? = some node := getElem?_place ..

theorem frame_end (k : Stack) (before : List Node) : (k.frame before []).current? = none := by
  simp [frame, Frame.current?]

def node (k : Stack) (before : List Node) (head : Head) (rest : List Node) : Stack :=
  ⟨k.below.push (k.frame before (.block head [] :: rest)), k.owners.push (k.below.size + 1), .node,
    k.view.below (.block head []), k.standing.node rfl (k.frame_current ..)⟩

def wrapper (k : Stack) (before : List Node) (overlay : Overlay) (rest : List Node) : Stack :=
  ⟨k.below.push (k.frame before (.block (.context overlay) [] :: rest)), k.owners, .wrapper,
    k.view.under overlay, k.standing.wrapper rfl (k.frame_current ..)⟩

variable (k : Stack) (before rest nodes : List Node) (head : Head) (overlay : Overlay)

@[simp] theorem below_node : (k.node before head rest).below =
    k.below.push (k.frame before (.block head [] :: rest)) := rfl

@[simp] theorem below_wrapper : (k.wrapper before overlay rest).below =
    k.below.push (k.frame before (.block (.context overlay) [] :: rest)) := rfl

theorem machine_view : (k.machine before nodes).view = k.view := by
  ext1
  · exact k.standing.path_eq
  · exact k.standing.size_eq
  · exact k.standing.parent_eq
  · rfl

theorem frame_put (node node' : Node) :
    (k.frame before (node :: rest)).put node' = k.frame before (node' :: rest) := by
  simp [frame, Frame.put]

theorem machine_put (node node' : Node) :
    (k.machine before (node :: rest)).put node' = k.machine before (node' :: rest) := by
  rw [machine, Machine.put, frame_put]
  rfl

theorem machine_splice (node : Node) :
    (k.machine before (node :: rest)).splice nodes = k.machine before (nodes ++ rest) := by
  simp only [Machine.splice, machine, frame, splice_place]

theorem frame_refill (children : List Node) (owner : Node) :
    (k.frame before (owner :: rest)).refill children.toArray =
      k.frame before (owner.withChildren children :: rest) := by
  simp [Frame.refill, frame_current, frame_put]

theorem machine_advance :
    (k.machine before (nodes ++ rest)).advance nodes.length = k.machine (before ++ nodes) rest := by
  simp [machine, frame, Machine.advance]

theorem push_node : (k.machine before (.block head nodes :: rest)).push (.block head nodes)
    k.view.ambient .node = (k.node before head rest).machine [] nodes := by
  simp only [Machine.push, machine, frame_put]
  rfl

theorem push_wrapper :
    (k.machine before (.block (.context overlay) nodes :: rest)).push
      (.block (.context overlay) nodes) (k.view.ambient.merge overlay) .wrapper =
        (k.wrapper before overlay rest).machine [] nodes := by
  simp only [Machine.push, machine, frame_put]
  rfl

/-! ## Steps -/

variable {k before rest} {state : σ}

theorem leave_eq {node : Node} {x : Exited σ} (exited : v.exit k.view node state = x) :
    (k.machine before (node :: rest)).leave v state =
      match x.flow with
      | .halt => .done (k.machine before (x.node :: rest)) x.state (some ⟨.exit, before.length⟩)
      | .proceed => .next (k.machine (before ++ [x.node]) rest) x.state := by
  have current : (k.machine before (node :: rest)).top.current? = some node := frame_current ..
  have after := k.machine_advance before rest [x.node]
  simp only [Machine.leave, current, machine_view, exited, machine_put]
  cases x.flow with
  | halt => rfl
  | proceed => exact congrArg (Step.next · x.state) after

theorem step_context :
    (k.machine before (.block (.context overlay) nodes :: rest)).step v state =
      .next ((k.wrapper before overlay rest).machine [] nodes) state := by
  have current := k.frame_current before (.block (.context overlay) nodes) rest
  rw [← push_wrapper]
  simp only [Machine.step, machine, current]
  rfl

theorem step_node {node : Node} (kind : node.kind ≠ .context) :
    (k.machine before (node :: rest)).step v state =
      (k.machine before (node :: rest)).enter v node state := by
  have current : (k.machine before (node :: rest)).top.current? = some node := frame_current ..
  simp only [Machine.step, current]
  split
  · next h => cases h
  · next h => cases h; exact absurd rfl kind
  · next h => cases h; rfl

section
variable {node : Node} {e : Entered σ} (kind : node.kind ≠ .context)
  (entered : v.enter k.view node state = e)
include kind entered

theorem step_halt (verdict : e.verdict = .halt) :
    (k.machine before (node :: rest)).step v state =
      .done (k.machine before (e.node :: rest)) e.state (some ⟨.enter, before.length⟩) := by
  simp only [step_node kind, Machine.enter, machine_view, entered, verdict, machine_put]
  rfl

theorem step_revisit (verdict : e.verdict = .replace nodes true) :
    (k.machine before (node :: rest)).step v state =
      .next (k.machine before (nodes ++ rest)) e.state := by
  simp only [step_node kind, Machine.enter, machine_view, entered, verdict, machine_put,
    machine_splice, if_true]

theorem step_pass (verdict : e.verdict = .replace nodes false) :
    (k.machine before (node :: rest)).step v state =
      .next (k.machine (before ++ nodes) rest) e.state := by
  simp only [step_node kind, Machine.enter, machine_view, entered, verdict, machine_put,
    machine_splice, machine_advance, Bool.false_eq_true, if_false]

theorem step_leaves (stays : e.verdict.stays) (none : e.inside = []) :
    (k.machine before (node :: rest)).step v state =
      (k.machine before (e.node :: rest)).leave v e.state := by
  simp only [step_node kind, Machine.enter, machine_view, entered, machine_put]
  rcases Verdict.descend_or_skip stays with verdict | verdict
  · have none : e.node.children = [] := by simpa [Entered.inside, verdict] using none
    simp [verdict, none]
  · simp only [verdict]

theorem step_opens (before rest : List Node) (some : e.inside ≠ []) :
    ∃ head, (∀ children, e.refill children = .block head children) ∧
      k.view.below e.node = (k.node before head rest).view ∧
      (k.machine before (node :: rest)).step v state =
        .next ((k.node before head rest).machine [] e.inside) e.state := by
  simp only [step_node kind, Machine.enter, machine_view, entered, machine_put]
  cases verdict : e.verdict with
  | descend =>
      cases shape : e.node with
      | leaf l => simp [Entered.inside, verdict, shape, Node.children] at some
      | block head children =>
          have inside : e.inside = children := by
            simp [Entered.inside, verdict, shape, Node.children]
          refine ⟨head, fun children => ?_, rfl, ?_⟩
          · simp [Entered.refill, verdict, shape, Node.withChildren]
          · have more : children.isEmpty = false := by
              rw [← inside]
              simpa using some
            have pushed := k.push_node before rest children head
            simp only [Node.children, more, Bool.false_eq_true, if_false, inside]
            exact congrArg (Step.next · e.state) pushed
  | _ => simp [Entered.inside, verdict] at some

end

theorem step_close_root : (root.machine nodes []).step v state =
    .done (root.machine nodes []) state none := by
  have current := root.frame_end nodes
  simp only [Machine.step, machine, current]
  rfl

theorem step_close {k' : Stack}
    (below : k'.below = k.below.push (k.frame before (.block head [] :: rest))) :
    (k'.machine nodes []).step v state =
      match k'.owner with
      | .node => Machine.leave v
          ⟨k.frame before (.block head nodes :: rest), k.below, k'.owners.pop⟩ state
      | _ => .next (Machine.advance
          ⟨k.frame before (.block head nodes :: rest), k.below, k'.owners⟩ 1) state := by
  have current := k'.frame_end nodes
  have owner := k.frame_current before (.block head []) rest
  have back : k'.below.back? = some (k.frame before (.block head [] :: rest)) := by
    rw [below, Array.back?_push]
  have refilled : (k.frame before (.block head [] :: rest)).refill (k'.frame nodes []).nodes =
      k.frame before (.block head nodes :: rest) := by
    have all : (k'.frame nodes []).nodes = nodes.toArray := by simp [frame]
    rw [all]
    exact k.frame_refill before rest nodes (.block head [])
  have popped : k'.below.pop = k.below := by rw [below, Array.pop_push]
  simp only [Machine.step, machine, current, Machine.close, back, owner, refilled, popped]
  rfl

theorem step_close_node : ((k.node before head rest).machine nodes []).step v state =
    (k.machine before (.block head nodes :: rest)).leave v state := by
  have owners : (k.node before head rest).owners.pop = k.owners := by simp [node]
  rw [step_close nodes head rfl, owners]
  rfl

theorem step_close_wrapper : ((k.wrapper before overlay rest).machine nodes []).step v state =
    .next (k.machine (before ++ [.block (.context overlay) nodes]) rest) state := by
  have after := k.machine_advance before rest [.block (.context overlay) nodes]
  rw [step_close nodes (.context overlay) rfl]
  exact congrArg (Step.next · state) after

end Stack

/-! ## Reachable machines -/

theorem Frame.exists_split {f : Frame} {node : Node} (current : f.current? = some node) :
    ∃ before rest, f.nodes = (before ++ node :: rest).toArray ∧ f.index = before.length := by
  obtain ⟨bound, here⟩ := Array.getElem?_eq_some_iff.1 current
  refine ⟨f.nodes.toList.take f.index, f.nodes.toList.drop (f.index + 1), ?_, ?_⟩
  · have split := List.take_append_drop f.index f.nodes.toList
    rw [List.drop_eq_getElem_cons (by simpa using bound), Array.getElem_toList, here] at split
    rw [split]
  · simp
    omega

def Step.Sound : Step σ → Prop
  | .next m _ => ∃ (k : Stack) (before siblings : List Node), m = k.machine before siblings
  | .done .. => True
  | .stuck => False

namespace Stack

variable {k : Stack} {before rest : List Node} {state : σ}

theorem exists_below (k : Stack) :
    k = root ∨ (∃ k' before head rest, k = node k' before head rest) ∨
      ∃ k' before overlay rest, k = wrapper k' before overlay rest := by
  obtain ⟨below, owners, owner, view, standing⟩ := k
  cases standing with
  | root => exact .inl rfl
  | @node below owners view frame head standing ambient current =>
      obtain ⟨nodes, index, ambient', owner⟩ := frame
      obtain ⟨before, rest, rfl, rfl⟩ := Frame.exists_split current
      cases ambient
      exact .inr (.inl ⟨⟨below, owners, owner, view, standing⟩, before, head, rest, rfl⟩)
  | @wrapper below owners view frame overlay standing ambient current =>
      obtain ⟨nodes, index, ambient', owner⟩ := frame
      obtain ⟨before, rest, rfl, rfl⟩ := Frame.exists_split current
      cases ambient
      exact .inr (.inr ⟨⟨below, owners, owner, view, standing⟩, before, overlay, rest, rfl⟩)

theorem leave_sound (node : Node) : ((k.machine before (node :: rest)).leave v state).Sound := by
  rw [leave_eq rfl]
  split
  · trivial
  · exact ⟨k, _, rest, rfl⟩

theorem step_sound (k : Stack) (before siblings : List Node) (state : σ) :
    ((k.machine before siblings).step v state).Sound := by
  cases siblings with
  | nil =>
      obtain rfl | ⟨k, before', head, rest, rfl⟩ | ⟨k, before', overlay, rest, rfl⟩ :=
        k.exists_below
      · rw [step_close_root]
        trivial
      · rw [step_close_node]
        exact leave_sound _
      · rw [step_close_wrapper]
        exact ⟨k, _, rest, rfl⟩
  | cons node rest =>
      by_cases kind : node.kind = .context
      · obtain ⟨overlay, children, rfl⟩ := Node.exists_of_context kind
        rw [step_context]
        exact ⟨_, [], children, rfl⟩
      · obtain ⟨e, entered⟩ : ∃ e, v.enter k.view node state = e := ⟨_, rfl⟩
        cases verdict : e.verdict with
        | halt =>
            rw [step_halt kind entered verdict]
            trivial
        | replace nodes revisit =>
            cases revisit with
            | true =>
                rw [step_revisit nodes kind entered verdict]
                exact ⟨k, before, nodes ++ rest, rfl⟩
            | false =>
                rw [step_pass nodes kind entered verdict]
                exact ⟨k, before ++ nodes, rest, rfl⟩
        | _ =>
            have stays : e.verdict.stays := by rw [verdict]; rfl
            by_cases inside : e.inside = []
            · rw [step_leaves kind entered stays inside]
              exact leave_sound _
            · obtain ⟨head, -, -, step⟩ := step_opens kind entered before rest inside
              rw [step]
              exact ⟨_, [], e.inside, rfl⟩

end Stack

namespace Machine

inductive Reaches (v : Visitor σ) (m : Machine) (state : σ) : Machine → σ → Prop where
  | refl : Reaches v m state m state
  | next {m' m'' state' state''} (reached : Reaches v m state m' state')
      (step : m'.step v state' = .next m'' state'') : Reaches v m state m'' state''

theorem reaches_stack {nodes : List Node} {state state' : σ} {m : Machine}
    (reached : Reaches v (.start nodes) state m state') :
    ∃ (k : Stack) (before siblings : List Node), m = k.machine before siblings := by
  induction reached with
  | refl => exact ⟨.root, [], nodes, rfl⟩
  | @next m' _ state' _ _ step ih =>
      obtain ⟨k, before, siblings, rfl⟩ := ih
      have sound := k.step_sound (v := v) before siblings state'
      rw [step] at sound
      exact sound

end Machine

end StyleTree.Walk
