import StyleTree.Proofs.Walk.Stack

/-!
# Guarded access

The frames of a machine as one stack, the top frame last, and each iteration with every access
guarded: it ends in a trap where a number would go below zero, where a place does not exist, or
where children come back to a node that takes none. `walks_guarded`: on every machine that a walk
comes to, the stacks are sound, and no guard is ever missed.
-/

namespace StyleTree.Walk

universe u
variable {σ : Type u} {v : Visitor σ}

/-- All frames, the one of the roots first, and the positions of those that hold the children of
nodes. -/
structure Stacks where
  frames : Array Frame
  owners : Array Nat

def Frame.advance (f : Frame) (count : Nat) : Frame := { f with index := f.index + count }

def Machine.stacks (m : Machine) : Stacks := ⟨m.below.push m.top, m.owners⟩

/-- The frame of the roots is at the bottom and nowhere else. Each frame below the top stands at a
block that has no children while the frame above holds them. The top frame may stand behind its
last node. The owners are in order, and are the frames that hold the children of nodes. -/
structure Stacks.Sound (s : Stacks) : Prop where
  nonempty : 0 < s.frames.size
  bottom : ∀ i frame, s.frames[i]? = some frame → (frame.owner = .root ↔ i = 0)
  below : ∀ i frame, s.frames[i]? = some frame → i + 1 < s.frames.size →
    frame.index < frame.nodes.size ∧ ∃ head, frame.nodes[frame.index]? = some (.block head [])
  top : ∀ frame, s.frames.back? = some frame → frame.index ≤ frame.nodes.size
  increasing : s.owners.toList.Pairwise (· < ·)
  owners : ∀ i, i ∈ s.owners ↔ ∃ frame, s.frames[i]? = some frame ∧ frame.owner = .node

inductive Trap where
  | underflow
  | outside
  | unowned
  deriving DecidableEq

abbrev Guarded (α : Type u) := Except Trap α

inductive Turn (σ : Type u) where
  | next (s : Stacks) (state : σ)
  | done (nodes : List Node) (state : σ) (halt : Option Halt)

namespace Guarded

def pred : Nat → Guarded Nat
  | 0 => .error .underflow
  | n + 1 => .ok n

def get {α : Type u} (xs : Array α) (i : Nat) : Guarded α :=
  match xs[i]? with
  | some x => .ok x
  | none => .error .outside

def split {α : Type u} (xs : Array α) (i : Nat) : Guarded (Array α × Array α) :=
  if i ≤ xs.size then .ok (xs.extract 0 i, xs.extract i) else .error .outside

def splice (nodes : Array Node) (index : Nat) (replacement : List Node) : Guarded (Array Node) :=
  if index < nodes.size then .ok (Walk.splice nodes index replacement) else .error .outside

def putBack (parent : Frame) (children : Array Node) : Guarded Frame := do
  let owner ← get parent.nodes parent.index
  if owner.children?.isSome then return parent.put (owner.withChildren children.toList)
  else .error .unowned

def unwind (frames : Array Frame) : Guarded (List Node) :=
  match frames.back? with
  | none => .ok []
  | some child =>
      match _under : frames.pop.back? with
      | none => .ok child.nodes.toList
      | some parent => do unwind (frames.pop.pop.push (← putBack parent child.nodes))
termination_by frames.size
decreasing_by
  have some := Array.size_pos_of_mem (Array.mem_of_back? _under)
  simp only [Array.size_pop, Array.size_push] at some ⊢
  omega

-- What a hook sees, computed whether or not it looks: the frames below are those under the frame
-- of its node.
def ancestor (below : Array Frame) (position : Nat) : Guarded Node := do
  let frame ← get below (← pred position)
  get frame.nodes frame.index

def path (below : Array Frame) : List Nat → Guarded (List Node)
  | [] => .ok []
  | position :: positions => do
      let node ← ancestor below position
      return node :: (← path below positions)

def parent? (below : Array Frame) (owners : Array Nat) : Guarded (Option Node) :=
  match owners.back? with
  | none => .ok none
  | some position => some <$> ancestor below position

def view (below : Array Frame) (owners : Array Nat) (ambient : Overlay) : Guarded View := do
  let path ← path below owners.toList
  let parent? ← parent? below owners
  return ⟨⟨fun _ => path⟩, owners.size, parent?, ambient⟩

/-! ## Iterations -/

def leave (v : Visitor σ) (below : Array Frame) (owners : Array Nat) (frame : Frame) (state : σ) :
    Guarded (Turn σ) :=
  (view below owners frame.ambient).bind fun seen =>
  (get frame.nodes frame.index).bind fun node =>
    let left := v.exit seen node state
    let frame := frame.put left.node
    match left.flow with
    | .halt => (unwind (below.push frame)).map fun nodes =>
        .done nodes left.state (some ⟨.exit, frame.index⟩)
    | .proceed => .ok (.next ⟨below.push (frame.advance 1), owners⟩ left.state)

def enter (v : Visitor σ) (below : Array Frame) (owners : Array Nat) (frame : Frame) (node : Node)
    (state : σ) : Guarded (Turn σ) :=
  (view below owners frame.ambient).bind fun seen =>
    let entered := v.enter seen node state
    let frame := frame.put entered.node
    match entered.verdict with
    | .halt => (unwind (below.push frame)).map fun nodes =>
        .done nodes entered.state (some ⟨.enter, frame.index⟩)
    | .replace nodes revisit => (splice frame.nodes frame.index nodes).bind fun spliced =>
        let frame := { frame with nodes := spliced }
        let frame := if revisit then frame else frame.advance nodes.length
        .ok (.next ⟨below.push frame, owners⟩ entered.state)
    | .skip => leave v below owners frame entered.state
    | .descend => (get frame.nodes frame.index).bind fun owner =>
        if owner.children.isEmpty then leave v below owners frame entered.state
        else
          let inside : Frame := ⟨owner.children.toArray, 0, frame.ambient, .node⟩
          .ok (.next ⟨(below.push (frame.put owner.bare)).push inside,
            owners.push (below.size + 1)⟩ entered.state)

def finish (v : Visitor σ) (s : Stacks) (finished : Frame) (state : σ) : Guarded (Turn σ) :=
  let frames := s.frames.pop
  (pred frames.size).bind fun top =>
  (split frames top).bind fun (below, rest) =>
  (get rest 0).bind fun parent =>
  (putBack parent finished.nodes).bind fun parent =>
    match finished.owner with
    | .node => leave v below s.owners.pop parent state
    | _ => .ok (.next ⟨below.push (parent.advance 1), s.owners⟩ state)

def step (v : Visitor σ) (s : Stacks) (state : σ) : Guarded (Turn σ) :=
  (pred s.frames.size).bind fun top =>
  (get s.frames top).bind fun frame =>
    if frame.nodes.size ≤ frame.index then
      if top = 0 then (unwind s.frames).map fun nodes => .done nodes state none
      else finish v s frame state
    else
      (split s.frames top).bind fun (below, rest) =>
      (get rest 0).bind fun frame =>
      (get frame.nodes frame.index).bind fun node =>
        match node with
        | .block (.context overlay) children =>
            let inside : Frame := ⟨children.toArray, 0, frame.ambient.merge overlay, .wrapper⟩
            .ok (.next ⟨(below.push (frame.put (.block (.context overlay) []))).push inside,
              s.owners⟩ state)
        | node => enter v below s.owners frame node state

def run (v : Visitor σ) : Nat → Stacks → σ → Guarded (Option (Run σ))
  | 0, _, _ => .ok none
  | fuel + 1, s, state => (step v s state).bind fun turn =>
      match turn with
      | .next s' state' => run v fuel s' state'
      | .done nodes state' halt => .ok (some ⟨state', nodes, halt⟩)

section
variable {α : Type u} (xs : Array α) (x : α)

theorem pred_push : pred (xs.push x).size = .ok xs.size := by
  rw [Array.size_push]
  rfl

theorem get_of {xs : Array α} {x : α} {i : Nat} (place : xs[i]? = some x) :
    get xs i = .ok x := by
  rw [get, place]

theorem get_push : get (xs.push x) xs.size = .ok x := get_of Array.getElem?_push_size

theorem split_push : split (xs.push x) xs.size = .ok (xs, #[x]) := by
  have before : (xs.push x).extract 0 xs.size = xs := by simp
  have after : (xs.push x).extract xs.size = #[x] := by
    apply Array.toList_inj.1
    simp [List.extract_eq_take_drop]
  rw [split, if_pos (by simp), before, after]

end

theorem putBack_eq {parent : Frame} {head : Head} {inside : List Node}
    (current : parent.current? = some (.block head inside)) (children : Array Node) :
    putBack parent children = .ok (parent.refill children) := by
  rw [putBack, get_of current, Frame.refill, current]
  rfl

theorem unwind_root (top : Frame) : unwind (#[].push top) = .ok top.nodes.toList := by
  rw [unwind, Array.back?_push]
  rfl

theorem unwind_push {parent : Frame} {head : Head} {inside : List Node}
    (current : parent.current? = some (.block head inside)) (below : Array Frame) (top : Frame) :
    unwind ((below.push parent).push top) = unwind (below.push (parent.refill top.nodes)) := by
  rw [unwind, Array.back?_push]
  simp only [Array.pop_push]
  split
  · next none => simp at none
  · next frame under =>
    rw [Array.pop_push, Array.back?_push] at under
    cases under
    rw [putBack_eq current]
    rfl

end Guarded

namespace Standing

open Guarded

variable {below : Array Frame} {owners : Array Nat} {owner : Owner} {view : View}

theorem unwind_eq (h : Standing below owners owner view) (top : Frame) :
    unwind (below.push top) = .ok (Machine.giveBack top.nodes below).toList := by
  induction h generalizing top with
  | root => exact unwind_root top
  | node standing ambient current ih =>
      rw [unwind_push current, ih, Machine.giveBack, Machine.giveBack, Array.foldr_push]
  | wrapper standing ambient current ih =>
      rw [unwind_push current, ih, Machine.giveBack, Machine.giveBack, Array.foldr_push]

theorem exists_owner (h : Standing below owners owner view) {position : Nat}
    (member : position ∈ owners) : ∃ node, Machine.ownerAt below position = some node := by
  induction h with
  | root => simp at member
  | @node below owners view frame head standing ambient current ih =>
      rcases Array.mem_push.1 member with member | rfl
      · obtain ⟨node, found⟩ := ih member
        exact ⟨node, (standing.ownerAt_push member frame).trans found⟩
      · exact ⟨.block head [], by simp [Machine.ownerAt, current]⟩
  | @wrapper below owners view frame overlay standing ambient current ih =>
      obtain ⟨node, found⟩ := ih member
      exact ⟨node, (standing.ownerAt_push member frame).trans found⟩

theorem ancestor_eq (h : Standing below owners owner view) {position : Nat}
    (member : position ∈ owners) {node : Node}
    (found : Machine.ownerAt below position = some node) :
    ancestor below position = .ok node := by
  have bounds := h.owner_bounds member
  obtain ⟨i, rfl⟩ : ∃ i, position = i + 1 := ⟨position - 1, by omega⟩
  obtain ⟨frame, place, current⟩ := Option.bind_eq_some_iff.1 found
  have under : get below i = .ok frame := get_of place
  simp only [ancestor, pred, under, bind, Except.bind]
  exact get_of current

theorem path_guarded (h : Standing below owners owner view) (positions : List Nat)
    (among : ∀ position ∈ positions, position ∈ owners) :
    path below positions = .ok (positions.filterMap (Machine.ownerAt below)) := by
  induction positions with
  | nil => rfl
  | cons position positions ih =>
      have member := among position List.mem_cons_self
      obtain ⟨node, found⟩ := h.exists_owner member
      have later := ih fun other more => among other (List.mem_cons_of_mem position more)
      rw [path, h.ancestor_eq member found, later, List.filterMap_cons_some found]
      rfl

theorem view_guarded (h : Standing below owners owner view) {ambient : Overlay}
    (same : ambient = view.ambient) : Guarded.view below owners ambient = .ok view := by
  have path := h.path_guarded owners.toList fun _ => Array.mem_toList_iff.1
  have parent : Guarded.parent? below owners = .ok view.parent? := by
    rw [Guarded.parent?, ← h.parent_eq]
    cases last : owners.back? with
    | none => rfl
    | some position =>
        have member := Array.mem_of_back? last
        obtain ⟨node, found⟩ := h.exists_owner member
        dsimp only
        rw [h.ancestor_eq member found, Option.bind_some, found]
        rfl
  have seen : Guarded.view below owners ambient =
      .ok ⟨⟨fun _ => Machine.path below owners⟩, owners.size, view.parent?, ambient⟩ := by
    rw [Guarded.view, path, parent]
    rfl
  rw [seen]
  congr 1
  ext1
  · exact h.path_eq
  · exact h.size_eq
  · rfl
  · exact same

end Standing

/-! ## Iterations that are guarded -/

def Step.turn? : Step σ → Option (Turn σ)
  | .next m state => some (.next m.stacks state)
  | .done m state halt => some (.done m.whole state halt)
  | .stuck => none

def Step.Guards (step : Step σ) (guarded : Guarded (Turn σ)) : Prop :=
  ∃ turn, guarded = .ok turn ∧ step.turn? = some turn

namespace Stack

variable {k : Stack} {before rest : List Node} {state : σ}

theorem unwind_machine (k : Stack) (before siblings : List Node) :
    Guarded.unwind (k.below.push (k.frame before siblings)) =
      .ok (k.machine before siblings).whole := k.standing.unwind_eq _

theorem view_frame (k : Stack) (before siblings : List Node) :
    Guarded.view k.below k.owners (k.frame before siblings).ambient = .ok k.view :=
  k.standing.view_guarded rfl

theorem get_frame (k : Stack) (before rest : List Node) (node : Node) :
    Guarded.get (k.frame before (node :: rest)).nodes (k.frame before (node :: rest)).index =
      .ok node := Guarded.get_of (k.frame_current before node rest)

theorem frame_advance (k : Stack) (before nodes rest : List Node) :
    (k.frame before (nodes ++ rest)).advance nodes.length = k.frame (before ++ nodes) rest := by
  simp [frame, Frame.advance]

theorem leave_guarded (node : Node) : ((k.machine before (node :: rest)).leave v state).Guards
    (Guarded.leave v k.below k.owners (k.frame before (node :: rest)) state) := by
  obtain ⟨x, exited⟩ : ∃ x, v.exit k.view node state = x := ⟨_, rfl⟩
  rw [leave_eq exited]
  simp only [Guarded.leave, view_frame, get_frame, Except.bind, exited, frame_put, unwind_machine]
  cases flow : x.flow with
  | halt => exact ⟨_, rfl, rfl⟩
  | proceed =>
      have after := k.frame_advance before [x.node] rest
      exact ⟨_, rfl, congrArg (fun frame => some (Turn.next ⟨k.below.push frame, k.owners⟩ x.state))
        after.symm⟩

theorem splice_frame (k : Stack) (before rest nodes : List Node) (node : Node) :
    Guarded.splice (k.frame before (node :: rest)).nodes (k.frame before (node :: rest)).index
      nodes = .ok (k.frame before (nodes ++ rest)).nodes := by
  rw [Guarded.splice, if_pos (by simp [frame]), frame, splice_place]
  rfl

theorem enter_guarded {node : Node} (kind : node.kind ≠ .context) :
    ((k.machine before (node :: rest)).step v state).Guards
      (Guarded.enter v k.below k.owners (k.frame before (node :: rest)) node state) := by
  obtain ⟨e, entered⟩ : ∃ e, v.enter k.view node state = e := ⟨_, rfl⟩
  simp only [Guarded.enter, view_frame, Except.bind, entered, frame_put, unwind_machine]
  cases verdict : e.verdict with
  | halt =>
      rw [step_halt kind entered verdict]
      exact ⟨_, rfl, rfl⟩
  | replace nodes revisit =>
      simp only [splice_frame]
      cases revisit with
      | true =>
          rw [step_revisit nodes kind entered verdict]
          exact ⟨_, rfl, rfl⟩
      | false =>
          have after := k.frame_advance before nodes rest
          rw [step_pass nodes kind entered verdict]
          exact ⟨_, rfl, congrArg
            (fun frame => some (Turn.next ⟨k.below.push frame, k.owners⟩ e.state)) after.symm⟩
  | skip =>
      have none : e.inside = [] := by rw [Entered.inside, verdict]
      rw [step_leaves kind entered (by rw [verdict]; rfl) none]
      exact leave_guarded e.node
  | descend =>
      have inside : e.inside = e.node.children := by rw [Entered.inside, verdict]
      simp only [get_frame]
      split
      · next none =>
        have stays : e.verdict.stays := by rw [verdict]; rfl
        rw [step_leaves kind entered stays (inside.trans (List.isEmpty_iff.1 none))]
        exact leave_guarded e.node
      · next some =>
        rw [← inside, List.isEmpty_iff] at some
        obtain ⟨head, refill, -, step⟩ := step_opens kind entered before rest some
        have shape : e.node = .block head e.inside := e.refill_inside.symm.trans (refill e.inside)
        rw [step, shape]
        exact ⟨_, rfl, rfl⟩

theorem finish_eq {k' : Stack} {head : Head} (nodes : List Node)
    (below : k'.below = k.below.push (k.frame before (.block head [] :: rest))) :
    Guarded.finish v (k'.machine nodes []).stacks (k'.frame nodes []) state =
      match k'.owner with
      | .node => Guarded.leave v k.below k'.owners.pop (k.frame before (.block head nodes :: rest))
          state
      | _ =>
          let parent := (k.frame before (.block head nodes :: rest)).advance 1
          .ok (.next ⟨k.below.push parent, k'.owners⟩ state) := by
  have frames : (k'.machine nodes []).stacks.frames.pop =
      k.below.push (k.frame before (.block head [] :: rest)) := by
    rw [← below]
    exact Array.pop_push
  have parent : Guarded.get #[k.frame before (.block head [] :: rest)] 0 =
      .ok (k.frame before (.block head [] :: rest)) := rfl
  have all : (k'.frame nodes []).nodes = nodes.toArray := by simp [frame]
  have current := k.frame_current before (.block head []) rest
  simp only [Guarded.finish, frames, Guarded.pred_push, Except.bind, Guarded.split_push, parent,
    Guarded.putBack_eq current, all, frame_refill]
  rfl

theorem step_guarded (k : Stack) (before siblings : List Node) (state : σ) :
    ((k.machine before siblings).step v state).Guards
      (Guarded.step v (k.machine before siblings).stacks state) := by
  have top : Guarded.pred (k.machine before siblings).stacks.frames.size = .ok k.below.size :=
    Guarded.pred_push ..
  have frame : Guarded.get (k.machine before siblings).stacks.frames k.below.size =
      .ok (k.frame before siblings) := Guarded.get_push ..
  simp only [Guarded.step, top, frame, Except.bind]
  cases siblings with
  | nil =>
      rw [if_pos (by simp [Stack.frame])]
      -- the finished frame is that of the roots, or goes back to a node or a wrapper below
      obtain rfl | ⟨k, before', head, rest, rfl⟩ | ⟨k, before', overlay, rest, rfl⟩ :=
        k.exists_below
      · have all : Guarded.unwind (root.machine before []).stacks.frames =
            .ok (root.machine before []).whole := unwind_machine ..
        rw [if_pos (show root.below.size = 0 from rfl), step_close_root, all]
        exact ⟨_, rfl, rfl⟩
      · have owners : (k.node before' head rest).owners.pop = k.owners := by simp [node]
        rw [if_neg (by simp), finish_eq before rfl, step_close_node, owners]
        exact leave_guarded (.block head before)
      · have after := k.frame_advance before' [.block (.context overlay) before] rest
        rw [if_neg (by simp), finish_eq before rfl, step_close_wrapper]
        exact ⟨_, rfl, congrArg (fun frame => some (Turn.next ⟨k.below.push frame, k.owners⟩ state))
          after.symm⟩
  | cons node rest =>
      have parts : Guarded.split (k.machine before (node :: rest)).stacks.frames k.below.size =
          .ok (k.below, #[k.frame before (node :: rest)]) := Guarded.split_push ..
      have here : Guarded.get #[k.frame before (node :: rest)] 0 =
          .ok (k.frame before (node :: rest)) := rfl
      rw [if_neg (by simp [Stack.frame])]
      simp only [parts, here, get_frame]
      by_cases kind : node.kind = .context
      · obtain ⟨overlay, children, rfl⟩ := Node.exists_of_context kind
        rw [step_context]
        refine ⟨_, rfl, ?_⟩
        rw [frame_put]
        rfl
      · have guarded : ((k.machine before (node :: rest)).step v state).Guards
            (Guarded.enter v k.below k.owners (k.frame before (node :: rest)) node state) :=
          enter_guarded kind
        cases node with
        | leaf l => exact guarded
        | block head children =>
            cases head with
            | context overlay => exact absurd rfl kind
            | _ => exact guarded

end Stack

/-! ## Sound stacks -/

namespace Stacks.Sound

variable {below : Array Frame} {owners : Array Nat} {parent top : Frame} {head : Head}

theorem place_push {xs : Array Frame} {x frame : Frame} {i : Nat} :
    (xs.push x)[i]? = some frame ↔ (i = xs.size ∧ frame = x) ∨ xs[i]? = some frame := by
  rw [Array.getElem?_push]
  split
  · next last => simp [last, eq_comm]
  · next inner => simp [inner]

theorem base (owner : top.owner = .root) (within : top.index ≤ top.nodes.size) :
    Sound ⟨#[].push top, #[]⟩ where
  nonempty := Nat.one_pos
  bottom i frame place := by
    rcases place_push.1 place with ⟨rfl, rfl⟩ | place
    · simp [owner]
    · simp at place
  below i frame _ under := absurd under (Nat.not_lt.2 (Nat.le_add_left 1 i))
  top frame last := by
    obtain rfl : top = frame := by simpa using last
    exact within
  increasing := .nil
  owners i := by
    have none : ¬ ∃ frame, (#[].push top)[i]? = some frame ∧ frame.owner = .node := by
      rintro ⟨frame, place, node⟩
      rcases place_push.1 place with ⟨-, rfl⟩ | place
      · rw [owner] at node
        cases node
      · simp at place
    exact iff_of_false (Array.not_mem_empty i) none

theorem push (sound : Sound ⟨below.push parent, owners⟩)
    (current : parent.current? = some (.block head [])) (within : top.index ≤ top.nodes.size)
    (nested : top.owner ≠ .root) :
    Sound ⟨(below.push parent).push top,
      if top.owner = .node then owners.push (below.push parent).size else owners⟩ where
  nonempty := by simp
  bottom i frame place := by
    rcases place_push.1 place with ⟨rfl, rfl⟩ | place
    · simp [nested]
    · exact sound.bottom i frame place
  below i frame place under := by
    rcases place_push.1 place with ⟨rfl, rfl⟩ | place
    · simp at under
    · rcases place_push.1 place with ⟨rfl, rfl⟩ | inner
      · exact ⟨(Array.getElem?_eq_some_iff.1 current).1, head, current⟩
      · obtain ⟨less, -⟩ := Array.getElem?_eq_some_iff.1 inner
        exact sound.below i frame place (by simpa using less)
  top frame last := by
    obtain rfl : top = frame := by simpa using last
    exact within
  increasing := by
    split
    · rw [Array.toList_push, List.pairwise_append]
      refine ⟨sound.increasing, List.pairwise_singleton _ _, fun i member j last => ?_⟩
      obtain ⟨frame, place, -⟩ := (sound.owners i).1 (Array.mem_toList_iff.1 member)
      obtain rfl := List.mem_singleton.1 last
      exact (Array.getElem?_eq_some_iff.1 place).1
    · exact sound.increasing
  owners i := by
    -- the new frame is at the one position that was free, so the others are owners as before
    have before := sound.owners i
    have place (frame : Frame) := @place_push (below.push parent) top frame i
    simp only [place, or_and_right, exists_or, ← before]
    split
    · next node =>
      rw [Array.mem_push, or_comm]
      simp [node]
    · next other => simp [other]

end Stacks.Sound

theorem Standing.sound {below : Array Frame} {owners : Array Nat} {owner : Owner} {view : View}
    (h : Standing below owners owner view) {top : Frame} (same : top.owner = owner)
    (within : top.index ≤ top.nodes.size) : Stacks.Sound ⟨below.push top, owners⟩ := by
  induction h generalizing top with
  | root => exact .base same within
  | node standing ambient current ih =>
      have inner := Nat.le_of_lt (Array.getElem?_eq_some_iff.1 current).1
      have sound := (ih rfl inner).push current within (by rw [same]; nofun)
      rwa [if_pos same, Array.size_push] at sound
  | wrapper standing ambient current ih =>
      have inner := Nat.le_of_lt (Array.getElem?_eq_some_iff.1 current).1
      have sound := (ih rfl inner).push current within (by rw [same]; nofun)
      rwa [if_neg (by rw [same]; nofun)] at sound

theorem Stack.sound (k : Stack) (before siblings : List Node) :
    (k.machine before siblings).stacks.Sound :=
  k.standing.sound rfl (by simp [Stack.machine, Stack.frame])

theorem Stack.run_guarded (fuel : Nat) (k : Stack) (before siblings : List Node) (state : σ) :
    Guarded.run v fuel (k.machine before siblings).stacks state =
      .ok ((k.machine before siblings).run v fuel state) := by
  -- each machine of the walk stands on a stack again, so the guards hold at the next one too
  induction fuel generalizing k before siblings state with
  | zero => rfl
  | succ fuel ih =>
      obtain ⟨turn, guarded, same⟩ := step_guarded (v := v) k before siblings state
      have sound := k.step_sound (v := v) before siblings state
      rw [Guarded.run, guarded, Machine.run]
      cases action : (k.machine before siblings).step v state with
      | next m state' =>
          rw [action] at same sound
          obtain ⟨k', before', siblings', rfl⟩ := sound
          cases same
          exact ih k' before' siblings' state'
      | done m state' halt =>
          rw [action] at same
          cases same
          rfl
      | stuck =>
          rw [action] at sound
          cases sound

/-- On every machine that a walk comes to, the stacks are sound. The next iteration meets no trap
and is the step of the machine, and unwinding meets none and gives the tree that the machine holds.
So a guarded walk ends as the walk itself does. -/
theorem walks_guarded (v : Visitor σ) (nodes : List Node) (state : σ) :
    (∀ m s, Machine.Reaches v (.start nodes) state m s →
      m.stacks.Sound ∧ (m.step v s).Guards (Guarded.step v m.stacks s) ∧
        Guarded.unwind m.stacks.frames = .ok m.whole) ∧
    ∀ fuel, Guarded.run v fuel (Machine.start nodes).stacks state =
      .ok (iterative v fuel nodes state) := by
  constructor
  · intro m s reached
    obtain ⟨k, before, siblings, rfl⟩ := Machine.reaches_stack reached
    exact ⟨k.sound before siblings, k.step_guarded before siblings s,
      k.unwind_machine before siblings⟩
  · intro fuel
    exact Stack.run_guarded fuel .root [] nodes state

theorem walks_guarded_behind_inserted :
    let v : Visitor Unit := .ofEnter fun _ node _ =>
      ⟨(), node, if node.text = "x" then [[.comment "a", .comment "b"]] else [],
        if node.text = "x" then .skip else .proceed⟩
    let nodes : List Node := [.context .empty [.rule "r" [.comment "x", .comment "y"]]]
    ∃ m, Machine.Reaches v (.start nodes) () m () ∧ m.stacks.owners = #[2] ∧
      m.stacks.Sound ∧ Guarded.unwind m.stacks.frames =
        .ok [.context .empty [.rule "r" [.comment "a", .comment "b", .comment "y"]]] := by
  intro v nodes
  have reached : Machine.Reaches v (.start nodes) () _ () :=
    .next (.next (.next .refl rfl) rfl) rfl
  obtain ⟨sound, -, unwound⟩ := (walks_guarded v nodes ()).1 _ () reached
  refine ⟨_, reached, rfl, sound, unwound.trans ?_⟩
  rfl

end StyleTree.Walk
