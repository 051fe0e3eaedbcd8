import StyleTree.Proofs.Walk.DepthLimit
import StyleTree.Proofs.Walk.Interruption

namespace StyleTree.Walk

universe u
variable {σ : Type u} {v : Visitor σ}

/-- No hook makes its node deeper, nor are the nodes deeper that take the place of a node. No enter
hook makes a context of its node, which would be a level less than the walk takes it for. -/
structure Visitor.KeepsDepth (v : Visitor σ) : Prop where
  entered : ∀ view node state, node.kind ≠ .context →
    (v.enter view node state).node.depth ≤ node.depth
  shown : ∀ view node state, node.kind ≠ .context → (v.enter view node state).node.kind ≠ .context
  inserted : ∀ view node state, node.kind ≠ .context →
    Node.depths (v.enter view node state).verdict.inserted ≤ node.depth
  exited : ∀ view node state, node.kind ≠ .context →
    (v.exit view node state).node.depth ≤ node.depth

theorem Entered.depths_inside_lt {e : Entered σ} (kind : e.node.kind ≠ .context) :
    Node.depths e.inside < e.node.depth := by
  have positive := Node.depth_pos kind
  cases verdict : e.verdict with
  | descend =>
      cases shape : e.node with
      | leaf => simp [inside, verdict, shape, Node.children, Node.depths, Node.depth]
      | block head children =>
          rw [shape] at kind
          simp [inside, verdict, shape, Node.children, Node.depth_block kind]
  | _ => simpa [inside, verdict, Node.depths] using positive

theorem Entered.depth_refill_le {e : Entered σ} (kind : e.node.kind ≠ .context)
    {children : List Node} (less : Node.depths children ≤ Node.depths e.inside) :
    (e.refill children).depth ≤ e.node.depth := by
  cases verdict : e.verdict with
  | descend =>
      cases shape : e.node with
      | leaf => simp [refill, verdict, shape, Node.withChildren]
      | block head children' =>
          rw [shape] at kind
          simp only [inside, verdict, shape, Node.children] at less
          simp only [refill, verdict, shape, Node.withChildren]
          have refilled : (Node.block head children).depth = Node.depths children + 1 :=
            Node.depth_block kind
          rw [Node.depth_block kind, refilled]
          omega
  | _ => simp [refill, verdict]

structure Bounded (view : View) (siblings : List Node) (calls : List (Call σ)) (run : Run σ) :
    Prop where
  left : Node.depths run.nodes ≤ Node.depths siblings
  calls : ∀ c ∈ calls, c.view.depth < view.depth + Node.depths siblings

namespace Bounded

variable {view view' : View} {node : Node} {rest nodes siblings : List Node} {state : σ}
  {calls calls' : List (Call σ)} {run : Run σ}

theorem widen (bounded : Bounded view' nodes calls run)
    (levels : view'.depth + Node.depths nodes ≤ view.depth + Node.depths siblings) :
    ∀ c ∈ calls, c.view.depth < view.depth + Node.depths siblings :=
  fun c member => Nat.lt_of_lt_of_le (bounded.calls c member) levels

theorem widen_rest (bounded : Bounded view rest calls run) :
    ∀ c ∈ calls, c.view.depth < view.depth + Node.depths (node :: rest) :=
  bounded.widen (Nat.add_le_add_left (Nat.le_max_right ..) _)

theorem at_node (kind : node.kind ≠ .context) :
    view.depth < view.depth + Node.depths (node :: rest) := by
  have positive := Node.depth_pos kind
  rw [Node.depths]
  omega

theorem left_cons {left : Node} (first : left.depth ≤ node.depth)
    (others : Node.depths nodes ≤ Node.depths rest) :
    Node.depths (left :: nodes) ≤ Node.depths (node :: rest) := by
  rw [Node.depths, Node.depths]
  omega

end Bounded

namespace Visitor.KeepsDepth

variable {view : View} {node : Node} {rest nodes : List Node} {state : σ} {e : Entered σ}
  {calls : List (Call σ)} {inner : Run σ}

theorem depths_inserted (keeps : v.KeepsDepth) (kind : node.kind ≠ .context)
    (entered : v.enter view node state = e) {revisit : Bool}
    (verdict : e.verdict = .replace nodes revisit) : Node.depths nodes ≤ node.depth := by
  have inserted := keeps.inserted view node state kind
  rwa [entered, verdict] at inserted

theorem inside (keeps : v.KeepsDepth) (kind : node.kind ≠ .context)
    (entered : v.enter view node state = e)
    (within : Bounded (view.below e.node) e.inside calls inner) (rest : List Node) :
    (∀ c ∈ calls, c.view.depth < view.depth + Node.depths (node :: rest)) ∧
      (e.refill inner.nodes).depth ≤ node.depth ∧
      ∀ x, v.exit view (e.refill inner.nodes) inner.state = x → x.node.depth ≤ node.depth := by
  subst entered
  have shown := keeps.shown view node state kind
  have whole := keeps.entered view node state kind
  have less := Entered.depths_inside_lt shown
  have refilled := Nat.le_trans (Entered.depth_refill_le shown within.left) whole
  refine ⟨within.widen ?_, refilled, ?_⟩
  · simp only [View.below, Node.depths]
    omega
  · rintro _ rfl
    rw [← Entered.kind_refill _ inner.nodes] at shown
    exact Nat.le_trans (keeps.exited view _ inner.state shown) refilled

end Visitor.KeepsDepth

theorem Sweep.bounded (keeps : v.KeepsDepth) {view : View} {index : Nat} {siblings : List Node}
    {state : σ} {calls : List (Call σ)} {run : Run σ}
    (sweep : Sweep v view index siblings state calls run) : Bounded view siblings calls run := by
  induction sweep with
  | nil => exact ⟨Nat.le_refl _, nofun⟩
  | @context view _ overlay children rest _ _ _ _ _ _ _ _ within later =>
      refine ⟨Bounded.left_cons within.left later.left, ?_⟩
      have levels : view.depth + Node.depths children ≤
          view.depth + Node.depths (.block (.context overlay) children :: rest) :=
        Nat.add_le_add_left (Nat.le_max_left ..) _
      exact List.forall_mem_append.2 ⟨within.widen levels, later.widen_rest⟩
  | @contextHalt view _ overlay children rest _ _ _ _ _ _ within =>
      refine ⟨Bounded.left_cons within.left (Nat.le_refl _), ?_⟩
      exact within.widen (Nat.add_le_add_left (Nat.le_max_left ..) _)
  | @revisit view _ node rest _ _ nodes _ _ kind entered verdict _ later =>
      have less := keeps.depths_inserted kind entered verdict
      have levels : Node.depths (nodes ++ rest) ≤ Node.depths (node :: rest) := by
        rw [Node.depths_append, Node.depths]
        omega
      refine ⟨Nat.le_trans later.left levels, List.forall_mem_cons.2 ⟨Bounded.at_node kind, ?_⟩⟩
      exact later.widen (Nat.add_le_add_left levels _)
  | pass kind entered verdict _ later =>
      have less := keeps.depths_inserted kind entered verdict
      refine ⟨?_, List.forall_mem_cons.2 ⟨Bounded.at_node kind, later.widen_rest⟩⟩
      have left := later.left
      simp only [Run.after, Node.depths_append, Node.depths]
      omega
  | @halt view _ node _ state _ kind entered verdict =>
      subst entered
      refine ⟨Bounded.left_cons (keeps.entered view node state kind) (Nat.le_refl _), ?_⟩
      exact List.forall_mem_cons.2 ⟨Bounded.at_node kind, nofun⟩
  | insideHalt kind entered stays _ halts within =>
      obtain ⟨calls, refilled, -⟩ := keeps.inside kind entered within _
      refine ⟨Bounded.left_cons refilled (Nat.le_refl _), ?_⟩
      exact List.forall_mem_cons.2 ⟨Bounded.at_node kind, calls⟩
  | exitHalt kind entered stays _ goes exited flow within =>
      obtain ⟨calls, -, left⟩ := keeps.inside kind entered within _
      refine ⟨Bounded.left_cons (left _ exited) (Nat.le_refl _), ?_⟩
      refine List.forall_mem_cons.2 ⟨Bounded.at_node kind, List.forall_mem_append.2 ⟨calls, ?_⟩⟩
      exact List.forall_mem_cons.2 ⟨Bounded.at_node kind, nofun⟩
  | exit kind entered stays _ goes exited flow _ within later =>
      obtain ⟨calls, -, left⟩ := keeps.inside kind entered within _
      refine ⟨Bounded.left_cons (left _ exited) later.left, ?_⟩
      refine List.forall_mem_cons.2 ⟨Bounded.at_node kind, List.forall_mem_append.2 ⟨calls, ?_⟩⟩
      exact List.forall_mem_cons.2 ⟨Bounded.at_node kind, later.widen_rest⟩

theorem Engine.depths_left_le (keeps : v.KeepsDepth) {e : Engine} {nodes : List Node} {state : σ}
    {fuel : Nat} {run : Run σ} (ended : e.walk v fuel nodes state = some run) :
    Node.depths run.nodes ≤ Node.depths nodes := by
  obtain ⟨calls, walks⟩ := Engine.ends_iff_walks.1 ⟨fuel, ended⟩
  exact ((Engine.walks_sweep.1 walks).bounded keeps).left

theorem Visitor.KeepsDepth.limited (keeps : v.KeepsDepth) : v.limited.KeepsDepth where
  entered view node state kind := by
    obtain ⟨state, left⟩ := state
    cases left with
    | zero => exact Nat.le_refl _
    | succ => exact keeps.entered view node state kind
  shown view node state kind := by
    obtain ⟨state, left⟩ := state
    cases left with
    | zero => exact kind
    | succ => exact keeps.shown view node state kind
  inserted view node state kind := by
    obtain ⟨state, left⟩ := state
    cases left with
    | zero => exact Nat.zero_le _
    | succ => exact keeps.inserted view node state kind
  exited view node state kind := by
    obtain ⟨state, left⟩ := state
    cases left with
    | zero => exact Nat.le_refl _
    | succ => exact keeps.exited view node state kind

theorem Engine.Begins.bounded (keeps : v.KeepsDepth) {e : Engine} {nodes : List Node} {state : σ}
    {calls : List (Call σ)} (begins : e.Begins v nodes state calls) :
    ∀ c ∈ calls, c.view.depth < Node.depths nodes ∧ c.view.path.length < Node.depths nodes := by
  intro c member
  obtain ⟨limit, calls', run, walks, first⟩ := begins
  obtain ⟨c', among, rfl⟩ := List.mem_map.1 (first.subset member)
  have bounded := (Engine.walks_sweep.1 walks).bounded keeps.limited
  have less : c'.view.depth < View.root.depth + Node.depths nodes := bounded.calls c' among
  rw [show View.root.depth = 0 from rfl, Nat.zero_add] at less
  obtain ⟨earlier, later, rfl⟩ := List.append_of_mem among
  obtain ⟨k, state', after, -, called⟩ := walks_calls walks
  have length : c'.view.path.length = c'.view.depth := by
    rw [called.view]
    rfl
  exact ⟨less, length ▸ less⟩

end StyleTree.Walk
