import StyleTree.Proofs.Pass.Fuel
import StyleTree.Proofs.Walk.DepthBound
import StyleTree.Proofs.Walk.Weight

namespace StyleTree

namespace Node

variable {p : Node → Bool}

theorem count_block (head : Head) (children : List Node) :
    count p (.block head children) = (if p (.block head []) then 1 else 0) + counts p children := by
  rw [count]

theorem counts_children_le (n : Node) : counts p n.children ≤ n.count p := by
  cases n with
  | leaf => simp [children]
  | block head children => simp [count_block, Node.children]

end Node

universe u

open Node (count counts)
open Pass (isShown isMargin)

namespace Walk

variable {σ : Type u} {v : Visitor σ} {w : Node → Nat} {p : Node → Bool}

theorem total_count (nodes : List Node) : total (count p) nodes = counts p nodes := by
  induction nodes with
  | nil => simp
  | cons n rest ih => simp [ih]

theorem total_add_count (k : Nat) (nodes : List Node) :
    total (fun n => w n + k * n.count p) nodes = total w nodes + k * counts p nodes := by
  induction nodes with
  | nil => simp
  | cons n rest ih =>
      simp only [total_cons, ih, Node.counts_cons, Nat.mul_add]
      omega

theorem Weight.add_count (weight : Weight w) (k : Nat) (p : Node → Bool) :
    Weight fun n => w n + k * n.count p where
  node n kind := by
    have whole := weight.node n kind
    have counted := Nat.mul_le_mul_left k (n.counts_children_le (p := p))
    rw [total_add_count]
    omega
  context overlay children := by
    have whole := weight.context overlay children
    have counted : k * counts p children ≤ k * _ :=
      Nat.mul_le_mul_left k (Node.counts_children_le (.block (.context overlay) children))
    rw [total_add_count]
    omega

theorem weight_shown : Weight (count isShown) where
  node n kind := by
    rw [total_count]
    cases n with
    | leaf l =>
        have shown : isShown (.leaf l) := decide_eq_true kind
        simp [count, shown, Node.children]
    | block head children =>
        have shown : isShown (.block head []) := decide_eq_true kind
        rw [Node.count_block, if_pos shown, Node.children]
        omega
  context overlay children := by
    rw [total_count]
    exact Node.counts_children_le (.block (.context overlay) children)

theorem Visitor.Observes.sheds (observes : v.Observes) (weight : Weight w) : v.Sheds w where
  revisit _ _ _ _ _ verdict := absurd verdict observes.verdict_ne
  descend view node state kind _ := by
    rw [observes.entered]
    exact weight.node node kind

end Walk

namespace Pass

open Walk

def weight (n : Node) : Nat := n.count isShown + 4 * n.count isMargin

theorem weight_weight : Weight weight := weight_shown.add_count 4 isMargin

theorem total_weight (nodes : List Node) :
    total weight nodes = counts isShown nodes + 4 * counts isMargin nodes := by
  rw [← total_count (p := isShown)]
  exact total_add_count 4 nodes

theorem total_weight_sides (d : Declaration) : total weight (marginBySide d) = 4 := by
  simp [marginBySide, sides, weight, count, isShown, Node.kind, Leaf.kind, isMargin,
    Node.declaration?]

theorem sheds : visitor.Sheds weight where
  revisit view node p nodes kind verdict := by
    have whole := weight_weight.node node kind
    obtain ⟨d, margin, rfl, rfl⟩ | ⟨text, span, rfl, rfl⟩ := replaced_cases view p verdict
    · rw [total_weight_sides]
      simp [weight, count, isShown, Node.kind, Leaf.kind, isMargin, Node.declaration?, margin]
    · exact whole
  descend view node p kind _ := by
    rw [entered_children]
    exact weight_weight.node node kind

theorem keepsDepth : visitor.KeepsDepth where
  entered view node p _ := by
    rcases entered_cases view p node with same | ⟨d, d', rfl, left⟩
    · rw [same]
    · rw [left]
      exact Nat.le_refl 1
  shown view node p kind := by
    rcases entered_cases view p node with same | ⟨d, d', rfl, left⟩
    · rwa [same]
    · rw [left]
      exact kind
  inserted view node p kind := by
    cases verdict : (visitor.enter view node p).verdict with
    | replace nodes =>
        obtain ⟨d, -, rfl, rfl⟩ | ⟨text, span, rfl, rfl⟩ := replaced_cases view p verdict
        · exact Nat.le_refl 1
        · exact Nat.zero_le 1
    | _ => exact Nat.zero_le _
  exited _ _ _ _ := Nat.le_refl _

end Pass

namespace Walk

variable {σ : Type u} {v : Visitor σ} {w : Node → Nat}

def Engine.EndsWithin (e : Engine) (v : Visitor σ) (nodes : List Node) (state : σ) (bound : Nat) :
    Prop :=
  ∃ calls run, (∃ fuel, e.walk v fuel nodes state = some run) ∧
    (∀ calls' r, e.Walks v nodes state calls' r ↔ calls' = calls ∧ r = run) ∧
    calls.countP Call.isEnter ≤ bound

theorem Visitor.Sheds.endsWithin (sheds : v.Sheds w) (weight : Weight w) (e : Engine)
    (nodes : List Node) (state : σ) : e.EndsWithin v nodes state (total w nodes) := by
  obtain ⟨calls, run, sweep, bound⟩ := Sweep.exists_of_weight weight sheds .root 0 nodes state
  exact ⟨calls, run, (Engine.ends_exactly sweep e run).2 rfl, Engine.walks_exactly sweep e, bound⟩

/-- Every walk ends of a visitor that sheds the weight of the nodes it enters, and it enters no more
nodes than its tree weighs. A visitor that only looks enters no node twice. The standard pass enters
the sides of each margin besides. -/
theorem walks_shed (e : Engine) (nodes : List Node) :
    (∀ (σ : Type u) (v : Visitor σ) (w : Node → Nat), Weight w → v.Sheds w →
      ∀ state, e.EndsWithin v nodes state (total w nodes)) ∧
    (∀ (σ : Type u) (v : Visitor σ), v.Observes →
      ∀ state, e.EndsWithin v nodes state (counts isShown nodes)) ∧
    ∀ p : Pass,
      e.EndsWithin Pass.visitor nodes p (counts isShown nodes + 4 * counts isMargin nodes) := by
  refine ⟨fun σ v w weight sheds => sheds.endsWithin weight e nodes, ?_, ?_⟩
  · intro σ v observes state
    rw [← total_count]
    exact (observes.sheds weight_shown).endsWithin weight_shown e nodes state
  · intro p
    rw [← Pass.total_weight]
    exact Pass.sheds.endsWithin Pass.weight_weight e nodes p

theorem walks_shed_unwrapped :
    let v : Visitor Nat := .ofEnter fun _ node count =>
      ⟨count + 1, node, [], if node.children.isEmpty then .proceed else .replace node.children⟩
    let nodes : List Node :=
      [.rule "a" [.context .empty [.rule "b" [.comment "x"]]], .comment "y"]
    let looks : Visitor Unit := .ofEnter fun _ node _ => ⟨(), node, [], .skip⟩
    Weight (count isShown) ∧ v.Sheds (count isShown) ∧ Engine.iterative.EndsWithin v nodes 0 4 ∧
      looks.Observes ∧ Engine.iterative.EndsWithin looks nodes () 4 := by
  intro v nodes looks
  have sheds : v.Sheds (count isShown) := by
    refine ⟨fun view node state nodes kind verdict => ?_, fun view node state kind _ => ?_⟩
    · have whole := weight_shown.node node kind
      simp only [v, Visitor.ofEnter, Entered.verdict] at verdict
      split at verdict
      · cases verdict
      · cases verdict
        exact whole
    · exact weight_shown.node node kind
  have observes : looks.Observes := by
    refine ⟨fun _ _ _ => rfl, fun _ _ _ => rfl, ?_, fun _ _ _ => rfl⟩
    rintro _ _ _ _ ⟨⟩
  obtain ⟨shed, looked, -⟩ := walks_shed .iterative nodes
  exact ⟨weight_shown, sheds, shed Nat v _ weight_shown sheds 0, observes,
    looked Unit looks observes ()⟩

theorem Config.walk_within (keeps : v.KeepsDepth) {limit : UInt64} {nodes : List Node}
    (within : Node.depths nodes ≤ limit.toNat) {fuel : Nat} {state : σ} {run : Run σ}
    (ended : (⟨.recursive, some limit⟩ : Config).walk v fuel nodes state = .ok (some run)) :
    Node.depths run.nodes ≤ limit.toNat := by
  rw [walk_ok (accepts_iff.2 within), Except.ok.injEq] at ended
  exact Nat.le_trans (Engine.depths_left_le keeps ended) within

theorem Config.exists_pass {c : Config} {nodes : List Node} (accepted : c.refusal? nodes = none)
    (p : Pass) : ∃ run, Pass.run c nodes p = .ok (some run) := by
  obtain ⟨run, ended⟩ := Option.isSome_iff_exists.1
    (Engine.walk_isSome Pass.burns c.engine (Pass.total_lt_fuelFor nodes) p)
  exact ⟨run, by rw [Pass.run, walk_ok accepted, ended]⟩

/-- A tree within the limit of the settings stays within it when its walk keeps to its depth. No
hook is called as deep as the limit. The standard pass can be run on what it leaves of the tree. -/
theorem walks_below (keeps : v.KeepsDepth) {limit : UInt64} {nodes : List Node}
    (within : Node.measuredDepth nodes ≤ limit.toNat) (state : σ) :
    let c : Config := ⟨.recursive, some limit⟩
    (∀ fuel, c.walk v fuel nodes state = .ok (Engine.recursive.walk v fuel nodes state)) ∧
      (∀ calls, Engine.recursive.Begins v nodes state calls → ∀ call ∈ calls,
        call.view.depth < limit.toNat ∧ call.view.path.length < limit.toNat) ∧
      (∀ fuel run, c.walk v fuel nodes state = .ok (some run) →
        Node.measuredDepth run.nodes ≤ limit.toNat) ∧
      Pass.visitor.KeepsDepth ∧
      ∀ p, ∃ run, Pass.run c nodes p = .ok (some run) ∧
        ∀ p', ∃ run', Pass.run c run.nodes p' = .ok (some run') := by
  intro c
  rw [Node.measuredDepth_eq] at within
  have accepted : c.refusal? nodes = none := Config.accepts_iff.2 within
  refine ⟨fun fuel => Config.walk_ok accepted, fun calls begins call member => ?_,
    fun fuel run ended => ?_, Pass.keepsDepth, fun p => ?_⟩
  · have bounded := begins.bounded keeps call member
    exact ⟨Nat.lt_of_lt_of_le bounded.1 within, Nat.lt_of_lt_of_le bounded.2 within⟩
  · rw [Node.measuredDepth_eq]
    exact Config.walk_within keeps within ended
  · obtain ⟨run, ended⟩ := Config.exists_pass accepted p
    have left := Config.walk_within Pass.keepsDepth within ended
    exact ⟨run, ended, Config.exists_pass (Config.accepts_iff.2 left)⟩

theorem walks_below_unwrapped :
    let v : Visitor Nat := .ofEnter fun _ node count =>
      ⟨count + 1, node, [], if count = 1 then .stop else .replace node.children⟩
    let nodes : List Node := [.context .empty [.rule "a" [.atRoot [.comment "x"]]]]
    let c : Config := ⟨.recursive, some 3⟩
    v.KeepsDepth ∧ Node.measuredDepth nodes ≤ 3 ∧ ∃ run, c.walk v 9 nodes 0 = .ok (some run) ∧
      run.outcome = .stopped ∧ Node.measuredDepth run.nodes ≤ 3 := by
  intro v nodes c
  have keeps : v.KeepsDepth := by
    refine ⟨fun _ _ _ _ => Nat.le_refl _, fun _ _ _ kind => kind, ?_, fun _ _ _ _ => Nat.le_refl _⟩
    intro view node count kind
    simp only [v, Visitor.ofEnter, Entered.verdict]
    split
    · exact Nat.zero_le _
    · exact node.depths_children_le
  have within : Node.measuredDepth nodes ≤ (3 : UInt64).toNat := by
    rw [Node.measuredDepth_eq]
    decide
  obtain ⟨walks, -, left, -, -⟩ := walks_below keeps within 0
  let run : Run Nat := ⟨2, [.context .empty [.atRoot [.comment "x"]]], some ⟨.enter, 0⟩⟩
  have ended : c.walk v 9 nodes 0 = .ok (some run) := walks 9
  exact ⟨keeps, within, run, ended, rfl, left 9 run ended⟩

end Walk
end StyleTree
