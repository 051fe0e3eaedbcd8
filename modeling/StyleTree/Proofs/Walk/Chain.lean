import StyleTree.Proofs.Walk.DepthLimit

namespace StyleTree.Walk

universe u
variable {σ : Type u} {v : Visitor σ}

def ruleAt (level : Nat) : Node := .rule (".l" ++ toString level) []

def levelView (level : Nat) : View where
  ancestors := ⟨fun _ => (List.range level).map ruleAt⟩
  depth := level
  parent? := ((List.range level).map ruleAt).getLast?
  ambient := .empty

theorem levelView_succ (level : Nat) (inside : List Node) :
    (levelView level).below (.block (Node.levelRule level) inside) = levelView (level + 1) := by
  have path : (List.range (level + 1)).map ruleAt =
      (List.range level).map ruleAt ++ [.block (Node.levelRule level) []] := by
    rw [List.range_succ, List.map_append]
    rfl
  ext1
  · exact path.symm
  · rfl
  · have last := congrArg List.getLast? path
    rw [List.getLast?_concat] at last
    exact last.symm
  · rfl

def Call.shown (c : Call σ) : Hook × View × Node := (c.hook, c.view, c.node.bare)

namespace Visitor.Idle

theorem around_calls (idle : v.Idle) (view : View) (node : Node) (inside : σ → Tour σ)
    (state : σ) :
    ∃ s s', (Tour.around v view node inside state).calls =
      ⟨.enter, view, node, state⟩ :: ((inside s).calls ++ [⟨.exit, view, node, s'⟩]) := by
  have proceeds : (v.enter view node state).action ≠ .skip := by
    rw [idle.action]
    nofun
  refine ⟨(v.enter view node state).state, (inside (v.enter view node state).state).state, ?_⟩
  simp only [Tour.around, if_neg proceeds]

theorem tour_enters (idle : v.Idle) (view : View) {n : Node} (kind : n.kind ≠ .context)
    (state : σ) : (tour v view n state).calls.head? = some ⟨.enter, view, n, state⟩ := by
  cases n with
  | leaf l =>
      obtain ⟨_, _, calls⟩ := idle.around_calls view (.leaf l) .nothing state
      rw [tour, calls, List.head?_cons]
  | block head children =>
      cases head with
      | context => exact absurd rfl kind
      | _ =>
          obtain ⟨_, _, calls⟩ := idle.around_calls view _ (tours v (view.below _) children) state
          rw [tour, calls, List.head?_cons]
          nofun

theorem tour_rule (idle : v.Idle) (level : Nat) (n : Node) (state : σ) :
    ∃ s s', (tour v (levelView level) (.block (Node.levelRule level) [n]) state).calls =
      ⟨.enter, levelView level, .block (Node.levelRule level) [n], state⟩ ::
        ((tour v (levelView (level + 1)) n s).calls ++
          [⟨.exit, levelView level, .block (Node.levelRule level) [n], s'⟩]) := by
  obtain ⟨s, s', around⟩ := idle.around_calls (levelView level) (.block (Node.levelRule level) [n])
    (tours v (levelView (level + 1)) [n]) state
  have inside : (tours v (levelView (level + 1)) [n] s).calls =
      (tour v (levelView (level + 1)) n s).calls := by
    rw [tours, tours]
    exact List.append_nil _
  refine ⟨s, s', ?_⟩
  rw [← inside, ← around, tour, levelView_succ]
  nofun

theorem tour_chain (idle : v.Idle) (levels : Nat) (n : Node) (state : σ) :
    ∃ downs ups s,
      (tour v .root (Node.chain levels n) state).calls =
        downs ++ ((tour v (levelView levels) n s).calls ++ ups) ∧
      downs.map Call.shown = (List.range levels).map (fun i => (.enter, levelView i, ruleAt i)) ∧
      ups.map Call.shown =
        ((List.range levels).map fun i => (.exit, levelView i, ruleAt i)).reverse := by
  induction levels generalizing n with
  | zero => exact ⟨[], [], state, (List.append_nil _).symm, rfl, rfl⟩
  | succ level ih =>
      -- a chain with one level more is one that ends in a rule around the node
      obtain ⟨downs, ups, s, calls, down, up⟩ := ih (.block (Node.levelRule level) [n])
      obtain ⟨s', s'', rule⟩ := idle.tour_rule level n s
      refine ⟨downs ++ [⟨.enter, levelView level, .block (Node.levelRule level) [n], s⟩],
        ⟨.exit, levelView level, .block (Node.levelRule level) [n], s''⟩ :: ups, s', ?_, ?_, ?_⟩
      · rw [Node.chain, Node.chainWith, ← Node.chain, calls, rule]
        simp
      · rw [List.map_append, down, List.range_succ, List.map_append]
        rfl
      · rw [List.map_cons, up, List.range_succ, List.map_append, List.reverse_append]
        rfl

end Visitor.Idle

/-- The work list finds the depth of every list of nodes, which is their deepest level, and a chain
adds its levels to the depth of the node at its end. A walk that nothing holds up goes down the
rules of the chain, each at the depth of its level, and comes to the node under exactly these
rules; after all that is inside of it, it goes up again. -/
theorem walks_chain :
    (∀ nodes, Node.measuredDepth nodes = Node.depths nodes) ∧
    (∀ levels n, Node.measuredDepth [Node.chain levels n] = levels + Node.measuredDepth [n]) ∧
    ∀ {σ : Type u} {v : Visitor σ}, v.Idle → ∀ (e : Engine) levels {n : Node},
      n.kind ≠ .context → ∀ state : σ, ∃ downs inside ups run,
        (∀ calls r, e.Walks v [Node.chain levels n] state calls r ↔
          calls = downs ++ (inside ++ ups) ∧ r = run) ∧
        downs.map Call.shown = (List.range levels).map (fun i => (.enter, levelView i, ruleAt i)) ∧
        (∃ s, inside = (tour v (levelView levels) n s).calls ∧
          inside.head? = some ⟨.enter, levelView levels, n, s⟩) ∧
        ups.map Call.shown =
          ((List.range levels).map fun i => (.exit, levelView i, ruleAt i)).reverse := by
  refine ⟨Node.measuredDepth_eq, Node.measuredDepth_chain, ?_⟩
  intro σ v idle e levels n kind state
  obtain ⟨run, walks⟩ := idle.walks_tour e [Node.chain levels n] state
  obtain ⟨downs, ups, s, calls, down, up⟩ := idle.tour_chain levels n state
  have all : (tours v .root [Node.chain levels n] state).calls =
      downs ++ ((tour v (levelView levels) n s).calls ++ ups) := by
    rw [← calls, tours, tours]
    exact List.append_nil _
  rw [all] at walks
  exact ⟨downs, _, ups, run, walks, down, ⟨s, rfl, idle.tour_enters _ kind s⟩, up⟩

theorem walks_chain_of_two :
    let v : Visitor Nat :=
      { enter := fun _ node count => ⟨count + 1, node, [], .proceed⟩
        exit := fun _ node count => ⟨count + 1, node, .proceed⟩ }
    let leaf : Node := .comment "x"
    v.Idle ∧ leaf.kind ≠ .context ∧ ∃ calls run,
      Engine.iterative.Walks v [Node.chain 2 leaf] 0 calls run ∧
      calls.map Call.shown = [(.enter, levelView 0, ruleAt 0), (.enter, levelView 1, ruleAt 1),
        (.enter, levelView 2, leaf), (.exit, levelView 2, leaf), (.exit, levelView 1, ruleAt 1),
        (.exit, levelView 0, ruleAt 0)] := by
  intro v leaf
  have idle : v.Idle :=
    ⟨fun _ _ _ => rfl, fun _ _ _ => rfl, fun _ _ _ => rfl, fun _ _ _ => rfl, fun _ _ _ => rfl⟩
  have kind : leaf.kind ≠ .context := by decide
  obtain ⟨downs, inside, ups, run, walks, down, ⟨s, rfl, -⟩, up⟩ :=
    walks_chain.2.2 idle .iterative 2 kind 0
  refine ⟨idle, kind, _, run, (walks _ _).2 ⟨rfl, rfl⟩, ?_⟩
  rw [List.map_append, List.map_append, down, up]
  rfl

end StyleTree.Walk
