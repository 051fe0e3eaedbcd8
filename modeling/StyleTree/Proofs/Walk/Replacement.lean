import StyleTree.Proofs.Walk.Site

namespace StyleTree.Walk

universe u
variable {σ : Type u} {v : Visitor σ}

/-- The nodes that take the place of the entered one: the first ones that were asked for, or else
those that the hook returned. -/
def Entered.replacement? (e : Entered σ) : Option (List Node) :=
  match e.requests, e.action with
  | nodes :: _, _ => some nodes
  | [], .replace nodes => some nodes
  | [], _ => none

def Action.walksOn : Action → Bool
  | .proceed => true
  | .replace _ => true
  | .skip => false
  | .stop => false

theorem Entered.verdict_of_replacement {e : Entered σ} {nodes : List Node}
    (asked : e.replacement? = some nodes) : e.verdict = .replace nodes e.action.walksOn := by
  obtain ⟨state, node, requests, action⟩ := e
  cases requests with
  | nil =>
      cases action with
      | replace returned =>
          cases asked
          rfl
      | _ => cases asked
  | cons first more =>
      cases asked
      cases action <;> rfl

theorem Sweep.replaced_iff {view : View} {index : Nat} {node : Node} {rest nodes : List Node}
    {state : σ} {e : Entered σ} {revisit : Bool} {calls : List (Call σ)} {run : Run σ}
    (kind : node.kind ≠ .context) (entered : v.enter view node state = e)
    (verdict : e.verdict = .replace nodes revisit) :
    Sweep v view index (node :: rest) state calls run ↔
      ∃ calls', calls = ⟨.enter, view, node, state⟩ :: calls' ∧
        if revisit then Sweep v view index (nodes ++ rest) e.state calls' run
        else ∃ later, Sweep v view (index + nodes.length) rest e.state calls' later ∧
          run = later.after nodes := by
  subst entered
  constructor
  · intro sweep
    cases sweep with
    | revisit _ entered verdict' later =>
        subst entered
        rw [verdict] at verdict'
        cases verdict'
        exact ⟨_, rfl, later⟩
    | pass _ entered verdict' later =>
        subst entered
        rw [verdict] at verdict'
        cases verdict'
        exact ⟨_, rfl, _, later, rfl⟩
    | context => exact absurd rfl kind
    | contextHalt => exact absurd rfl kind
    | halt _ entered verdict' => simp [← entered, verdict] at verdict'
    | insideHalt _ entered stays => simp [← entered, verdict, Verdict.stays] at stays
    | exitHalt _ entered stays => simp [← entered, verdict, Verdict.stays] at stays
    | exit _ entered stays => simp [← entered, verdict, Verdict.stays] at stays
  · rintro ⟨calls', rfl, later⟩
    cases revisit with
    | true => exact .revisit kind rfl verdict later
    | false =>
        obtain ⟨run', sweep, rfl⟩ := later
        exact .pass kind rfl verdict sweep

/-- After the enter call of a node that is replaced, the walk is that of the nodes in its place and
of the later siblings. After an action to skip or to stop it is that of the later siblings alone,
and the nodes in its place stand before them as they are. -/
theorem walks_replacement {site : Site} {before rest replacement : List Node} {node : Node}
    {state : σ} {e : Entered σ} (kind : node.kind ≠ .context)
    (entered : v.enter site.view node state = e) (asked : e.replacement? = some replacement)
    (calls : List (Call σ)) (run : Run σ) :
    site.Walks v before (node :: rest) state calls run ↔
      ∃ calls', calls = ⟨.enter, site.view, node, state⟩ :: calls' ∧
        if e.action.walksOn then site.Walks v before (replacement ++ rest) e.state calls' run
        else ∃ later, site.Walks v (before ++ replacement) rest e.state calls' later ∧
          run = later.after replacement := by
  simp only [Site.walks_iff, List.length_append]
  exact Sweep.replaced_iff kind entered (e.verdict_of_replacement asked)

theorem walks_replacement_nested :
    let v (action : Action) : Visitor Nat := .ofEnter fun _ node count =>
      if node.text = "x" then ⟨count + 1, node, [[.comment "y"], [node]], action⟩
      else ⟨count + 1, node, [], .proceed⟩
    let inRule := Site.recursive (Trail.empty.push (.rule "a" [])) (.insert .empty "k" (.flag true))
    let inBlock := Site.iterative (Stack.root.node [.comment "w"] .atRoot [.comment "w"])
    inRule.Walks (v (.replace [])) [.comment "b"] [.comment "x", .comment "z"] 0
        [⟨.enter, inRule.view, .comment "x", 0⟩, ⟨.enter, inRule.view, .comment "y", 1⟩,
          ⟨.exit, inRule.view, .comment "y", 2⟩, ⟨.enter, inRule.view, .comment "z", 2⟩,
          ⟨.exit, inRule.view, .comment "z", 3⟩]
        ⟨3, [.comment "y", .comment "z"], none⟩ ∧
      inBlock.Walks (v .stop) [.comment "b"] [.comment "x", .comment "z"] 0
        [⟨.enter, inBlock.view, .comment "x", 0⟩, ⟨.enter, inBlock.view, .comment "z", 1⟩,
          ⟨.exit, inBlock.view, .comment "z", 2⟩]
        ⟨2, [.comment "y", .comment "z"], none⟩ := by
  intro v inRule inBlock
  have kind {text} : (Node.comment text).kind ≠ .context := by rintro ⟨⟩
  have last (action : Action) (view : View) (index count : Nat) :
      Sweep (v action) view index [.comment "z"] count
        [⟨.enter, view, .comment "z", count⟩, ⟨.exit, view, .comment "z", count + 1⟩]
        ⟨count + 1, [.comment "z"], none⟩ :=
    .exitEmpty kind rfl rfl rfl rfl rfl .nil
  constructor
  · have sweep : Sweep (v (.replace [])) inRule.view 1 [.comment "y", .comment "z"] 1 _ _ :=
      .exitEmpty kind rfl rfl rfl rfl rfl (last (.replace []) inRule.view 2 2)
    exact (walks_replacement kind rfl rfl _ _).2 ⟨_, rfl, Site.walks_iff.2 sweep⟩
  · refine (walks_replacement kind rfl rfl _ _).2 ⟨_, rfl, ⟨2, [.comment "z"], none⟩, ?_, rfl⟩
    exact Site.walks_iff.2 (last .stop inBlock.view 2 1)

end StyleTree.Walk
