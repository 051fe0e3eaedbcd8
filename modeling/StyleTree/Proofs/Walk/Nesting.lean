import StyleTree.Proofs.Walk.DepthLimit

namespace StyleTree

namespace Node

mutual

def tier : Node → Nat
  | .leaf _ => 0
  | .block _ children => tiers children + 1

def tiers : List Node → Nat
  | [] => 0
  | n :: rest => max n.tier (tiers rest)

end

mutual

def wrapping : Node → Nat
  | .leaf _ => 0
  | .block head children => wrappings children + if head.isContext then 1 else 0

def wrappings : List Node → Nat
  | [] => 0
  | n :: rest => max n.wrapping (wrappings rest)

end

mutual

theorem tier_le : (n : Node) → n.tier ≤ n.depth + n.wrapping
  | .leaf _ => Nat.zero_le _
  | .block head children => by
      have inside := tiers_le children
      rw [tier, depth, wrapping]
      split <;> omega

theorem tiers_le : (nodes : List Node) → tiers nodes ≤ depths nodes + wrappings nodes
  | [] => Nat.le_refl 0
  | n :: rest => by
      have first := tier_le n
      have later := tiers_le rest
      rw [tiers, depths, wrappings]
      omega

end

def contexts : Nat → List Node
  | 0 => []
  | n + 1 => [.block (.context .empty) (contexts n)]

theorem depths_contexts (n : Nat) : depths (contexts n) = 0 := by
  induction n with
  | zero => rfl
  | succ n ih => simp [contexts, depths, depth, Head.isContext, ih]

end Node

namespace Walk

universe u
variable {σ : Type u} {v : Visitor σ}

def Visitor.beside (v : Visitor σ) : Visitor (σ × Nat) where
  enter view node state := (v.enter view node state.1).map fun state' => (state', state.2)
  exit view node state := (v.exit view node state.1).map fun state' => (state', state.2)

def Visit.enterBy (v : Visitor σ) (go into : Visit σ) (trail : Trail) (ambient : Overlay)
    (nodes : Array Node) (index : Nat) (node : Node) (state : σ) : Option (Run σ) :=
  let entered := v.enter (trail.view ambient) node state
  match entered.verdict with
  | .halt =>
      let nodes := nodes.setIfInBounds index entered.node
      some ⟨entered.state, nodes.toList, some ⟨.enter, index⟩⟩
  | .replace replacement revisit =>
      let nodes := splice nodes index replacement
      let index := if revisit then index else index + replacement.length
      go trail ambient nodes index entered.state
  | _ =>
      (Visit.inside into trail ambient entered).bind fun inner =>
        Visit.resume nodes index (entered.refill inner.nodes) inner
          (Visit.leave v go trail ambient nodes index)

/-- The visit with its nesting number, and beside the state the greatest one so far. The walk of a
list inside the siblings has the next number, and the loop over the siblings keeps its own. -/
def nest (v : Visitor σ) : Nat → Nat → Visit (σ × Nat)
  | 0, _, _, _, _, _, _ => none
  | fuel + 1, number, trail, ambient, nodes, index, (state, greatest) =>
      let state := (state, max greatest number)
      match nodes[index]? with
      | none => some ⟨state, nodes.toList, none⟩
      | some (.block (.context overlay) children) =>
          let ambient' := ambient.merge overlay
          (nest v fuel (number + 1) trail ambient' children.toArray 0 state).bind fun inner =>
            Visit.resume nodes index (.block (.context overlay) inner.nodes) inner
              fun owner state =>
                nest v fuel number trail ambient (nodes.setIfInBounds index owner) (index + 1) state
      | some node =>
          Visit.enterBy v.beside (nest v fuel number) (nest v fuel (number + 1)) trail ambient nodes
            index node state

def nesting (v : Visitor σ) (fuel : Nat) (nodes : List Node) (state : σ) : Option (Run (σ × Nat)) :=
  nest v fuel 1 .empty .empty nodes.toArray 0 (state, 0)

section
variable {trail : Trail} {ambient : Overlay} {nodes : Array Node} {index fuel number greatest : Nat}
  {state : σ}

theorem nest_end (place : nodes[index]? = none) :
    nest v (fuel + 1) number trail ambient nodes index (state, greatest) =
      some ⟨(state, max greatest number), nodes.toList, none⟩ := by
  rw [nest, place]

theorem nest_context {overlay : Overlay} {children : List Node}
    (place : nodes[index]? = some (.block (.context overlay) children)) :
    nest v (fuel + 1) number trail ambient nodes index (state, greatest) =
      (nest v fuel (number + 1) trail (ambient.merge overlay) children.toArray 0
          (state, max greatest number)).bind fun inner =>
        Visit.resume nodes index (.block (.context overlay) inner.nodes) inner fun owner state =>
          nest v fuel number trail ambient (nodes.setIfInBounds index owner) (index + 1) state := by
  rw [nest, place]

theorem nest_node {node : Node} (place : nodes[index]? = some node)
    (kind : node.kind ≠ .context) :
    nest v (fuel + 1) number trail ambient nodes index (state, greatest) =
      Visit.enterBy v.beside (nest v fuel number) (nest v fuel (number + 1)) trail ambient nodes
        index node (state, max greatest number) := by
  rw [nest, place]
  split
  · next h => cases h
  · next h => cases h; exact absurd rfl kind
  · next h => cases h; rfl

end

def Run.unnested (r : Run (σ × Nat)) : Run σ := ⟨r.state.1, r.nodes, r.halt⟩

section
variable {trail : Trail} {ambient : Overlay} {nodes : Array Node} {index fuel number : Nat}
  {node : Node} {state : σ × Nat} {go into : Visit (σ × Nat)} {go' : Visit σ}

theorem Visit.enter_eq (go : Visit σ) (state : σ) :
    Visit.enter v go trail ambient nodes index node state =
      Visit.enterBy v go go trail ambient nodes index node state := by
  obtain ⟨e, entered⟩ : ∃ e, v.enter (trail.view ambient) node state = e := ⟨_, rfl⟩
  cases verdict : e.verdict with
  | halt => simp only [Visit.enter, Visit.enterBy, entered, verdict]
  | replace => simp only [Visit.enter, Visit.enterBy, entered, verdict]
  | _ =>
      have stays : e.verdict.stays := by rw [verdict]; rfl
      simp only [Visit.enter_stays entered stays, Visit.enterBy, entered, verdict]

def Visit.Carries (go : Visit (σ × Nat)) (go' : Visit σ) : Prop :=
  ∀ trail ambient nodes index state,
    (go trail ambient nodes index state).map Run.unnested = go' trail ambient nodes index state.1

theorem Visit.resume_unnested (owner : List Node → Node) {walk : Option (Run (σ × Nat))}
    {walk' : Option (Run σ)} {next : Node → σ × Nat → Option (Run (σ × Nat))}
    {next' : Node → σ → Option (Run σ)} (walked : walk.map Run.unnested = walk')
    (same : ∀ owner state, (next owner state).map Run.unnested = next' owner state.1) :
    (walk.bind fun inner => Visit.resume nodes index (owner inner.nodes) inner next).map
        Run.unnested =
      walk'.bind fun inner => Visit.resume nodes index (owner inner.nodes) inner next' := by
  subst walked
  cases walk with
  | none => rfl
  | some inner =>
      cases halt : inner.halt with
      | some => simp [Visit.resume, Run.unnested, halt]
      | none => simpa [Visit.resume, Run.unnested, halt] using same _ inner.state

theorem Visit.leave_unnested (carries : go.Carries go') :
    (Visit.leave v.beside go trail ambient nodes index node state).map Run.unnested =
      Visit.leave v go' trail ambient nodes index node state.1 := by
  obtain ⟨x, exited⟩ : ∃ x, v.exit (trail.view ambient) node state.1 = x := ⟨_, rfl⟩
  cases flow : x.flow with
  | halt => simp [Visit.leave, Visitor.beside, Exited.map, exited, flow, Run.unnested]
  | proceed => simp [Visit.leave, Visitor.beside, Exited.map, exited, flow, carries _]

theorem Visit.inside_unnested (carries : into.Carries go') (e : Entered σ) (greatest : Nat) :
    (Visit.inside into trail ambient (e.map fun state => (state, greatest))).map Run.unnested =
      Visit.inside go' trail ambient e := by
  obtain ⟨state, node, requests, action⟩ := e
  cases verdict : Action.verdict action requests.head? with
  | descend =>
      cases node with
      | leaf => simp [Visit.inside, Entered.map, Entered.verdict, verdict, Run.unnested]
      | block => simp [Visit.inside, Entered.map, Entered.verdict, verdict, carries _]
  | _ => simp [Visit.inside, Entered.map, Entered.verdict, verdict, Run.unnested]

theorem Visit.enterBy_unnested (carries : go.Carries go') (carries' : into.Carries go') :
    (Visit.enterBy v.beside go into trail ambient nodes index node state).map Run.unnested =
      Visit.enter v go' trail ambient nodes index node state.1 := by
  obtain ⟨e, entered⟩ : ∃ e, v.enter (trail.view ambient) node state.1 = e := ⟨_, rfl⟩
  have entered' : v.beside.enter (trail.view ambient) node state =
      e.map fun state' => (state', state.2) := by rw [← entered]; rfl
  have same : (e.map fun state' => (state', state.2)).verdict = e.verdict := rfl
  rw [Visit.enter_eq]
  simp only [Visit.enterBy, entered, entered', same]
  cases verdict : e.verdict with
  | halt => rfl
  | replace => exact carries ..
  | _ =>
      exact Visit.resume_unnested e.refill (Visit.inside_unnested carries' e state.2)
        fun _ _ => Visit.leave_unnested carries

theorem nest_carries (v : Visitor σ) (fuel number : Nat) :
    (nest v fuel number).Carries (visit v fuel) := by
  induction fuel generalizing number with
  | zero => exact fun _ _ _ _ _ => rfl
  | succ fuel ih =>
      intro trail ambient nodes index ⟨state, greatest⟩
      cases place : nodes[index]? with
      | none =>
          rw [visit_end place, nest_end place]
          rfl
      | some node =>
          by_cases kind : node.kind = .context
          · obtain ⟨overlay, children, rfl⟩ := Node.exists_of_context kind
            rw [visit_context place, nest_context place]
            exact Visit.resume_unnested (.block (.context overlay)) (ih _ ..) fun _ _ => ih _ ..
          · rw [visit_node place kind, nest_node place kind]
            exact Visit.enterBy_unnested (ih _) (ih _)

end

theorem Visit.inside_le {go : Visit (σ × Nat)} {trail : Trail} {ambient : Overlay}
    {e : Entered (σ × Nat)} {inner : Run (σ × Nat)} {number : Nat}
    (within : ∀ {trail children}, go trail ambient children.toArray 0 e.state = some inner →
      inner.state.2 ≤ max e.state.2 (number + 1 + Node.tiers children))
    (walked : Visit.inside go trail ambient e = some inner) :
    inner.state.2 ≤ max e.state.2 (number + e.node.tier) := by
  cases verdict : e.verdict with
  | descend =>
      cases shape : e.node with
      | leaf =>
          simp only [Visit.inside, verdict, shape] at walked
          cases walked
          exact Nat.le_max_left ..
      | block head children =>
          simp only [Visit.inside, verdict, shape] at walked
          have bound := within walked
          rw [Node.tier]
          omega
  | _ =>
      simp only [Visit.inside, verdict] at walked
      cases walked
      exact Nat.le_max_left ..

section
variable {trail : Trail} {ambient : Overlay} {nodes : Array Node} {index bound : Nat} {node : Node}
  {state : σ × Nat} {inner r : Run (σ × Nat)}

theorem Visit.resume_le {next : Node → σ × Nat → Option (Run (σ × Nat))}
    (resumed : Visit.resume nodes index node inner next = some r) (less : inner.state.2 ≤ bound)
    (later : ∀ node state, state.2 ≤ bound → next node state = some r → r.state.2 ≤ bound) :
    r.state.2 ≤ bound := by
  cases halt : inner.halt with
  | some =>
      simp only [Visit.resume, halt] at resumed
      cases resumed
      exact less
  | none =>
      simp only [Visit.resume, halt] at resumed
      exact later _ _ less resumed

theorem Visit.leave_le {go : Visit (σ × Nat)}
    (left : Visit.leave v.beside go trail ambient nodes index node state = some r)
    (less : state.2 ≤ bound)
    (later : ∀ node state, state.2 ≤ bound →
      go trail ambient (nodes.setIfInBounds index node) (index + 1) state = some r →
        r.state.2 ≤ bound) :
    r.state.2 ≤ bound := by
  rw [Visit.leave] at left
  split at left
  · cases left
    exact less
  · exact later _ (v.beside.exit (trail.view ambient) node state).state less left

end

theorem nest_le (observes : v.Observes) {fuel number : Nat} {trail : Trail} {ambient : Overlay}
    (before : List Node) {siblings : List Node} {state : σ × Nat} {r : Run (σ × Nat)}
    (ended : nest v fuel number trail ambient (before ++ siblings).toArray before.length state =
      some r) :
    r.state.2 ≤ max state.2 (number + Node.tiers siblings) := by
  induction fuel generalizing number trail ambient before siblings state r with
  | zero => cases ended
  | succ fuel ih =>
      obtain ⟨state, greatest⟩ := state
      match siblings with
      | [] =>
          rw [nest_end (by simp)] at ended
          cases ended
          exact Nat.le_refl _
      | node :: rest =>
          rw [Node.tiers]
          -- the siblings that are left do not nest deeper either
          have later (owner : Node) (state : σ × Nat)
              (less : state.2 ≤ max greatest (number + max node.tier (Node.tiers rest)))
              (ended : nest v fuel number trail ambient
                ((before ++ node :: rest).toArray.setIfInBounds before.length owner)
                (before.length + 1) state = some r) :
              r.state.2 ≤ max greatest (number + max node.tier (Node.tiers rest)) := by
            rw [set_place] at ended
            have bound : r.state.2 ≤ max state.2 (number + Node.tiers rest) :=
              ih (before ++ [owner]) (by simpa using ended)
            omega
          by_cases kind : node.kind = .context
          · obtain ⟨overlay, children, rfl⟩ := Node.exists_of_context kind
            rw [nest_context (getElem?_place ..), Option.bind_eq_some_iff] at ended
            obtain ⟨inner, walked, ended⟩ := ended
            have bound := ih [] walked
            refine Visit.resume_le ended ?_ later
            rw [Node.tier]
            omega
          · obtain ⟨e, entered⟩ : ∃ e, v.beside.enter (trail.view ambient) node
                (state, max greatest number) = e := ⟨_, rfl⟩
            have same : e.node = node := entered ▸ observes.entered (trail.view ambient) node state
            have number_eq : e.state.2 = max greatest number := by rw [← entered]; rfl
            rw [nest_node (getElem?_place ..) kind] at ended
            simp only [Visit.enterBy, entered] at ended
            cases verdict : e.verdict with
            | halt =>
                simp only [verdict] at ended
                cases ended
                simp only
                omega
            | replace nodes revisit =>
                subst entered
                exact absurd verdict observes.verdict_ne
            | _ =>
                simp only [verdict] at ended
                obtain ⟨inner, walked, ended⟩ := Option.bind_eq_some_iff.1 ended
                have bound := Visit.inside_le (ih []) walked
                rw [same] at bound
                refine Visit.resume_le ended (by omega) fun owner state less ended => ?_
                exact Visit.leave_le ended less later

/-- The walk of an accepted tree by a visitor that only looks comes to an end, and its visits nest
as deep as the limit allows and once more for each context around others. The numbers do not change
what the walk does. -/
theorem walks_nest (observes : v.Observes) {limit : UInt64} {nodes : List Node}
    (accepted : (⟨.recursive, some limit⟩ : Config).refusal? nodes = none) (state : σ) :
    (∃ fuel, (nesting v fuel nodes state).isSome) ∧
    ∀ fuel, (⟨.recursive, some limit⟩ : Config).walk v fuel nodes state =
        .ok ((nesting v fuel nodes state).map Run.unnested) ∧
      ∀ r, nesting v fuel nodes state = some r →
        r.state.2 ≤ 1 + Node.tiers nodes ∧
        r.state.2 ≤ limit.toNat + 1 + Node.wrappings nodes := by
  have carries (fuel : Nat) : (nesting v fuel nodes state).map Run.unnested =
      Engine.recursive.walk v fuel nodes state := nest_carries v fuel 1 ..
  have below := Config.accepts_iff.1 accepted
  refine ⟨?_, fun fuel => ⟨?_, fun r ended => ?_⟩⟩
  · obtain ⟨run, ends, -⟩ := walks_observe observes .recursive nodes state
    obtain ⟨fuel, ended⟩ := (ends run).2 rfl
    refine ⟨fuel, ?_⟩
    rw [← Option.isSome_map (f := Run.unnested), carries, ended]
    rfl
  · rw [Config.walk_ok accepted, carries]
  · have bound : r.state.2 ≤ max 0 (1 + Node.tiers nodes) := nest_le observes [] ended
    have tiers := Node.tiers_le nodes
    omega

theorem walks_nest_around_skipped :
    let v : Visitor Nat := .ofEnter fun _ node count =>
      ⟨count + 1, node, [], if count = 1 then .skip else .proceed⟩
    let nodes : List Node := [.rule "a" [.context .empty [.rule "b" [.comment "x"]]]]
    v.Observes ∧ (⟨.recursive, some 3⟩ : Config).refusal? nodes = none ∧
      (∃ fuel, (nesting v fuel nodes 0).isSome) ∧
      ∀ r, nesting v 9 nodes 0 = some r → r.state.2 ≤ 1 + 3 ∧ r.state.2 ≤ 3 + 1 + 1 := by
  intro v nodes
  have observes : v.Observes := by
    refine ⟨fun _ _ _ => rfl, fun _ _ _ => rfl, fun _ _ count nodes => ?_, fun _ _ _ => rfl⟩
    simp only [v, Visitor.ofEnter]
    split <;> nofun
  have accepted : (⟨.recursive, some 3⟩ : Config).refusal? nodes = none :=
    Config.accepts_iff.2 (by decide)
  obtain ⟨ends, bounded⟩ := walks_nest observes accepted 0
  exact ⟨observes, accepted, ends, (bounded 9).2⟩

theorem nest_contexts (v : Visitor σ) (n number : Nat) (trail : Trail) (ambient : Overlay)
    (state : σ) (greatest : Nat) :
    nest v (n + 1) number trail ambient (Node.contexts n).toArray 0 (state, greatest) =
      some ⟨(state, max greatest (number + n)), Node.contexts n, none⟩ := by
  induction n generalizing number ambient greatest with
  | zero =>
      rw [nest_end rfl]
      rfl
  | succ n ih =>
      have greatest_eq : max (max (max greatest number) (number + 1 + n)) number =
          max greatest (number + (n + 1)) := by omega
      rw [Node.contexts, nest_context rfl, ih, Option.bind_some]
      simp only [Visit.resume]
      rw [nest_end (by simp), greatest_eq]
      rfl

/-- No limit bounds the nesting by itself, whatever the visitor does: a tree of contexts is accepted
under each, and nests as deep as there are contexts. -/
theorem nesting_unbounded (v : Visitor σ) (limit : UInt64) (state : σ) (n : Nat) :
    (⟨.recursive, some limit⟩ : Config).refusal? (Node.contexts n) = none ∧
      nesting v (n + 1) (Node.contexts n) state =
        some ⟨(state, n + 1), Node.contexts n, none⟩ := by
  refine ⟨Config.accepts_iff.2 ?_, ?_⟩
  · rw [Node.depths_contexts]
    exact Nat.zero_le _
  · rw [nesting, nest_contexts, Nat.zero_max, Nat.add_comm]

theorem nesting_past_limit :
    let v : Visitor Unit := .ofEnter fun _ node _ => ⟨(), node, [], .proceed⟩
    let nodes : List Node := [.context .empty [.context .empty [.comment "x"]]]
    v.Observes ∧ (⟨.recursive, some 1⟩ : Config).refusal? nodes = none ∧
      ∃ r, nesting v 9 nodes () = some r ∧ ¬ r.state.2 ≤ 1 + 1 := by
  intro v nodes
  have observes : v.Observes :=
    ⟨fun _ _ _ => rfl, fun _ _ _ => rfl, fun _ _ _ _ => nofun, fun _ _ _ => rfl⟩
  have ended : nesting v 9 nodes () = some ⟨((), 3), nodes, none⟩ := rfl
  exact ⟨observes, Config.accepts_iff.2 (by decide), _, ended, by decide⟩

end Walk
end StyleTree
