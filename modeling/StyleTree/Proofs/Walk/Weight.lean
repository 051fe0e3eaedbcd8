import StyleTree.Node.Depth
import StyleTree.Proofs.Walk.Conservation
import StyleTree.Proofs.Walk.Fuel
import StyleTree.Proofs.Walk.Observation

namespace StyleTree.Walk

universe u
variable {σ : Type u} {v : Visitor σ} {w : Node → Nat}

structure Weight (w : Node → Nat) : Prop where
  node : ∀ n, n.kind ≠ .context → total w n.children + 1 ≤ w n
  context : ∀ overlay children, total w children ≤ w (.block (.context overlay) children)

/-- The weight of what is still to be walked goes down with every enter call. -/
structure Visitor.Sheds (v : Visitor σ) (w : Node → Nat) : Prop where
  revisit : ∀ view node state nodes, node.kind ≠ .context →
    (v.enter view node state).verdict = .replace nodes true → total w nodes < w node
  descend : ∀ view node state, node.kind ≠ .context →
    (v.enter view node state).verdict = .descend →
      total w (v.enter view node state).node.children < w node

theorem Visitor.Sheds.inside (weight : Weight w) (sheds : v.Sheds w) {view : View} {node : Node}
    {state : σ} {e : Entered σ} (kind : node.kind ≠ .context)
    (entered : v.enter view node state = e) : total w e.inside + 1 ≤ w node := by
  subst entered
  have whole := weight.node node kind
  cases verdict : (v.enter view node state).verdict with
  | descend =>
      have less := sheds.descend view node state kind verdict
      simp only [Entered.inside, verdict]
      omega
  | _ =>
      simp only [Entered.inside, verdict, total_nil]
      omega

theorem Sweep.exists_of_weight (weight : Weight w) (sheds : v.Sheds w) (view : View) (index : Nat)
    (siblings : List Node) (state : σ) :
    ∃ calls run, Sweep v view index siblings state calls run ∧
      calls.countP Call.isEnter ≤ total w siblings := by
  cases siblings with
  | nil => exact ⟨[], _, .nil, Nat.zero_le _⟩
  | cons node rest =>
      have positive := node.size_pos
      by_cases kind : node.kind = .context
      · obtain ⟨overlay, children, shape⟩ := Node.exists_of_context kind
        have bound : total w children ≤ w node := shape ▸ weight.context overlay children
        have smaller : Node.sizes children < node.size := shape ▸ Nat.lt_succ_self _
        obtain ⟨calls, inner, within, entered⟩ :=
          exists_of_weight weight sheds (view.under overlay) 0 children state
        rw [shape] at bound ⊢
        cases goes : inner.halt with
        | some halt =>
            refine ⟨_, _, .contextHalt within goes, ?_⟩
            rw [total_cons]
            omega
        | none =>
            obtain ⟨calls', run, later, entered'⟩ :=
              exists_of_weight weight sheds view (index + 1) rest inner.state
            refine ⟨_, _, .context within goes later, ?_⟩
            rw [List.countP_append, total_cons]
            omega
      · obtain ⟨e, entered⟩ : ∃ e, v.enter view node state = e := ⟨_, rfl⟩
        have inside := sheds.inside weight kind entered
        have one (calls : List (Call σ)) :
            (⟨.enter, view, node, state⟩ :: calls).countP Call.isEnter =
              calls.countP Call.isEnter + 1 := List.countP_cons_of_pos rfl
        cases verdict : e.verdict with
        | halt =>
            refine ⟨_, _, .halt kind entered verdict, ?_⟩
            rw [one, total_cons, List.countP_nil]
            omega
        | replace nodes revisit =>
            cases revisit with
            | true =>
                have less : total w nodes < w node :=
                  sheds.revisit view node state nodes kind (entered ▸ verdict)
                obtain ⟨calls, run, later, entered'⟩ :=
                  exists_of_weight weight sheds view index (nodes ++ rest) e.state
                refine ⟨_, _, .revisit kind entered verdict later, ?_⟩
                rw [total_append] at entered'
                rw [one, total_cons]
                omega
            | false =>
                obtain ⟨calls, run, later, entered'⟩ :=
                  exists_of_weight weight sheds view (index + nodes.length) rest e.state
                refine ⟨_, _, .pass kind entered verdict later, ?_⟩
                rw [one, total_cons]
                omega
        | _ =>
            have stays : e.verdict.stays := by rw [verdict]; rfl
            obtain ⟨calls, inner, within, entered'⟩ :=
              exists_of_weight weight sheds (view.below e.node) 0 e.inside e.state
            cases goes : inner.halt with
            | some halt =>
                refine ⟨_, _, .insideHalt kind entered stays within goes, ?_⟩
                rw [one, total_cons]
                omega
            | none =>
                let exitCall : Call σ := ⟨.exit, view, e.refill inner.nodes, inner.state⟩
                have none (calls' : List (Call σ)) :
                    (exitCall :: calls').countP Call.isEnter = calls'.countP Call.isEnter :=
                  List.countP_cons_of_neg nofun
                obtain ⟨x, exited⟩ :
                  ∃ x, v.exit view (e.refill inner.nodes) inner.state = x := ⟨_, rfl⟩
                cases flow : x.flow with
                | halt =>
                    refine ⟨_, _, .exitHalt kind entered stays within goes exited flow, ?_⟩
                    rw [one, total_cons, List.countP_append, none, List.countP_nil]
                    omega
                | proceed =>
                    obtain ⟨calls', run, later, entered''⟩ :=
                      exists_of_weight weight sheds view (index + 1) rest x.state
                    refine ⟨_, _, .exit kind entered stays within goes exited flow later, ?_⟩
                    rw [one, total_cons, List.countP_append, none]
                    omega
termination_by (total w siblings, Node.sizes siblings)
decreasing_by
  -- the weight goes down, or it stays and there are fewer siblings
  all_goals
    rw [Prod.lex_def]
    simp only [total_cons, total_append, Node.sizes]
    omega

end StyleTree.Walk
