import StyleTree.Proofs.Walk.Site
import Mathlib

namespace StyleTree.Walk

universe u
variable {σ : Type u} {v : Visitor σ} {cost : Node → Nat}

def total (cost : Node → Nat) (nodes : List Node) : Nat := (nodes.map cost).sum

@[simp] theorem total_nil : total cost [] = 0 := rfl

@[simp] theorem total_cons (n : Node) (rest : List Node) :
    total cost (n :: rest) = cost n + total cost rest := by simp [total]

@[simp] theorem total_append (a b : List Node) :
    total cost (a ++ b) = total cost a + total cost b := by simp [total]

/-- No node is free. A block whose children are walked takes two steps besides: one into the
children and one out of them. -/
structure Visitor.Burns (v : Visitor σ) (cost : Node → Nat) : Prop where
  pos : ∀ n, 0 < cost n
  context : ∀ overlay children, total cost children + 2 ≤ cost (.block (.context overlay) children)
  revisit : ∀ view node state nodes, node.kind ≠ .context →
    (v.enter view node state).verdict = .replace nodes true → total cost nodes < cost node
  inside : ∀ view node state, node.kind ≠ .context → (v.enter view node state).inside ≠ [] →
    total cost (v.enter view node state).inside + 2 ≤ cost node

/-! ## By recursion -/

theorem Visit.inside_isSome {go : Visit σ} {trail : Trail} {ambient : Overlay} {e : Entered σ}
    (within : ∀ trail, (go trail ambient e.inside.toArray 0 e.state).isSome) :
    (Visit.inside go trail ambient e).isSome := by
  cases verdict : e.verdict with
  | descend =>
      cases shape : e.node with
      | leaf l => simp [Visit.inside, verdict, shape]
      | block head children =>
          have inside : e.inside = children := by
            simp [Entered.inside, verdict, shape, Node.children]
          have walked := within (trail.push (.block head children))
          simpa [Visit.inside, verdict, shape, inside] using walked
  | _ => simp [Visit.inside, verdict]

theorem Visit.resume_isSome {nodes : Array Node} {index : Nat} {owner : Node} {inner : Run σ}
    {next : Node → σ → Option (Run σ)} (later : (next owner inner.state).isSome) :
    (Visit.resume nodes index owner inner next).isSome := by
  cases halt : inner.halt with
  | some => simp [Visit.resume, halt]
  | none => simpa only [Visit.resume, halt] using later

theorem visit_isSome (burns : v.Burns cost) {fuel : Nat} {trail : Trail} {ambient : Overlay}
    (before : List Node) {siblings : List Node} {state : σ} (enough : total cost siblings < fuel) :
    (visit v fuel trail ambient (before ++ siblings).toArray before.length state).isSome := by
  induction fuel generalizing trail ambient before siblings state with
  | zero => omega
  | succ fuel ih =>
      -- the walk goes on behind nodes that took the place of the current one
      have later (nodes : List Node) {rest : List Node} {index : Nat} {state : σ}
          (place : index = before.length + nodes.length) (enough : total cost rest < fuel) :
          (visit v fuel trail ambient (before ++ (nodes ++ rest)).toArray index state).isSome := by
        subst place
        rw [← List.append_assoc, ← List.length_append]
        exact ih _ enough
      match siblings with
      | [] =>
          rw [visit_end (by simp)]
          rfl
      | node :: rest =>
          have pos := burns.pos node
          rw [total_cons] at enough
          have others : total cost rest < fuel := by omega
          by_cases kind : node.kind = .context
          · obtain ⟨overlay, children, rfl⟩ := Node.exists_of_context kind
            have bound := burns.context overlay children
            have within : total cost children < fuel := by omega
            have walks :
                (visit v fuel trail (ambient.merge overlay) children.toArray 0 state).isSome :=
              ih [] within
            obtain ⟨inner, walked⟩ := Option.isSome_iff_exists.1 walks
            rw [visit_context (getElem?_place ..), walked, Option.bind_some]
            refine Visit.resume_isSome ?_
            rw [set_place]
            exact later [_] rfl others
          · have bound := burns.inside (trail.view ambient) node state kind
            have again := burns.revisit (trail.view ambient) node state
            obtain ⟨e, entered⟩ : ∃ e, v.enter (trail.view ambient) node state = e := ⟨_, rfl⟩
            rw [entered] at bound again
            rw [visit_node (getElem?_place ..) kind]
            cases verdict : e.verdict with
            | halt => simp only [Visit.enter, entered, verdict, Option.isSome_some]
            | replace nodes revisit =>
                simp only [Visit.enter, entered, verdict, splice_place]
                cases revisit with
                | true =>
                    have less := again nodes kind verdict
                    refine ih before ?_
                    rw [total_append]
                    omega
                | false => exact later nodes rfl others
            | _ =>
                have stays : e.verdict.stays := by rw [verdict]; rfl
                have within : total cost e.inside < fuel := by
                  by_cases none : e.inside = []
                  · rw [none, total_nil]
                    omega
                  · have bound := bound none
                    omega
                have walks : (Visit.inside (visit v fuel) trail ambient e).isSome :=
                  Visit.inside_isSome fun _ => ih [] within
                obtain ⟨inner, walked⟩ := Option.isSome_iff_exists.1 walks
                rw [Visit.enter_stays entered stays, walked, Option.bind_some]
                refine Visit.resume_isSome ?_
                rw [Visit.leave]
                split
                · rfl
                · rw [set_place]
                  exact later [_] rfl others

/-! ## By the machine -/

def Frame.due (cost : Node → Nat) (f : Frame) : Nat :=
  total cost (f.nodes.toList.drop (f.index + 1)) + 1

namespace Stack

variable {k : Stack} {before rest nodes : List Node} {state : σ}

def due (cost : Node → Nat) (k : Stack) : Nat := (k.below.toList.map (Frame.due cost)).sum

theorem frame_due (node : Node) :
    (k.frame before (node :: rest)).due cost = total cost rest + 1 := by
  simp [Frame.due, frame]

theorem due_node {head : Head} :
    (k.node before head rest).due cost = total cost rest + 1 + k.due cost := by
  simp [due, frame_due, Nat.add_comm]

theorem due_wrapper {overlay : Overlay} :
    (k.wrapper before overlay rest).due cost = total cost rest + 1 + k.due cost := by
  simp [due, frame_due, Nat.add_comm]

end Stack

def Step.Below (cost : Node → Nat) (bound : Nat) : Step σ → Prop
  | .next m _ => ∃ (k : Stack) (before siblings : List Node), m = k.machine before siblings ∧
      total cost siblings + k.due cost < bound
  | .done .. => True
  | .stuck => False

namespace Stack

variable {k : Stack} {before rest : List Node} {state : σ}

theorem leave_below (node : Node) {bound : Nat} (less : total cost rest + k.due cost < bound) :
    ((k.machine before (node :: rest)).leave v state).Below cost bound := by
  rw [leave_eq rfl]
  split
  · trivial
  · exact ⟨k, _, rest, rfl, less⟩

theorem step_below (burns : v.Burns cost) (k : Stack) (before siblings : List Node) (state : σ) :
    ((k.machine before siblings).step v state).Below cost (total cost siblings + k.due cost) := by
  cases siblings with
  | nil =>
      -- closing a frame takes the step that its owner was due for
      obtain rfl | ⟨k, before', head, rest, rfl⟩ | ⟨k, before', overlay, rest, rfl⟩ :=
        k.exists_below
      · rw [step_close_root]
        trivial
      · rw [step_close_node, due_node, total_nil]
        exact leave_below _ (by omega)
      · rw [step_close_wrapper, due_wrapper, total_nil]
        exact ⟨k, _, rest, rfl, by omega⟩
  | cons node rest =>
      have pos := burns.pos node
      rw [total_cons]
      by_cases kind : node.kind = .context
      · obtain ⟨overlay, children, rfl⟩ := Node.exists_of_context kind
        have bound := burns.context overlay children
        rw [step_context]
        refine ⟨_, [], children, rfl, ?_⟩
        rw [due_wrapper]
        omega
      · have bound := burns.inside k.view node state kind
        have again := burns.revisit k.view node state
        obtain ⟨e, entered⟩ : ∃ e, v.enter k.view node state = e := ⟨_, rfl⟩
        rw [entered] at bound again
        cases verdict : e.verdict with
        | halt =>
            rw [step_halt kind entered verdict]
            trivial
        | replace nodes revisit =>
            cases revisit with
            | true =>
                have less := again nodes kind verdict
                rw [step_revisit nodes kind entered verdict]
                refine ⟨k, before, nodes ++ rest, rfl, ?_⟩
                rw [total_append]
                omega
            | false =>
                rw [step_pass nodes kind entered verdict]
                exact ⟨k, before ++ nodes, rest, rfl, by omega⟩
        | _ =>
            have stays : e.verdict.stays := by rw [verdict]; rfl
            by_cases inside : e.inside = []
            · rw [step_leaves kind entered stays inside]
              exact leave_below _ (by omega)
            · have less := bound inside
              obtain ⟨head, -, -, step⟩ := step_opens kind entered before rest inside
              rw [step]
              refine ⟨_, [], e.inside, rfl, ?_⟩
              rw [due_node]
              omega

end Stack

theorem Machine.run_isSome (burns : v.Burns cost) {fuel : Nat} {k : Stack}
    {before siblings : List Node} {state : σ}
    (enough : total cost siblings + k.due cost < fuel) :
    (Machine.run v fuel (k.machine before siblings) state).isSome := by
  induction fuel generalizing k before siblings state with
  | zero => omega
  | succ fuel ih =>
      have below := k.step_below burns before siblings state
      rw [Machine.run]
      cases step : (k.machine before siblings).step v state with
      | next m state' =>
          rw [step] at below
          obtain ⟨k', before', siblings', rfl, less⟩ := below
          exact ih (by omega)
      | done => rfl
      | stuck =>
          rw [step] at below
          exact below.elim

theorem Engine.walk_isSome (burns : v.Burns cost) (e : Engine) {fuel : Nat} {nodes : List Node}
    (enough : total cost nodes < fuel) (state : σ) : (e.walk v fuel nodes state).isSome := by
  cases e with
  | recursive => exact visit_isSome burns [] enough
  | iterative =>
      have walks : (Machine.run v fuel (Stack.root.machine [] nodes) state).isSome :=
        Machine.run_isSome burns enough
      exact walks

end StyleTree.Walk
