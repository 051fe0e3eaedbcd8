import StyleTree.Css
import StyleTree.Proofs.Walk.Agreement

namespace StyleTree

def Leaf.unmarked : Leaf → Leaf
  | .declaration d => .declaration { d with span := none }
  | .comment text _ => .comment text none

def Head.unmarked : Head → Head
  | .rule selector _ => .rule selector none
  | .atRule name params _ => .atRule name params none
  | .context _ => .context .empty
  | .atRoot => .atRoot

namespace Node

mutual

def unmarked : Node → Node
  | .leaf l => .leaf l.unmarked
  | .block head children => .block head.unmarked (unmarkedAll children)

def unmarkedAll : List Node → List Node
  | [] => []
  | n :: rest => unmarked n :: unmarkedAll rest

end

variable {n : Node}

theorem unmarkedAll_eq_map (nodes : List Node) : unmarkedAll nodes = nodes.map unmarked := by
  induction nodes with
  | nil => rfl
  | cons n rest ih => rw [unmarkedAll, ih, List.map_cons]

theorem unmarkedAll_append (a b : List Node) :
    unmarkedAll (a ++ b) = unmarkedAll a ++ unmarkedAll b := by
  simp only [unmarkedAll_eq_map, List.map_append]

theorem length_unmarkedAll (nodes : List Node) : (unmarkedAll nodes).length = nodes.length := by
  rw [unmarkedAll_eq_map, List.length_map]

theorem kind_unmarked (n : Node) : n.unmarked.kind = n.kind := by
  cases n with
  | leaf l => cases l <;> rfl
  | block head => cases head <;> rfl

theorem shown_unmarked (kind : n.kind ≠ .context) : n.unmarked.kind ≠ .context := by
  rwa [kind_unmarked]

theorem children_unmarked (n : Node) : n.unmarked.children = unmarkedAll n.children := by
  cases n with
  | leaf => rfl
  | block head children => rw [unmarked, Node.children, Node.children]

theorem withChildren_unmarked (n : Node) (children : List Node) :
    (n.withChildren children).unmarked = n.unmarked.withChildren (unmarkedAll children) := by
  cases n with
  | leaf => rfl
  | block => rw [Node.withChildren, unmarked, unmarked, Node.withChildren]

theorem atRuleName?_unmarked (n : Node) : n.unmarked.atRuleName? = n.atRuleName? := by
  cases n with
  | leaf => rfl
  | block head => cases head <;> rfl

end Node

namespace Css

theorem leafLines_unmarked (depth : Nat) (l : Leaf) :
    leafLines depth l.unmarked = leafLines depth l := by
  cases l <;> rfl

mutual

theorem lines_unmarked : (n : Node) → ∀ depth, lines depth n.unmarked = lines depth n
  | .leaf l, depth => by rw [Node.unmarked, lines, lines, leafLines_unmarked]
  | .block head children, depth => by
      have none : (Node.unmarkedAll children).isEmpty = children.isEmpty := by
        cases children <;> rfl
      cases head <;>
        simp only [Node.unmarked, Head.unmarked, lines, linesOf_unmarked children, none]

theorem linesOf_unmarked : (nodes : List Node) → ∀ depth,
    linesOf depth (Node.unmarkedAll nodes) = linesOf depth nodes
  | [], _ => rfl
  | n :: rest, depth => by
      rw [Node.unmarkedAll, linesOf, linesOf, lines_unmarked n, linesOf_unmarked rest]

end

end Css

theorem toCss_unmarked (nodes : List Node) : toCss (Node.unmarkedAll nodes) = toCss nodes := by
  rw [toCss, toCss, Css.linesOf_unmarked]

namespace Walk

open Node (unmarkedAll)

universe u
variable {σ : Type u} {v : Visitor σ}

def Action.unmarked : Action → Action
  | .replace nodes => .replace (unmarkedAll nodes)
  | a => a

def Verdict.unmarked : Verdict → Verdict
  | .replace nodes revisit => .replace (unmarkedAll nodes) revisit
  | d => d

def Entered.unmarked (e : Entered σ) : Entered σ :=
  ⟨e.state, e.node.unmarked, e.requests.map unmarkedAll, e.action.unmarked⟩

def Exited.unmarked (x : Exited σ) : Exited σ := ⟨x.state, x.node.unmarked, x.flow⟩

def Run.unmarked (r : Run σ) : Run σ := { r with nodes := unmarkedAll r.nodes }

/-- The hooks answer the same without the marks, whatever they see of the surroundings. -/
structure Visitor.IgnoresMarks (v : Visitor σ) : Prop where
  enter : ∀ (view view' : View) (n : Node) (state : σ),
    v.enter view' n.unmarked state = (v.enter view n state).unmarked
  exit : ∀ (view view' : View) (n : Node) (state : σ),
    v.exit view' n.unmarked state = (v.exit view n state).unmarked

namespace Entered

variable (e : Entered σ)

theorem verdict_unmarked : e.unmarked.verdict = e.verdict.unmarked := by
  obtain ⟨_, _, requests, action⟩ := e
  cases requests <;> cases action <;> rfl

theorem stays_unmarked : e.unmarked.verdict.stays = e.verdict.stays := by
  rw [verdict_unmarked]
  cases e.verdict <;> rfl

theorem inside_unmarked : e.unmarked.inside = unmarkedAll e.inside := by
  rw [inside, inside, verdict_unmarked]
  cases e.verdict with
  | descend => exact e.node.children_unmarked
  | _ => rfl

theorem refill_unmarked (children : List Node) :
    e.unmarked.refill (unmarkedAll children) = (e.refill children).unmarked := by
  rw [refill, refill, verdict_unmarked]
  cases e.verdict with
  | descend => exact (e.node.withChildren_unmarked children).symm
  | _ => rfl

end Entered

theorem Visitor.IgnoresMarks.exit_refill (ignores : v.IgnoresMarks) (view view' : View)
    (e : Entered σ) (children : List Node) (state : σ) :
    v.exit view' (e.unmarked.refill (unmarkedAll children)) state =
      (v.exit view (e.refill children) state).unmarked := by
  rw [e.refill_unmarked, ignores.exit view]

theorem Run.unmarked_cons (state : σ) (n : Node) (rest : List Node) (halt : Option Halt) :
    Run.unmarked ⟨state, n :: rest, halt⟩ = ⟨state, n.unmarked :: unmarkedAll rest, halt⟩ := rfl

theorem Run.after_unmarked (r : Run σ) (nodes : List Node) :
    (r.after nodes).unmarked = r.unmarked.after (unmarkedAll nodes) := by
  rw [unmarked, after, Node.unmarkedAll_append]
  rfl

theorem Sweep.unmarked (ignores : v.IgnoresMarks) {view : View} {index : Nat}
    {siblings : List Node} {state : σ} {calls : List (Call σ)} {run : Run σ}
    (sweep : Sweep v view index siblings state calls run) (view' : View) :
    ∃ calls', Sweep v view' index (unmarkedAll siblings) state calls' run.unmarked := by
  induction sweep generalizing view' with
  | nil => exact ⟨_, .nil⟩
  | context _ goes _ ihWithin ihLater =>
      obtain ⟨_, within⟩ := ihWithin (view'.under .empty)
      obtain ⟨_, later⟩ := ihLater view'
      exact ⟨_, .context within goes later⟩
  | contextHalt _ halts ihWithin =>
      obtain ⟨_, within⟩ := ihWithin (view'.under .empty)
      exact ⟨_, .contextHalt within halts⟩
  | revisit kind entered verdict _ ihLater =>
      subst entered
      obtain ⟨_, later⟩ := ihLater view'
      rw [Node.unmarkedAll_append] at later
      refine ⟨_, .revisit (Node.shown_unmarked kind) (ignores.enter ..) ?_ later⟩
      rw [Entered.verdict_unmarked, verdict]
      rfl
  | pass kind entered verdict _ ihLater =>
      subst entered
      obtain ⟨_, later⟩ := ihLater view'
      rw [← Node.length_unmarkedAll] at later
      rw [Run.after_unmarked]
      refine ⟨_, .pass (Node.shown_unmarked kind) (ignores.enter ..) ?_ later⟩
      rw [Entered.verdict_unmarked, verdict]
      rfl
  | halt kind entered verdict =>
      subst entered
      refine ⟨_, .halt (Node.shown_unmarked kind) (ignores.enter ..) ?_⟩
      rw [Entered.verdict_unmarked, verdict]
      rfl
  | insideHalt kind entered stays _ halts ihWithin =>
      subst entered
      obtain ⟨_, within⟩ := ihWithin (view'.below _)
      rw [← Entered.inside_unmarked] at within
      rw [Run.unmarked_cons, ← Entered.refill_unmarked]
      exact ⟨_, .insideHalt (Node.shown_unmarked kind) (ignores.enter ..)
        (by rwa [Entered.stays_unmarked]) within halts⟩
  | exitHalt kind entered stays _ goes exited flow ihWithin =>
      subst entered exited
      obtain ⟨_, within⟩ := ihWithin (view'.below _)
      rw [← Entered.inside_unmarked] at within
      exact ⟨_, .exitHalt (Node.shown_unmarked kind) (ignores.enter ..)
        (by rwa [Entered.stays_unmarked]) within goes (ignores.exit_refill ..) flow⟩
  | exit kind entered stays _ goes exited flow _ ihWithin ihLater =>
      subst entered exited
      obtain ⟨_, within⟩ := ihWithin (view'.below _)
      rw [← Entered.inside_unmarked] at within
      obtain ⟨_, later⟩ := ihLater view'
      exact ⟨_, .exit (Node.shown_unmarked kind) (ignores.enter ..)
        (by rwa [Entered.stays_unmarked]) within goes (ignores.exit_refill ..) flow later⟩

theorem Engine.Walks.unmarked_eq (ignores : v.IgnoresMarks) {e e' : Engine} {a b : List Node}
    {state : σ} {calls calls' : List (Call σ)} {run run' : Run σ}
    (same : unmarkedAll a = unmarkedAll b) (walks : e.Walks v a state calls run)
    (walks' : e'.Walks v b state calls' run') : run.unmarked = run'.unmarked := by
  obtain ⟨_, sweep⟩ := (walks_sweep.1 walks).unmarked ignores .root
  obtain ⟨_, sweep'⟩ := (walks_sweep.1 walks').unmarked ignores .root
  rw [← same] at sweep'
  have first : e.Walks v (unmarkedAll a) state _ run.unmarked := walks_sweep.2 sweep
  have second : e'.Walks v (unmarkedAll a) state _ run'.unmarked := walks_sweep.2 sweep'
  exact (walks_agree first second).2

end Walk
end StyleTree
