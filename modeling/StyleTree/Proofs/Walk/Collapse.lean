import StyleTree.Proofs.Overlay
import StyleTree.Proofs.Walk.Composition
import Mathlib

namespace StyleTree.Walk

universe u
variable {σ : Type u} {v : Visitor σ} {view : View} {index : Nat} {state : σ}
  {calls : List (Call σ)} {run : Run σ} {overlay o : Overlay} {os os' : List Overlay}
  {children nodes before after : List Node}

def wrapped (overlays : List Overlay) (nodes : List Node) : List Node :=
  overlays.foldr (fun overlay inner => [.context overlay inner]) nodes

theorem length_wrapped (o : Overlay) (os : List Overlay) (nodes : List Node) :
    (wrapped (o :: os) nodes).length = 1 := rfl

theorem View.under_under (view : View) (a b : Overlay) :
    (view.under a).under b = view.under (a.merge b) := by
  simp only [under, Overlay.merge_assoc]

theorem sweep_context : Sweep v view index [.context overlay children] state calls run ↔
    ∃ inner, Sweep v (view.under overlay) 0 children state calls inner ∧
      run = ⟨inner.state, [.context overlay inner.nodes], inner.halt⟩ := by
  constructor
  · intro sweep
    cases sweep with
    | context within goes later =>
        cases later
        rw [List.append_nil]
        exact ⟨_, within, by rw [goes]; rfl⟩
    | contextHalt within halts => exact ⟨_, within, by rw [halts]; rfl⟩
    | revisit kind | pass kind | halt kind | insideHalt kind | exitHalt kind | exit kind =>
        exact absurd rfl kind
  · rintro ⟨inner, within, rfl⟩
    cases halt : inner.halt with
    | some => exact .contextHalt within halt
    | none =>
        rw [← List.append_nil calls]
        exact .context within halt .nil

theorem sweep_wrapped : Sweep v view index (wrapped (o :: os) nodes) state calls run ↔
    ∃ inner, Sweep v (view.under (os.foldl .merge o)) 0 nodes state calls inner ∧
      run = ⟨inner.state, wrapped (o :: os) inner.nodes, inner.halt⟩ := by
  induction os generalizing o view index run with
  | nil => exact sweep_context
  | cons o' os ih =>
      have same : (view.under o).under (os.foldl .merge o') =
          view.under ((o' :: os).foldl .merge o) := by
        rw [view.under_under, List.foldl_cons, List.foldl_assoc]
      refine sweep_context.trans ?_
      constructor
      · rintro ⟨_, around, rfl⟩
        obtain ⟨inner, within, rfl⟩ := ih.1 around
        exact ⟨inner, same ▸ within, rfl⟩
      · rintro ⟨inner, within, rfl⟩
        exact ⟨_, ih.2 ⟨inner, same ▸ within, rfl⟩, rfl⟩

theorem Sweep.rewrapped (same : os.foldl .merge o = os'.foldl .merge o')
    (sweep : Sweep v view index (wrapped (o :: os) nodes) state calls run) :
    ∃ nodes', run.nodes = wrapped (o :: os) nodes' ∧
      Sweep v view index (wrapped (o' :: os') nodes) state calls
        { run with nodes := wrapped (o' :: os') nodes' } := by
  obtain ⟨inner, within, rfl⟩ := sweep_wrapped.1 sweep
  rw [same] at within
  exact ⟨inner.nodes, rfl, sweep_wrapped.2 ⟨inner, within, rfl⟩⟩

theorem Sweep.rewrapped_between (same : os.foldl .merge o = os'.foldl .merge o')
    (sweep : Sweep v view index (before ++ (wrapped (o :: os) nodes ++ after)) state calls run) :
    ∃ before' nodes' after', run.nodes = before' ++ (wrapped (o :: os) nodes' ++ after') ∧
      Sweep v view index (before ++ (wrapped (o' :: os') nodes ++ after)) state calls
        { run with nodes := before' ++ (wrapped (o' :: os') nodes' ++ after') } := by
  -- the walk ends among the nodes before, or inside of the contexts, or goes on behind them
  rcases sweep.splits with ⟨first, walked, halts, rfl⟩ |
    ⟨earlier, _, first, _, walked, goes, next, rfl, rfl⟩
  · exact ⟨first.nodes, nodes, after, rfl, walked.append_stopped halts _⟩
  · rcases next.splits with ⟨inside, chain, halts, rfl⟩ |
      ⟨within, later, inside, second, chain, goes', last, rfl, rfl⟩
    · obtain ⟨nodes', left, single⟩ := chain.rewrapped same
      have ended := walked.append_completed goes (single.append_stopped halts after)
      exact ⟨first.nodes, nodes', after, by rw [left]; rfl, ended⟩
    · obtain ⟨nodes', left, single⟩ := chain.rewrapped same
      rw [left, length_wrapped, ← length_wrapped o' os' nodes'] at last
      have ended := walked.append_completed goes (single.append_completed goes' last)
      refine ⟨first.nodes, nodes', second.nodes, ?_, ended⟩
      simp only [Run.after, left]

theorem Engine.Walks.rewrapped {e : Engine} (e' : Engine)
    (same : os.foldl .merge o = os'.foldl .merge o')
    (walks : e.Walks v (before ++ (wrapped (o :: os) nodes ++ after)) state calls run) :
    ∃ before' nodes' after', run.nodes = before' ++ (wrapped (o :: os) nodes' ++ after') ∧
      e'.Walks v (before ++ (wrapped (o' :: os') nodes ++ after)) state calls
        { run with nodes := before' ++ (wrapped (o' :: os') nodes' ++ after') } := by
  obtain ⟨before', nodes', after', left, sweep⟩ :=
    (walks_sweep.1 walks).rewrapped_between same
  exact ⟨before', nodes', after', left, walks_sweep.2 sweep⟩

theorem Engine.terminates_rewrapped (e e' : Engine)
    (same : os.foldl .merge o = os'.foldl .merge o')
    (ends : ∃ fuel,
      (e.walk v fuel (before ++ (wrapped (o :: os) nodes ++ after)) state).isSome) :
    ∃ fuel, (e'.walk v fuel (before ++ (wrapped (o' :: os') nodes ++ after)) state).isSome := by
  obtain ⟨calls, run, walks⟩ := terminates_iff_walks.1 ends
  obtain ⟨before', nodes', after', -, walks⟩ := walks.rewrapped e' same
  exact terminates_iff_walks.2 ⟨calls, _, walks⟩

/-- Overlays are merged associatively, with the empty one as unit, and the upper one shadows the
lower one. So the walk around contexts one inside the other terminates exactly if it does so around
one context with their merged overlay; then both make the same calls and end in the same state with
the same outcome, and the trees they leave differ only in the contexts themselves. Either walk may
be the work of either engine. -/
theorem walks_collapse (v : Visitor σ) (e e' : Engine) (o : Overlay) (os : List Overlay)
    (before nodes after : List Node) (state : σ) :
    ((∀ a b c : Overlay, (a.merge b).merge c = a.merge (b.merge c)) ∧
      (∀ a : Overlay, Overlay.empty.merge a = a ∧ a.merge .empty = a) ∧
      ∀ (base upper : Overlay) (key : String),
        (base.merge upper).get? key = (upper.get? key).or (base.get? key)) ∧
    let nested := before ++ (wrapped (o :: os) nodes ++ after)
    let single := before ++ (.context (os.foldl .merge o) nodes :: after)
    ((∃ fuel, (e.walk v fuel nested state).isSome) ↔
        ∃ fuel, (e'.walk v fuel single state).isSome) ∧
      ∀ fuel fuel' run run', e.walk v fuel nested state = some run →
        e'.walk v fuel' single state = some run' →
          run.state = run'.state ∧ run.outcome = run'.outcome ∧
          (∃ before' nodes' after',
            run.nodes = before' ++ (wrapped (o :: os) nodes' ++ after') ∧
            run'.nodes = before' ++ (.context (os.foldl .merge o) nodes' :: after')) ∧
          ∃ calls, (∀ c, e.Walks v nested state c run ↔ c = calls) ∧
            ∀ c, e'.Walks v single state c run' ↔ c = calls := by
  have same : os.foldl .merge o = [].foldl .merge (os.foldl .merge o) := rfl
  refine ⟨⟨Overlay.merge_assoc, fun a => ⟨a.empty_merge, a.merge_empty⟩, Overlay.get?_merge⟩,
    ⟨fun ends => ?_, fun ends => ?_⟩, ?_⟩
  · exact Engine.terminates_rewrapped e e' same ends
  · exact Engine.terminates_rewrapped e' e same.symm ends
  · intro fuel fuel' run run' ended ended'
    obtain ⟨calls, walks⟩ := Engine.ends_iff_walks.1 ⟨fuel, ended⟩
    obtain ⟨before', nodes', after', left, walks'⟩ := walks.rewrapped e' same
    have sweep := Engine.walks_sweep.1 walks
    have sweep' : Sweep v .root 0 (before ++ (.context (os.foldl .merge o) nodes :: after)) state
        calls _ := Engine.walks_sweep.1 walks'
    obtain rfl := (Engine.ends_exactly sweep' e' run').1 ⟨fuel', ended'⟩
    refine ⟨rfl, rfl, ⟨before', nodes', after', left, rfl⟩, calls, fun c => ?_, fun c => ?_⟩
    · rw [Engine.walks_exactly sweep, eq_self_iff_true, and_true]
    · rw [Engine.walks_exactly sweep', eq_self_iff_true, and_true]

theorem walks_collapse_stopped_inside :
    let v : Visitor Nat := .ofEnter fun _ node count =>
      ⟨count + 1, node, if node.kind = .comment then [[]] else [],
        if node.kind = .rule then .stop else .proceed⟩
    let outer := Overlay.empty.insert "x" (.flag true)
    let inner := Overlay.empty.insert "x" (.text "1")
    let nodes : List Node := [.comment "y", .rule "a" [], .comment "z"]
    let left : List Node := [.rule "a" [], .comment "z"]
    let nested : List Node := .comment "b" :: (wrapped [outer, inner] nodes ++ [.comment "c"])
    let single : List Node := [.comment "b", .context (outer.merge inner) nodes, .comment "c"]
    let run : Run Nat := ⟨3, wrapped [outer, inner] left ++ [.comment "c"], some ⟨.enter, 0⟩⟩
    let run' : Run Nat :=
      ⟨3, [.context (outer.merge inner) left, .comment "c"], some ⟨.enter, 0⟩⟩
    recursive v 6 nested 0 = some run ∧ iterative v 9 single 0 = some run' ∧
      ∃ calls, (∀ c, Engine.recursive.Walks v nested 0 c run ↔ c = calls) ∧
        ∀ c, Engine.iterative.Walks v single 0 c run' ↔ c = calls := by
  intro v outer inner nodes left nested single run run'
  have ended : recursive v 6 nested 0 = some run := by cbv
  have ended' : iterative v 9 single 0 = some run' := by cbv
  have collapses := walks_collapse v .recursive .iterative outer [inner] [.comment "b"] nodes
    [.comment "c"] 0
  obtain ⟨-, -, -, calls⟩ := collapses.2.2 6 9 run run' ended ended'
  exact ⟨ended, ended', calls⟩

end StyleTree.Walk
