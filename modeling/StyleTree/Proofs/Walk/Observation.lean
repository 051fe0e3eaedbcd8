import StyleTree.Proofs.Walk.Composition
import StyleTree.Proofs.Walk.Cursor

namespace StyleTree.Walk

universe u
variable {σ : Type u} {v : Visitor σ}

/-- The hooks give every node back as they are given it, and ask for no other nodes. What they
answer else, they may take from all they see. -/
structure Visitor.Observes (v : Visitor σ) : Prop where
  entered : ∀ view node state, (v.enter view node state).node = node
  requests : ∀ view node state, (v.enter view node state).requests = []
  action : ∀ view node state nodes, (v.enter view node state).action ≠ .replace nodes
  exited : ∀ view node state, (v.exit view node state).node = node

theorem Visitor.Observes.verdict_ne (observes : v.Observes) {view : View} {node : Node} {state : σ}
    {nodes : List Node} {revisit : Bool} :
    (v.enter view node state).verdict ≠ .replace nodes revisit := by
  have action := observes.action view node state
  rw [Entered.verdict, observes.requests]
  cases returned : (v.enter view node state).action with
  | replace nodes => exact absurd returned (action nodes)
  | _ => rintro ⟨⟩

structure Tour (σ : Type u) where
  calls : List (Call σ)
  state : σ

namespace Tour

def nothing (state : σ) : Tour σ := ⟨[], state⟩

def followed (first next : Tour σ) : Tour σ := ⟨first.calls ++ next.calls, next.state⟩

def around (v : Visitor σ) (view : View) (node : Node) (inside : σ → Tour σ) (state : σ) : Tour σ :=
  let entered := v.enter view node state
  let inner := if entered.action = .skip then nothing entered.state else inside entered.state
  ⟨⟨.enter, view, node, state⟩ :: (inner.calls ++ [⟨.exit, view, node, inner.state⟩]),
    (v.exit view node inner.state).state⟩

end Tour

mutual

/-- The tour of a node, which goes on whether or not a hook ends the walk. In the place of a context
there is the tour of its children. -/
def tour (v : Visitor σ) (view : View) : Node → σ → Tour σ
  | .leaf l => .around v view (.leaf l) .nothing
  | .block (.context overlay) children => tours v (view.under overlay) children
  | .block head children =>
      .around v view (.block head children) (tours v (view.below (.block head children)) children)

def tours (v : Visitor σ) (view : View) : List Node → σ → Tour σ
  | [], state => .nothing state
  | n :: rest, state =>
      let first := tour v view n state
      first.followed (tours v view rest first.state)

end

instance (v : Visitor σ) (c : Call σ) : Decidable (c.Stops v) :=
  match hook : c.hook with
  | .enter => decidable_of_iff ((c.entered v).action = .stop ∧ (c.entered v).requests = [])
      (by simp only [Call.Stops, hook])
  | .exit => decidable_of_iff ((c.exited v).flow = .halt) (by simp only [Call.Stops, hook])

def upToStop (v : Visitor σ) : List (Call σ) → List (Call σ)
  | [] => []
  | c :: calls => if c.Stops v then [c] else c :: upToStop v calls

section
variable {calls calls' : List (Call σ)}

theorem upToStop_append_stopped (stops : ∃ c ∈ calls, c.Stops v) :
    upToStop v (calls ++ calls') = upToStop v calls := by
  induction calls with
  | nil => simp at stops
  | cons c calls ih =>
      rw [List.cons_append, upToStop, upToStop]
      split
      · rfl
      · next goes =>
        rw [ih]
        simpa [goes] using stops

theorem upToStop_append (goes : ¬ ∃ c ∈ calls, c.Stops v) :
    upToStop v (calls ++ calls') = calls ++ upToStop v calls' := by
  induction calls with
  | nil => rfl
  | cons c calls ih =>
      simp only [List.mem_cons, exists_eq_or_imp, not_or] at goes
      rw [List.cons_append, upToStop, if_neg goes.1, ih goes.2]
      rfl

theorem upToStop_one (c : Call σ) : upToStop v [c] = [c] := by
  rw [upToStop]
  split <;> rfl

theorem upToStop_eq (goes : ¬ ∃ c ∈ calls, c.Stops v) : upToStop v calls = calls := by
  have whole : upToStop v (calls ++ []) = calls ++ upToStop v [] := upToStop_append goes
  simpa [upToStop] using whole

end

def Along (v : Visitor σ) (view : View) (nodes : List Node) (state : σ) (t : Tour σ) : Prop :=
  ∀ index, ∃ run, Sweep v view index nodes state (upToStop v t.calls) run ∧ run.nodes = nodes ∧
    (run.halt.isSome ↔ ∃ c ∈ t.calls, c.Stops v) ∧ (run.halt = none → run.state = t.state)

namespace Along

variable {view : View} {state : σ} {a b : List Node} {node : Node}

theorem nothing (state : σ) : Along v view [] state (.nothing state) := by
  intro index
  refine ⟨_, .nil, rfl, ?_, fun _ => rfl⟩
  simp [Tour.nothing]

theorem followed {first next : Tour σ} (along : Along v view a state first)
    (along' : Along v view b first.state next) :
    Along v view (a ++ b) state (first.followed next) := by
  intro index
  obtain ⟨run, sweep, left, halts, after⟩ := along index
  cases goes : run.halt with
  | some halt =>
      have stopped : run.halt.isSome := by rw [goes]; rfl
      have stops := halts.1 stopped
      have whole := sweep.append_stopped stopped b
      rw [Tour.followed, upToStop_append_stopped stops]
      refine ⟨_, whole, congrArg (· ++ b) left, ?_, ?_⟩
      · obtain ⟨c, member, stops⟩ := stops
        exact ⟨fun _ => ⟨c, List.mem_append_left _ member, stops⟩, fun _ => stopped⟩
      · intro completed
        cases goes.symm.trans completed
  | none =>
      have none : ¬ ∃ c ∈ first.calls, c.Stops v := by simp [← halts, goes]
      obtain ⟨run', sweep', left', halts', after'⟩ := along' (index + run.nodes.length)
      rw [← after goes] at sweep'
      have whole := sweep.append_completed goes sweep'
      rw [upToStop_eq none, ← upToStop_append none] at whole
      refine ⟨_, whole, ?_, ?_, after'⟩
      · rw [← left, ← left']
        rfl
      · refine halts'.trans ?_
        simp only [Tour.followed, List.mem_append, or_and_right, exists_or, none, false_or]

theorem stays (observes : v.Observes) (kind : node.kind ≠ .context) {e : Entered σ}
    (entered : v.enter view node state = e) (stays : e.verdict.stays) {inner : Tour σ}
    (within : Along v (view.below node) e.inside e.state inner) :
    Along v view [node] state
      ⟨⟨.enter, view, node, state⟩ :: (inner.calls ++ [⟨.exit, view, node, inner.state⟩]),
        (v.exit view node inner.state).state⟩ := by
  have same : e.node = node := entered ▸ observes.entered view node state
  have goesIn : ¬ (⟨.enter, view, node, state⟩ : Call σ).Stops v := by
    rw [Call.stops_enter rfl, Call.entered, entered]
    intro halts
    rw [halts] at stays
    cases stays
  intro index
  obtain ⟨run, sweep, left, halts, after⟩ := within 0
  have refill : e.refill run.nodes = node := by rw [left, e.refill_inside, same]
  rw [← same] at sweep
  cases goes : run.halt with
  | some halt =>
      -- the exit hook is in the tour, but behind the call that ended the walk
      have stopped : run.halt.isSome := by rw [goes]; rfl
      have stops := halts.1 stopped
      rw [upToStop, if_neg goesIn, upToStop_append_stopped stops]
      refine ⟨_, .insideHalt kind entered stays sweep goes, congrArg (· :: []) refill, ?_, by simp⟩
      obtain ⟨c, member, stops⟩ := stops
      exact ⟨fun _ => ⟨c, .tail _ (List.mem_append_left _ member), stops⟩, fun _ => rfl⟩
  | none =>
      have none : ¬ ∃ c ∈ inner.calls, c.Stops v := by simp [← halts, goes]
      have kept : (v.exit view node run.state).node = node := observes.exited view node run.state
      rw [upToStop_eq none] at sweep
      rw [upToStop, if_neg goesIn, ← after goes, upToStop_append none, upToStop_one]
      have stops_iff : (∃ c ∈ (⟨.enter, view, node, state⟩ : Call σ) ::
          (inner.calls ++ [⟨.exit, view, node, run.state⟩]), c.Stops v) ↔
            (v.exit view node run.state).flow = .halt := by
        simp only [List.mem_cons, List.mem_append, goesIn, or_and_right, exists_or, none, false_or,
          List.not_mem_nil, or_false, exists_eq_left]
        rfl
      cases flow : (v.exit view node run.state).flow with
      | halt =>
          have exited := congrArg (v.exit view · run.state) refill
          have whole : Sweep v view index [node] state _ _ :=
            .exitHalt kind entered stays sweep goes exited flow
          rw [refill] at whole
          refine ⟨_, whole, congrArg (· :: []) kept, ?_, by simp⟩
          rw [stops_iff, flow]
          simp
      | proceed =>
          have exited := congrArg (v.exit view · run.state) refill
          have whole : Sweep v view index [node] state _ _ :=
            .exit kind entered stays sweep goes exited flow .nil
          rw [refill] at whole
          refine ⟨_, whole, congrArg (· :: []) kept, ?_, fun _ => rfl⟩
          rw [stops_iff, flow]
          simp [Run.after]

theorem around (observes : v.Observes) (kind : node.kind ≠ .context) {inside : σ → Tour σ}
    (within : ∀ state, Along v (view.below node) node.children state (inside state)) :
    Along v view [node] state (.around v view node inside state) := by
  obtain ⟨e, entered⟩ : ∃ e, v.enter view node state = e := ⟨_, rfl⟩
  have same : e.node = node := entered ▸ observes.entered view node state
  have requests : e.requests = [] := entered ▸ observes.requests view node state
  have verdict : e.verdict = e.action.verdict none := by rw [Entered.verdict, requests]; rfl
  rw [Tour.around, entered]
  cases action : e.action with
  | replace nodes => exact absurd action (entered ▸ observes.action view node state nodes)
  | stop =>
      rw [action] at verdict
      have stops : (⟨.enter, view, node, state⟩ : Call σ).Stops v := by
        rw [Call.stops_enter rfl, Call.entered, entered, verdict]
        rfl
      intro index
      rw [upToStop, if_pos stops]
      exact ⟨_, .halt kind entered verdict, congrArg (· :: []) same,
        ⟨fun _ => ⟨_, .head _, stops⟩, fun _ => rfl⟩, by simp⟩
  | skip =>
      rw [action] at verdict
      have inside : e.inside = [] := by rw [Entered.inside, verdict]; rfl
      refine .stays observes kind entered (by rw [verdict]; rfl) ?_
      rw [inside]
      exact .nothing e.state
  | proceed =>
      rw [action] at verdict
      have inside : e.inside = node.children := by rw [Entered.inside, verdict, ← same]; rfl
      refine .stays observes kind entered (by rw [verdict]; rfl) ?_
      rw [inside]
      exact within e.state

theorem under {overlay : Overlay} {children : List Node} {t : Tour σ}
    (within : Along v (view.under overlay) children state t) :
    Along v view [.block (.context overlay) children] state t := by
  intro index
  obtain ⟨run, sweep, left, halts, after⟩ := within 0
  have kept : [Node.block (.context overlay) run.nodes] = [.block (.context overlay) children] := by
    rw [left]
  cases goes : run.halt with
  | some halt => exact ⟨_, .contextHalt sweep goes, kept, goes ▸ halts, nofun⟩
  | none =>
      have whole : Sweep v view index [.block (.context overlay) children] state _ _ :=
        .context sweep goes .nil
      rw [List.append_nil] at whole
      exact ⟨_, whole, kept, goes ▸ halts, fun _ => after goes⟩

end Along

mutual

theorem along_tour (observes : v.Observes) (view : View) :
    (n : Node) → (state : σ) → Along v view [n] state (tour v view n state)
  | .leaf l, state => by
      rw [tour]
      exact .around observes (by cases l <;> nofun) .nothing
  | .block head children, state => by
      by_cases kind : (Node.block head children).kind = .context
      · obtain ⟨overlay, _, shape⟩ := Node.exists_of_context kind
        cases shape
        rw [tour]
        exact .under (along_tours observes _ children state)
      · rw [tour]
        · exact .around observes kind (along_tours observes _ children)
        · rintro overlay rfl
          exact kind rfl

theorem along_tours (observes : v.Observes) (view : View) :
    (nodes : List Node) → (state : σ) → Along v view nodes state (tours v view nodes state)
  | [], state => .nothing state
  | n :: rest, state => by
      rw [tours]
      exact .followed (along_tour observes view n state) (along_tours observes view rest _)

end

/-- The walk of a visitor that only looks ends, with either engine, in one run. Its calls are those
of the tour up to the first one that ends the walk, and it leaves the tree as it is. -/
theorem walks_observe (observes : v.Observes) (e : Engine) (nodes : List Node) (state : σ) :
    ∃ run : Run σ, (∀ r, (∃ fuel, e.walk v fuel nodes state = some r) ↔ r = run) ∧
      run.nodes = nodes ∧
      (∀ calls, e.Walks v nodes state calls run ↔
        calls = upToStop v (tours v .root nodes state).calls) ∧
      (run.outcome = .stopped ↔ ∃ c ∈ (tours v .root nodes state).calls, c.Stops v) ∧
      (run.outcome = .completed → run.state = (tours v .root nodes state).state) := by
  obtain ⟨run, sweep, left, halts, after⟩ := along_tours observes .root nodes state 0
  refine ⟨run, Engine.ends_exactly sweep e, left, fun calls => ?_, ?_, fun completed => ?_⟩
  · rw [Engine.walks_exactly sweep e]
    simp
  · rw [Run.outcome_stopped, halts]
  · exact after (Run.outcome_completed.1 completed)

theorem walks_observe_adaptive :
    let v : Visitor Nat :=
      { enter := fun _ node count =>
          ⟨count + 1, node, [], if count = 0 then .skip else .proceed⟩
        exit := fun _ node count => ⟨count + 1, node, if count = 4 then .halt else .proceed⟩ }
    let a : Node := .rule "a" [.comment "x"]
    let b : Node := .rule "b" [.comment "y"]
    let nodes : List Node := [.context .empty [a], b, .comment "z"]
    let outer : View := View.root.under .empty
    let inner : View := View.root.below b
    v.Observes ∧ ∃ run : Run Nat, (∃ fuel, Engine.iterative.walk v fuel nodes 0 = some run) ∧
      run.nodes = nodes ∧ run.outcome = .stopped ∧
      Engine.iterative.Walks v nodes 0 [⟨.enter, outer, a, 0⟩, ⟨.exit, outer, a, 1⟩,
        ⟨.enter, .root, b, 2⟩, ⟨.enter, inner, .comment "y", 3⟩,
        ⟨.exit, inner, .comment "y", 4⟩] run := by
  intro v a b nodes outer inner
  have observes : v.Observes := by
    refine ⟨fun _ _ _ => rfl, fun _ _ _ => rfl, fun _ _ count nodes => ?_, fun _ _ _ => rfl⟩
    simp only [v]
    split <;> nofun
  obtain ⟨run, ends, left, walks, stopped, -⟩ := walks_observe observes .iterative nodes 0
  have last : (tours v .root nodes 0).calls[4]? = some ⟨.exit, inner, .comment "y", 4⟩ := rfl
  have stops : Call.Stops v ⟨.exit, inner, .comment "y", 4⟩ := rfl
  exact ⟨observes, run, (ends run).2 rfl, left,
    stopped.2 ⟨_, List.mem_of_getElem? last, stops⟩, (walks _).2 rfl⟩

end StyleTree.Walk
