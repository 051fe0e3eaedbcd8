import StyleTree.Proofs.Node.Release
import StyleTree.Proofs.Walk.Hiding

namespace StyleTree

namespace Walk

universe u
variable {σ : Type u} {v : Visitor σ}

/-! ## What is behind the walk stays -/

namespace Level

def passed : Level → Level
  | .node before head _ => .node before head []
  | .wrapper before overlay _ => .wrapper before overlay []

theorem map_passed_node {levels above : List Level} {before after : List Node} {head : Head}
    (same : levels.map passed = (Level.node before head after :: above).map passed) :
    ∃ after' levels', levels = .node before head after' :: levels' ∧
      levels'.map passed = above.map passed := by
  obtain ⟨level, levels', rfl, first, rest⟩ := List.map_eq_cons_iff.1 same
  cases level with
  | node =>
      cases first
      exact ⟨_, _, rfl, rest⟩
  | wrapper => cases first

theorem map_passed_wrapper {levels above : List Level} {before after : List Node}
    {overlay : Overlay}
    (same : levels.map passed = (Level.wrapper before overlay after :: above).map passed) :
    ∃ after' levels', levels = .wrapper before overlay after' :: levels' ∧
      levels'.map passed = above.map passed := by
  obtain ⟨level, levels', rfl, first, rest⟩ := List.map_eq_cons_iff.1 same
  cases level with
  | node => cases first
  | wrapper =>
      cases first
      exact ⟨_, _, rfl, rest⟩

end Level

namespace Cursor

def done (k : Cursor) : List Node :=
  match k.hook with
  | .enter => k.before
  | .exit => k.before ++ k.rest.take 1

def Stands (k : Cursor) (nodes : List Node) : Prop :=
  ∃ levels after, levels.map Level.passed = k.above.map Level.passed ∧
    nodes = Level.enclose levels (k.done ++ after)

end Cursor

section
variable {k k' : Cursor} {state state' : σ} {nodes : List Node}

theorem Move.stands (kept : ∀ view node state, (v.exit view node state).node = node)
    {call : Option (Call σ)} (move : Move v k state call k' state') (stands : k'.Stands nodes) :
    k.Stands nodes := by
  obtain ⟨levels, after, passed, rfl⟩ := stands
  cases move with
  | wrap =>
      obtain ⟨after', levels, rfl, same⟩ := Level.map_passed_wrapper passed
      exact ⟨levels, _, same, rfl⟩
  | @unwrap above before overlay children rest =>
      refine ⟨.wrapper before overlay after :: levels, [], congrArg (_ :: ·) passed, ?_⟩
      simp [Cursor.done, Level.enclose, Level.around]
  | revisit => exact ⟨levels, _, passed, rfl⟩
  | pass => exact ⟨levels, _, passed, congrArg _ (List.append_assoc ..)⟩
  | stay => exact ⟨levels, _, passed, congrArg _ (List.append_assoc ..)⟩
  | descend =>
      obtain ⟨after', levels, rfl, same⟩ := Level.map_passed_node passed
      exact ⟨levels, _, same, rfl⟩
  | @ascend above before head children rest =>
      refine ⟨.node before head after :: levels, [], congrArg (_ :: ·) passed, ?_⟩
      simp [Cursor.done, Level.enclose, Level.around]
  | exit exited =>
      subst exited
      exact ⟨levels, after, passed, by rw [kept]; rfl⟩

theorem Course.stands (kept : ∀ view node state, (v.exit view node state).node = node)
    {calls : List (Call σ)} (course : Course v k state calls k' state')
    (stands : k'.Stands nodes) : k.Stands nodes := by
  induction course with
  | refl => exact stands
  | move first _ ih => exact first.stands kept (ih stands)

theorem Ends.stands (kept : ∀ view node state, (v.exit view node state).node = node)
    {last : List (Call σ)} {run : Run σ} (ends : Ends v k state last run) :
    k.Stands run.nodes := by
  cases ends with
  | completed => exact ⟨[], [], rfl, by simp [Cursor.done, Level.enclose]⟩
  | enter => exact ⟨_, _, rfl, rfl⟩
  | @exit above before node rest _ _ exited =>
      subst exited
      exact ⟨above, rest, rfl, by simp [kept, Cursor.done]⟩

end

/-- Earlier in the walk, an enter hook left this node behind. Since then all that was inside the
node has been walked, and the node is given back with what the walk of its children left. -/
def Call.Closes (v : Visitor σ) (earlier : List (Call σ)) (c : Call σ) : Prop :=
  ∃ before d calls inner, earlier = before ++ d :: calls ∧ d.hook = .enter ∧
    (d.entered v).verdict.stays ∧ inner.halt = none ∧
    Sweep v (d.view.below (d.entered v).node) 0 (d.entered v).inside (d.entered v).state calls
      inner ∧
    c = ⟨.exit, d.view, (d.entered v).refill inner.nodes, inner.state⟩

def ExitsClose (v : Visitor σ) (calls : List (Call σ)) : Prop :=
  ∀ earlier c later, calls = earlier ++ c :: later → c.hook = .exit → c.Closes v earlier

namespace ExitsClose

variable {calls calls' : List (Call σ)} {c : Call σ}

theorem nil : ExitsClose v [] := fun _ _ _ parts => by simp at parts

theorem concat (close : ExitsClose v calls) (closes : c.hook = .exit → c.Closes v calls) :
    ExitsClose v (calls ++ [c]) := by
  intro earlier d later parts exit
  rcases List.eq_nil_or_concat later with rfl | ⟨later, x, rfl⟩
  · obtain ⟨rfl, same⟩ := List.append_inj' parts rfl
    cases same
    exact closes exit
  · rw [List.concat_eq_append, ← List.cons_append, ← List.append_assoc] at parts
    exact close earlier d later (List.append_inj' parts rfl).1 exit

theorem append (close : ExitsClose v calls) (close' : ExitsClose v calls') :
    ExitsClose v (calls ++ calls') := by
  induction calls' using List.reverseRecOn with
  | nil => rwa [List.append_nil]
  | append_singleton calls' c ih =>
      have first : ExitsClose v calls' := fun earlier d later parts =>
        close' earlier d (later ++ [c]) (by rw [parts, List.append_assoc]; rfl)
      rw [← List.append_assoc]
      refine (ih first).concat fun exit => ?_
      obtain ⟨before, d, inside, inner, parts, closes⟩ := close' calls' c [] rfl exit
      exact ⟨calls ++ before, d, inside, inner, by rw [parts, List.append_assoc], closes⟩

theorem enter {view : View} {node : Node} {state : σ} (close : ExitsClose v calls) :
    ExitsClose v (⟨.enter, view, node, state⟩ :: calls) := by
  have first : ExitsClose v [⟨.enter, view, node, state⟩] := nil.concat (by rintro ⟨⟩)
  exact first.append close

end ExitsClose

theorem Sweep.exitsClose {view : View} {index : Nat} {siblings : List Node} {state : σ}
    {calls : List (Call σ)} {run : Run σ} (sweep : Sweep v view index siblings state calls run) :
    ExitsClose v calls := by
  induction sweep with
  | nil => exact .nil
  | context _ _ _ ihWithin ihLater => exact ihWithin.append ihLater
  | contextHalt _ _ ihWithin => exact ihWithin
  | revisit _ _ _ _ ihLater => exact ihLater.enter
  | pass _ _ _ _ ihLater => exact ihLater.enter
  | halt => exact ExitsClose.nil.enter
  | insideHalt _ _ _ _ _ ihWithin => exact ihWithin.enter
  | exitHalt _ entered stays within goes _ _ ihWithin =>
      subst entered
      exact ihWithin.enter.concat fun _ => ⟨[], _, _, _, rfl, rfl, stays, goes, within, rfl⟩
  | @exit _ _ _ _ _ _ calls _ _ calls' _ _ entered stays within goes _ _ _ ihWithin ihLater =>
      subst entered
      have whole := (ihWithin.enter.concat fun _ =>
        ⟨[], _, _, _, rfl, rfl, stays, goes, within, rfl⟩).append ihLater
      rwa [List.cons_append, List.cons_append, List.append_assoc] at whole

/-! ## Exit calls in postorder -/

def exits (calls : List (Call σ)) : List Node := (calls.filter Call.isExit).map Call.node

def finished (nodes : List Node) : List Node :=
  (Node.postorders nodes).filter (·.kind ≠ .context)

section
variable {calls calls' : List (Call σ)} {c : Call σ} {nodes nodes' : List Node}

theorem exits_append : exits (calls ++ calls') = exits calls ++ exits calls' := by
  rw [exits, List.filter_append, List.map_append]
  rfl

theorem exits_enter (enter : c.hook = .enter) : exits (c :: calls) = exits calls := by
  rw [exits, List.filter_cons_of_neg (by simp [Call.isExit, enter])]
  rfl

theorem exits_exit (exit : c.hook = .exit) : exits (c :: calls) = c.node :: exits calls := by
  rw [exits, List.filter_cons_of_pos (by simp [Call.isExit, exit])]
  rfl

theorem finished_context (overlay : Overlay) (children rest : List Node) :
    finished (.block (.context overlay) children :: rest) = finished children ++ finished rest := by
  simp [finished, Node.postorders, Node.postorder, Node.kind, Head.kind]

theorem finished_node {node : Node} (kind : node.kind ≠ .context) (rest : List Node) :
    finished (node :: rest) = finished node.children ++ node :: finished rest := by
  simp [finished, Node.postorders, Node.postorder_eq, kind]

end

def Call.GoesIn (v : Visitor σ) (c : Call σ) : Prop :=
  c.hook = .enter → (c.entered v).action ≠ .skip ∧ (c.entered v).action ≠ .stop

theorem Entered.verdict_of_goesIn {e : Entered σ}
    (goesIn : e.action ≠ .skip ∧ e.action ≠ .stop) :
    e.verdict = .descend ∨ ∃ nodes, e.verdict = .replace nodes true := by
  obtain ⟨state, node, requests, action⟩ := e
  obtain ⟨noSkip, noStop⟩ := goesIn
  cases action with
  | skip => exact absurd rfl noSkip
  | stop => exact absurd rfl noStop
  | proceed =>
      cases requests with
      | nil => exact .inl rfl
      | cons nodes => exact .inr ⟨nodes, rfl⟩
  | replace nodes =>
      cases requests with
      | nil => exact .inr ⟨nodes, rfl⟩
      | cons nodes => exact .inr ⟨nodes, rfl⟩

theorem Entered.descends {e : Entered σ} (goesIn : e.action ≠ .skip ∧ e.action ≠ .stop)
    (stays : e.verdict.stays) : e.verdict = .descend := by
  rcases e.verdict_of_goesIn goesIn with descends | ⟨_, revisits⟩
  · exact descends
  · rw [revisits] at stays
    cases stays

theorem Entered.children_refill {e : Entered σ} (descends : e.verdict = .descend) {view : View}
    {calls : List (Call σ)} {inner : Run σ} (within : Sweep v view 0 e.inside e.state calls inner) :
    (e.refill inner.nodes).children = inner.nodes := by
  cases shape : e.node with
  | leaf =>
      have inside : e.inside = [] := by simp [Entered.inside, descends, shape, Node.children]
      rw [inside] at within
      cases within
      simp [Entered.refill, descends, shape, Node.withChildren, Node.children]
  | block => simp [Entered.refill, descends, shape, Node.withChildren, Node.children]

theorem Sweep.exits_eq (kept : ∀ view node state, (v.exit view node state).node = node)
    {view : View} {index : Nat} {siblings : List Node} {state : σ} {calls : List (Call σ)}
    {run : Run σ} (sweep : Sweep v view index siblings state calls run) (goes : run.halt = none)
    (goesIn : ∀ c ∈ calls, c.GoesIn v) (plain : ∀ c ∈ calls, ¬ c.Reveals v) :
    exits calls = finished run.nodes := by
  induction sweep with
  | nil => rfl
  | context _ goes' _ ihWithin ihLater =>
      rw [List.forall_mem_append] at goesIn plain
      rw [exits_append, ihWithin goes' goesIn.1 plain.1, ihLater goes goesIn.2 plain.2, Run.after,
        List.singleton_append, finished_context]
  | contextHalt | halt | insideHalt | exitHalt => cases goes
  | revisit _ _ _ _ ihLater =>
      rw [List.forall_mem_cons] at goesIn plain
      rw [exits_enter rfl, ihLater goes goesIn.2 plain.2]
  | pass _ entered verdict _ _ =>
      -- nodes are passed over only if the action is to skip or to stop
      subst entered
      rcases Entered.verdict_of_goesIn (goesIn _ (.head _) rfl) with descends | ⟨_, revisits⟩
      · cases verdict.symm.trans descends
      · cases verdict.symm.trans revisits
  | @exit view _ node _ state _ _ inner _ _ _ _ entered stays within goes' exited _ _ ihWithin
      ihLater =>
      subst entered exited
      rw [List.forall_mem_cons, List.forall_mem_append, List.forall_mem_cons] at goesIn plain
      obtain ⟨first, inside, -, after⟩ := goesIn
      obtain ⟨plain, plain', -, plain''⟩ := plain
      have descends : (v.enter view node state).verdict = .descend :=
        Entered.descends (first rfl) stays
      have shown : (v.enter view node state).node.kind ≠ .context :=
        fun context => plain ⟨rfl, stays, context⟩
      rw [← Entered.kind_refill _ inner.nodes] at shown
      rw [exits_enter rfl, exits_append, exits_exit rfl, ihWithin goes' inside plain',
        ihLater goes after plain'', kept, Run.after, List.singleton_append, finished_node shown,
        Entered.children_refill descends within]

/-- Of a visitor whose exit hooks leave their nodes alone, each exit call is given a node with all
that the walk left inside it, and this stays in the tree up to the end: in the same place, with the
same before it at all levels, though with other nodes after it. If the walk completes and no part of
the tree is left out or taken for something else, the exit calls are given the nodes of the tree
that is left, in postorder and without the contexts. -/
theorem walks_finish (kept : ∀ view node state, (v.exit view node state).node = node) {e : Engine}
    {nodes : List Node} {state : σ} {calls : List (Call σ)} {run : Run σ}
    (walks : e.Walks v nodes state calls run) :
    (∀ earlier c later, calls = earlier ++ c :: later → c.hook = .exit →
      c.Closes v earlier ∧
      ∃ k state' after, Course v (.start nodes) state earlier k state' ∧ k.Calls state' c after ∧
        k.tree = Level.enclose k.above (k.before ++ c.node :: after) ∧
        ∃ levels after', levels.map Level.passed = k.above.map Level.passed ∧
          run.nodes = Level.enclose levels (k.before ++ c.node :: after')) ∧
    (run.outcome = .completed → (∀ c ∈ calls, c.GoesIn v) → (∀ c ∈ calls, ¬ c.Reveals v) →
      (calls.filter Call.isExit).map Call.node =
        (Node.postorders run.nodes).filter (·.kind ≠ .context)) := by
  have sweep := Engine.walks_sweep.1 walks
  refine ⟨?_, fun completed goesIn plain => ?_⟩
  · rintro earlier c later rfl exit
    refine ⟨sweep.exitsClose earlier c later rfl exit, ?_⟩
    obtain ⟨k, state', after, past, called, ahead, k', state'', last, course, ends⟩ :=
      walks_split walks
    refine ⟨k, state', after, past, called, by rw [Cursor.tree, called.rest], ?_⟩
    obtain ⟨levels, after', passed, left⟩ := course.stands kept (ends.stands kept)
    have done : k.done = k.before ++ [c.node] := by
      simp [Cursor.done, ← called.hook, exit, called.rest]
    rw [done, List.append_assoc] at left
    exact ⟨levels, after', passed, left⟩
  · exact sweep.exits_eq kept (Run.outcome_completed.1 completed) goesIn plain

theorem walks_finish_replaced_comment :
    let v : Visitor Nat := .ofEnter fun _ node count =>
      ⟨count + 1, node, if node.kind = .comment then [[.rule "b" []]] else [], .proceed⟩
    let inside : View := View.root.below (.rule "a" [])
    let b : Node := .rule "b" []
    let a : Node := .rule "a" [b]
    let earlier : List (Call Nat) :=
      [⟨.enter, .root, .rule "a" [.comment "x"], 0⟩, ⟨.enter, inside, .comment "x", 1⟩,
        ⟨.enter, inside, b, 2⟩]
    let c : Call Nat := ⟨.exit, inside, b, 3⟩
    let run : Run Nat := ⟨3, [a], none⟩
    (∀ view node state, (v.exit view node state).node = node) ∧
      Engine.iterative.Walks v [.rule "a" [.comment "x"]] 0 (earlier ++ [c, ⟨.exit, .root, a, 3⟩])
        run ∧
      c.Closes v earlier ∧
      (∃ (k : Cursor) (after : List Node) (levels : List Level) (after' : List Node),
        k.Calls 3 c after ∧
        levels.map Level.passed = k.above.map Level.passed ∧
        run.nodes = Level.enclose levels (k.before ++ b :: after')) ∧
      [b, a] = (Node.postorders [a]).filter (·.kind ≠ .context) := by
  intro v inside b a earlier c run
  have kept : ∀ view node state, (v.exit view node state).node = node := fun _ _ _ => rfl
  have isRule : (Node.rule "a" [.comment "x"]).kind ≠ .context := nofun
  have isRule' : b.kind ≠ .context := nofun
  have isLeaf : (Node.comment "x").kind ≠ .context := nofun
  have rule : Sweep v inside 0 [b] 2 [⟨.enter, inside, b, 2⟩, c] ⟨3, [b], none⟩ :=
    Sweep.exitEmpty isRule' rfl rfl rfl rfl rfl .nil
  have comment : Sweep v inside 0 [.comment "x"] 1
      [⟨.enter, inside, .comment "x", 1⟩, ⟨.enter, inside, b, 2⟩, c] ⟨3, [b], none⟩ :=
    Sweep.revisit isLeaf rfl rfl rule
  have whole : Sweep v .root 0 [.rule "a" [.comment "x"]] 0
      [⟨.enter, .root, .rule "a" [.comment "x"], 0⟩, ⟨.enter, inside, .comment "x", 1⟩,
        ⟨.enter, inside, b, 2⟩, c, ⟨.exit, .root, a, 3⟩] ⟨3, [a], none⟩ :=
    Sweep.exit isRule rfl rfl comment rfl rfl rfl .nil
  have walks : Engine.iterative.Walks v [.rule "a" [.comment "x"]] 0
      (earlier ++ [c, ⟨.exit, .root, a, 3⟩]) run := Engine.walks_sweep.2 whole
  obtain ⟨stands, postorder⟩ := walks_finish kept walks
  obtain ⟨closes, k, state, after, -, called, -, levels, after', passed, left⟩ :=
    stands earlier c _ rfl rfl
  obtain rfl : c.state = state := called.state
  refine ⟨kept, walks, closes, ⟨k, after, levels, after', called, passed, left⟩,
    postorder rfl ?_ ?_⟩
  · intro d _ _
    exact ⟨nofun, nofun⟩
  · intro d member
    rintro ⟨-, -, context⟩
    simp only [earlier, List.cons_append, List.nil_append, List.mem_cons, List.not_mem_nil,
      or_false] at member
    rcases member with rfl | rfl | rfl | rfl | rfl <;> cases context

end Walk
end StyleTree
